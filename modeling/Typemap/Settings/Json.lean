import Typemap.Json.Fields
import Typemap.Json.Read
import Typemap.Json.Write
import Typemap.Settings

/-!
# Settings in JSON

Settings are an object of known fields, each of which may be left out, or an
array of their values, of which the last may be left out. Loading also checks
the settings.
-/

namespace Typemap.Settings

def depthKey : String := "max-nesting-depth"

def packageKey : String := "package-name"

def unnamedKey : String := "allow-unnamed-parameter"

def toJson (s : Settings) : Json :=
  .record [(depthKey, .natural s.maxDepth), (packageKey, .ofText? s.package?),
    (unnamedKey, .bool s.allowUnnamed)]

def ofJson? : Json → Option Settings
  | .object fields =>
      if Json.keysAmong [depthKey, packageKey, unnamedKey] fields then do
        let depth ← Json.field? depthKey Json.count? (some ({} : Settings).maxDepth) fields
        let package? ← Json.field? packageKey Json.textOrNull? (some none) fields
        let unnamed ← Json.field? unnamedKey Json.bool? (some ({} : Settings).allowUnnamed) fields
        return ⟨depth, package?, unnamed⟩
      else none
  | .array [] => some {}
  | .array [depth] => do return { maxDepth := ← depth.count? }
  | .array [depth, package] => do
      return { maxDepth := ← depth.count?, package? := ← package.textOrNull? }
  | .array [depth, package, unnamed] => do
      return ⟨← depth.count?, ← package.textOrNull?, ← unnamed.bool?⟩
  | _ => none

inductive LoadError where
  | json
  | invalid (defect : Defect)
  deriving DecidableEq, Repr

/-- The settings that a value describes, if they are of use. -/
def ofJson (j : Json) : Except LoadError Settings :=
  match ofJson? j with
  | none => .error .json
  | some s => s.check.mapError .invalid

def load (text : String) : Except LoadError Settings :=
  match Json.read? text with
  | none => .error .json
  | some j => ofJson j

end Typemap.Settings
