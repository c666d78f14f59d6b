import Typemap.Text.WhiteSpace

/-!
# Settings

What a reader of expressions may be told: how deep generic arguments may nest,
which package stands for the placeholder, and whether an annotation may have a
single value without a name. Settings are checked before they are used.
-/

namespace Typemap

structure Settings where
  maxDepth : Nat := 8
  package? : Option String := none
  allowUnnamed : Bool := true
  deriving DecidableEq, Repr, Inhabited

namespace Settings

def withPackage (package : String) (s : Settings) : Settings :=
  { s with package? := some package }

inductive Defect where
  | zeroDepth
  | blankPackage
  deriving DecidableEq, Repr

def Defect.message : Defect → String
  | zeroDepth => "invalid parser configuration: max-nesting-depth must be at least 1"
  | blankPackage => "invalid parser configuration: package-name must not be blank"

/-- The first defect of the settings. A package must have a visible character. -/
def defect? (s : Settings) : Option Defect :=
  if s.maxDepth = 0 then some .zeroDepth
  else if s.package?.any isWhite then some .blankPackage
  else none

@[simp] theorem defect?_default : defect? {} = none := rfl

def check (s : Settings) : Except Defect Settings :=
  match s.defect? with
  | some d => .error d
  | none => .ok s

end Settings

end Typemap
