import Typemap.Json.Fields
import Typemap.Json.Read
import Typemap.Mapping.Json
import Typemap.Scope

/-!
# Scopes in JSON

A scope is an object whose field `scope` tells the other fields, or an array of
the same values with the tag first. The whole document is held in memory before
the tag is known, so all of it must be plain and not too deep, even the fields
that are passed over.
-/

namespace Typemap

namespace Scope

def globalTag : String := "global"

def pathTag : String := "path"

def pathMethodTag : String := "path-method"

def parameterTag : String := "parameter"

def toJson : Scope → Json
  | global => .record [("scope", .string globalTag)]
  | path p => .record [("scope", .string pathTag), ("path", .string p)]
  | pathMethod p method =>
      .record [("scope", .string pathMethodTag), ("path", .string p), ("method", .string method)]
  | parameter name => .record [("scope", .string parameterTag), ("name", .string name)]

/-- The scope with the given tag, whose other parts are found by name. -/
def ofFields? (tag : String) (part? : String → Option String) : Option Scope :=
  if tag = globalTag then some global
  else if tag = pathTag then (part? "path").map path
  else if tag = pathMethodTag then do return pathMethod (← part? "path") (← part? "method")
  else if tag = parameterTag then (part? "name").map parameter
  else none

/-- The scope with the given tag and its other parts in order. -/
def ofItems? (tag : String) (parts : List String) : Option Scope :=
  match parts with
  | [] => if tag = globalTag then some global else none
  | [part] =>
      if tag = pathTag then some (path part)
      else if tag = parameterTag then some (parameter part)
      else none
  | [p, method] => if tag = pathMethodTag then some (pathMethod p method) else none
  | _ => none

def maxDepth : Nat := 127

def ofJson? (j : Json) : Option Scope :=
  if j.isPlain && j.depth ≤ maxDepth then
    match j with
    | .object fields => do
        let tag ← Json.field? "scope" Json.text? none fields
        ofFields? tag fun key => Json.field? key Json.text? none fields
    | .array (tag :: parts) => do
        ofItems? (← tag.text?) (← parts.mapM Json.text?)
    | _ => none
  else none

def load? (text : String) : Option Scope := (Json.read? text).bind ofJson?

end Scope

def ScopedMapping.toJson (s : ScopedMapping) : Json :=
  .record [("scope", s.scope.toJson), ("mapping", s.mapping.toJson)]

end Typemap
