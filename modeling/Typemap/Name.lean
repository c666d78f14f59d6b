import Typemap.Placeholder

/-!
# Names

A qualified name is a dotted list of segments. A segment is a plain identifier
or the package placeholder on its own. Parameter names are plain identifiers;
formats also allow digits in front, dots and dashes.
-/

namespace Typemap.Name

def isInitial (c : Char) : Bool := c.isAlpha || c == '_' || c == '$'

def isInner (c : Char) : Bool := c.isAlphanum || c == '_' || c == '$'

def isPlain : List Char → Bool
  | [] => false
  | c :: cs => isInitial c && cs.all isInner

def isSegment (cs : List Char) : Bool := isPlain cs || cs == Placeholder.text

def isFormat : List Char → Bool
  | [] => false
  | c :: cs => isInner c && cs.all fun c => isInner c || c == '.' || c == '-'

/-- The pieces between the dots. There is one more of them than there are dots. -/
def pieces : List Char → List (List Char)
  | [] => [[]]
  | c :: cs =>
      if c = '.' then [] :: pieces cs
      else match pieces cs with
        | [] => [[c]]
        | p :: ps => (c :: p) :: ps

def hasTwinDots : List Char → Bool
  | '.' :: '.' :: _ => true
  | _ :: cs => hasTwinDots cs
  | [] => false

inductive Defect where
  | leadingDot
  | trailingDot
  | twinDots
  | segment (piece : List Char)
  deriving DecidableEq, Repr

def Defect.reason (name : List Char) : Defect → String
  | leadingDot => "type name `" ++ String.ofList name ++ "` starts with a dot"
  | trailingDot => "type name `" ++ String.ofList name ++ "` ends with a dot"
  | twinDots => "type name `" ++ String.ofList name ++ "` contains consecutive dots"
  | segment piece =>
      "`" ++ String.ofList piece ++ "` is not a valid segment of type name `" ++
        String.ofList name ++ "`"

/-- The first defect of a name: misplaced dots come before bad segments, and
these from left to right. -/
def defect? (name : List Char) : Option Defect :=
  if name.head? = some '.' then some .leadingDot
  else if name.getLast? = some '.' then some .trailingDot
  else if hasTwinDots name then some .twinDots
  else ((pieces name).find? fun piece => !isSegment piece).map .segment

def IsQualified (name : List Char) : Prop := defect? name = none

instance (name : List Char) : Decidable (IsQualified name) :=
  inferInstanceAs (Decidable (defect? name = none))

end Typemap.Name
