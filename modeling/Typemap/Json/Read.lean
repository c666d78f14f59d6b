import Typemap.Json.Scan

/-!
# Reading JSON

A machine that takes one token at a time. The arrays and objects that are still
open form a stack, so that nesting is not limited. A text is read as a whole:
exactly one value, and only blanks around it.
-/

namespace Typemap.Json

namespace Reader

/-- An array or object that is still open. The key is that of the value being read. -/
inductive Frame where
  | array (items : List Json)
  | object (fields : List (Text × Json)) (key : Text)
  deriving Repr

inductive State where
  | value (frames : List Frame)
  /-- An array has just been opened. -/
  | opened (frames : List Frame)
  /-- A key is due, or the end of the object if it has just been opened. -/
  | key (first : Bool) (fields : List (Text × Json)) (frames : List Frame)
  | colon (key : Text) (fields : List (Text × Json)) (frames : List Frame)
  | after (j : Json) (frames : List Frame)
  deriving Repr

def begin? (frames : List Frame) : Token → Option State
  | .scalar s => some (.after (.scalar s) frames)
  | .openArray => some (.opened frames)
  | .openObject => some (.key true [] frames)
  | _ => none

def step? : State → Token → Option State
  | .value frames, t => begin? frames t
  | .opened frames, .closeArray => some (.after (.array []) frames)
  | .opened frames, t => begin? (.array [] :: frames) t
  | .key _ fields frames, .scalar (.string key) => some (.colon key fields frames)
  | .key true _ frames, .closeObject => some (.after (.object []) frames)
  | .colon key fields frames, .colon => some (.value (.object fields key :: frames))
  | .after j (.array items :: frames), .comma => some (.value (.array (items ++ [j]) :: frames))
  | .after j (.array items :: frames), .closeArray => some (.after (.array (items ++ [j])) frames)
  | .after j (.object fields key :: frames), .comma =>
      some (.key false (fields ++ [(key, j)]) frames)
  | .after j (.object fields key :: frames), .closeObject =>
      some (.after (.object (fields ++ [(key, j)])) frames)
  | _, _ => none

def run? (s : State) : List Token → Option State
  | [] => some s
  | t :: ts => (step? s t).bind fun s => run? s ts

end Reader

def ofTokens? (ts : List Token) : Option Json :=
  match Reader.run? (.value []) ts with
  | some (.after j []) => some j
  | _ => none

def read? (text : String) : Option Json := (scan? text.toList).bind ofTokens?

end Typemap.Json
