import Typemap.Json.Basic
import Typemap.Json.Double

/-!
# Taking JSON values apart

Each decoder answers for one kind of value. `field?` finds a field of an object
that may occur only once.
-/

namespace Typemap.Json

def text? : Json → Option String
  | .string text => some text
  | _ => none

def bool? : Json → Option Bool
  | .bool b => some b
  | _ => none

/-- A natural number of at most 64 bits. -/
def count? : Json → Option Nat
  | .natural n => if n < UInt64.size then some n else none
  | _ => none

def textOrNull? : Json → Option (Option String)
  | .null => some none
  | j => j.text?.map some

def valuesOf (key : String) (fields : List (Text × Json)) : List Json :=
  (fields.filter fun field => field.1 == some key).map (·.2)

/-- The decoded value of a field, which may not occur twice. `absent` is the
answer where it does not occur. -/
def field? {α : Type} (key : String) (decode : Json → Option α) (absent : Option α)
    (fields : List (Text × Json)) : Option α :=
  match valuesOf key fields with
  | [] => absent
  | [j] => decode j
  | _ => none

def keysHaveText (fields : List (Text × Json)) : Bool := fields.all fun field => field.1.isSome

def keysAmong (keys : List String) (fields : List (Text × Json)) : Bool :=
  fields.all fun field => field.1.any fun key => keys.contains key

mutual

def depth : Json → Nat
  | .scalar _ => 0
  | .array items => depthOfItems items + 1
  | .object fields => depthOfFields fields + 1

def depthOfItems : List Json → Nat
  | [] => 0
  | item :: items => max (depth item) (depthOfItems items)

def depthOfFields : List (Text × Json) → Nat
  | [] => 0
  | (_, value) :: fields => max (depth value) (depthOfFields fields)

end

def Scalar.isPlain : Scalar → Bool
  | .string text => text.isSome
  | .natural n => Double.isFinite n 0
  | .decimal _ digits exponent => Double.isFinite digits exponent
  | _ => true

mutual

/-- All strings and keys have text, and all numbers are finite as doubles. -/
def isPlain : Json → Bool
  | .scalar s => s.isPlain
  | .array items => isPlainItems items
  | .object fields => isPlainFields fields

def isPlainItems : List Json → Bool
  | [] => true
  | item :: items => isPlain item && isPlainItems items

def isPlainFields : List (Text × Json) → Bool
  | [] => true
  | (key, value) :: fields => key.isSome && isPlain value && isPlainFields fields

end

end Typemap.Json
