/-!
# JSON values

A value as its text spells it. Numbers are not rounded: a plain run of digits is
a natural number, and any other spelling keeps sign, digits and exponent apart.
A string literal that names half of a surrogate pair is well formed but denotes
no text. Objects keep all their fields, in order.
-/

namespace Typemap

namespace Json

/-- The text of a string literal, or nothing when a surrogate in it has no partner. -/
abbrev Text := Option String

inductive Scalar where
  | null
  | bool (b : Bool)
  | natural (n : Nat)
  /-- The number `digits * 10 ^ exponent`, negated if `negative`. -/
  | decimal (negative : Bool) (digits : Nat) (exponent : Int)
  | string (text : Text)
  deriving DecidableEq, Repr, Inhabited

end Json

inductive Json where
  | scalar (s : Json.Scalar)
  | array (items : List Json)
  | object (fields : List (Json.Text × Json))
  deriving Repr, Inhabited

namespace Json

@[match_pattern] abbrev null : Json := .scalar .null

@[match_pattern] abbrev bool (b : Bool) : Json := .scalar (.bool b)

@[match_pattern] abbrev natural (n : Nat) : Json := .scalar (.natural n)

@[match_pattern] abbrev string (text : String) : Json := .scalar (.string (some text))

def record (fields : List (String × Json)) : Json :=
  .object (fields.map fun (key, value) => (some key, value))

def ofText? : Option String → Json
  | some text => string text
  | none => null

inductive Token where
  | openArray
  | closeArray
  | openObject
  | closeObject
  | colon
  | comma
  | scalar (s : Scalar)
  deriving DecidableEq, Repr

mutual

/-- The tokens of a value, without blanks between them. -/
def tokens : Json → List Token
  | .scalar s => [.scalar s]
  | .array items => .openArray :: tokensOfItems true items
  | .object fields => .openObject :: tokensOfFields true fields

/-- The items of an array from one of them on, with the closing bracket. All but
the first are behind a comma. -/
def tokensOfItems (first : Bool) : List Json → List Token
  | [] => [.closeArray]
  | item :: items =>
      (if first then [] else [.comma]) ++ tokens item ++ tokensOfItems false items

/-- The fields of an object from one of them on, with the closing brace. -/
def tokensOfFields (first : Bool) : List (Text × Json) → List Token
  | [] => [.closeObject]
  | (key, value) :: fields =>
      (if first then [] else [.comma]) ++ .scalar (.string key) :: .colon :: tokens value ++
        tokensOfFields false fields

end

end Json

end Typemap
