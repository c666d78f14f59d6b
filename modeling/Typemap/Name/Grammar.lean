import Typemap.Literal.Pattern
import Typemap.Name

/-!
# The grammar of qualified names

What a segment is, once by a regular expression over the whole segment and once
in words. The characters are listed one by one, and a name is cut at its dots by
the list library, so nothing here looks at the check of names.
-/

namespace Typemap.Name

def digits : List Char := "0123456789".toList

/-- What a plain name may start with: the letters of ASCII and two marks. -/
def initialCharacters : List Char :=
  "ABCDEFGHIJKLMNOPQRSTUVWXYZabcdefghijklmnopqrstuvwxyz_$".toList

def innerCharacters : List Char :=
  "ABCDEFGHIJKLMNOPQRSTUVWXYZabcdefghijklmnopqrstuvwxyz0123456789_$".toList

/-- The pattern of one text. -/
def exactly (cs : List Char) : RegularExpression Char := (cs.map .char).prod

def segmentPattern : RegularExpression Char :=
  Literal.oneOf initialCharacters * (Literal.oneOf innerCharacters).star +
    exactly Placeholder.text

/-- A run of letters, digits, underscores and dollar signs that no digit starts,
or the placeholder and nothing else. -/
inductive Segment : List Char → Prop where
  | run {cs : List Char} (hne : cs ≠ []) (hall : ∀ c ∈ cs, c ∈ innerCharacters)
      (hfirst : ∀ c ∈ cs.head?, c ∉ digits) : Segment cs
  | placeholder : Segment Placeholder.text

/-- No dot stands at an end or beside another dot. -/
structure DotsApart (name : List Char) : Prop where
  first : ¬ ['.'] <+: name
  last : ¬ ['.'] <:+ name
  twins : ¬ ['.', '.'] <:+: name

/-- Of the pieces between the dots, this is the leftmost that is no segment. -/
def IsFirstUnfit (name piece : List Char) : Prop :=
  ∃ front back, name.splitOn '.' = front ++ piece :: back ∧
    (∀ other ∈ front, Segment other) ∧ ¬ Segment piece

end Typemap.Name
