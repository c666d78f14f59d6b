import Mathlib.Computability.RegularExpressions

/-!
# The pattern of a bare value

What may be written without quotes, said by a regular expression over the whole
value: one or more of the letters and digits of ASCII and of six marks. Neither
the scan nor the rule for quotes is looked at.
-/

namespace Typemap.Literal

/-- The characters of a bare value, one by one. -/
def bareCharacters : List Char :=
  "ABCDEFGHIJKLMNOPQRSTUVWXYZabcdefghijklmnopqrstuvwxyz0123456789._$-\x7b\x7d".toList

/-- Any one of some characters. -/
def oneOf (cs : List Char) : RegularExpression Char := (cs.map .char).sum

def barePattern : RegularExpression Char := oneOf bareCharacters * (oneOf bareCharacters).star

end Typemap.Literal
