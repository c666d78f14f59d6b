/-!
# White space

The characters with the property White_Space of Unicode, and the texts that hold
nothing else.
-/

namespace Typemap

/-- The ranges of characters with the property White_Space, in order. -/
def whiteSpaceRanges : List (Nat × Nat) :=
  [(0x09, 0x0d), (0x20, 0x20), (0x85, 0x85), (0xa0, 0xa0), (0x1680, 0x1680), (0x2000, 0x200a),
    (0x2028, 0x2029), (0x202f, 0x202f), (0x205f, 0x205f), (0x3000, 0x3000)]

def isWhiteSpace (c : Char) : Bool :=
  whiteSpaceRanges.any fun (first, last) => first ≤ c.toNat && c.toNat ≤ last

/-- A text without any visible character. The empty text is one. -/
def isWhite (text : String) : Bool := text.toList.all isWhiteSpace

end Typemap
