import Typemap.Expression.Values
import Typemap.Mapping

/-!
# Values written anew

A text is written as a value bare or between quotes. Another value is put into
an expression by replacing the text under its span, and into a mapping by
replacing the value of one parameter. A literal is taken apart into items, each
a character with the backslash that may shield it; it stands for these
characters.
-/

namespace Typemap

/-- How a text is written as a value. -/
def written (content : String) : String := String.ofList (Literal.write content.toList)

/-- The kind of token that a value is written as. -/
def writtenKind (content : String) : Token.Kind :=
  if Literal.needsQuotes content.toList then .literal else .word

namespace Span

/-- The text with something else in place of what stands under the span. -/
def replace (s : Span) (new text : String) : String :=
  String.ofList (text.toList.take s.offset ++ (new.toList ++ text.toList.drop s.stop))

/-- Where the characters around a span go when it is replaced by some characters. -/
def place (s : Span) (length offset : Nat) : Nat :=
  if offset ≤ s.offset then offset else offset - s.length + length

theorem toList_replace {s : Span} {text : String} {front old back : List Char}
    (htext : text.toList = front ++ (old ++ back)) (hs : s = ⟨front.length, old.length⟩)
    (new : String) : (s.replace new text).toList = front ++ (new.toList ++ back) := by
  rw [replace, String.toList_ofList, htext, hs, List.take_left, stop_mk, ← List.drop_drop,
    List.drop_left, List.drop_left]

theorem place_of_le {s : Span} {offset : Nat} (h : offset ≤ s.offset) (length : Nat) :
    s.place length offset = offset := if_pos h

theorem place_stop_add {s : Span} (h : 0 < s.length) (length n : Nat) :
    s.place length (s.stop + n) = s.offset + length + n := by
  rw [place, stop, if_neg (by omega)]
  omega

end Span

namespace Literal

/-- A character inside a literal, and whether a backslash shields it. -/
structure Item where
  char : Char
  shielded : Bool
  deriving DecidableEq, Repr

namespace Item

def text (item : Item) : List Char := if item.shielded then ['\\', item.char] else [item.char]

/-- Between quotes `q` a quote and a backslash must be shielded. -/
def Fits (q : Char) (item : Item) : Prop :=
  item.shielded = true ∨ (item.char ≠ q ∧ item.char ≠ '\\')

end Item

/-- A literal, and what is left of it without its quotes and shields. -/
inductive StandsFor : List Char → List Char → Prop where
  | items {q : Char} {items : List Item} (hq : isQuote q = true) (hfits : ∀ i ∈ items, i.Fits q) :
      StandsFor (q :: items.flatMap (·.text) ++ [q]) (items.map (·.char))

end Literal

namespace Mapping

/-- The mapping with another value for one of its parameters. -/
def withValue (i : Nat) (value : String) : Mapping → Mapping
  | annotate name applied =>
      annotate name { applied with
        parameters := applied.parameters.modify i fun p => { p with value } }
  | m => m

end Mapping

end Typemap
