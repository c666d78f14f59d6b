import Typemap.Diagnostic
import Typemap.Text.CharClass

/-!
# Where a diagnostic points

The line around an offset, taken out of the text itself: what stands above it,
its parts in front of the offset and behind it, and what follows it. A drawing
shows it in one row, with the carets in the row below.
-/

namespace Typemap

/-- What may follow a line: nothing, or a line break. A carriage return in front
of a line feed belongs to the break. -/
inductive EndsLine (line : List Char) : List Char → Prop where
  | stop : EndsLine line []
  | feed {rest : List Char} (hline : line.getLast? ≠ some '\r') : EndsLine line ('\n' :: rest)
  | returnFeed {rest : List Char} : EndsLine line ('\r' :: '\n' :: rest)

/-- An offset cuts a line of a text into `left` and `right`. The line begins the
text or follows a line feed. -/
structure IsLineAround (text : List Char) (offset : Nat) (above left right below : List Char) :
    Prop where
  text_eq : text = above ++ (left ++ (right ++ below))
  offset_eq : offset = (above ++ left).length
  above : ∀ c ∈ above.getLast?, c = '\n'
  inside : '\n' ∉ left ++ right
  below : EndsLine (left ++ right) below

/-- What a span covers begins and ends with a visible character, or runs on to
the end of the text. -/
structure Span.Shows (text : String) (span : Span) : Prop where
  first : ∃ c, (span.under text).head? = some c ∧ isBlank c = false
  last : span.stop = text.length ∨ ∀ c ∈ (span.under text).getLast?, isBlank c = false

namespace Diagnostic

/-- Two rows of a drawing, one right below the other. -/
structure Stacked (drawing : String) (upper lower : List Char) : Prop where
  exists_eq : ∃ front back, drawing =
    front ++ "\n" ++ String.ofList upper ++ "\n" ++ String.ofList lower ++ "\n" ++ back
  upper : '\n' ∉ upper
  lower : '\n' ∉ lower

/-- What stands in front of a line in its row. -/
def margin (line : Nat) : List Char := (gutter line ++ " | ").toList

/-- The row of carets. -/
def carets (column length : Nat) : List Char := ("   | " ++ underline column length).toList

/-- How far the carets stand to the left of what they mean. The number of a line
takes three columns or more, but the margin of the carets leaves two for it. -/
def lag (line : Nat) : Nat := max 3 (toString line).length - 2

end Diagnostic

end Typemap
