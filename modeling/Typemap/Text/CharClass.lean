/-!
# Classes of characters

Three disjoint classes of characters. Word characters make up names and bare
values, quotes open and close literals, and blanks separate tokens. All three
are ASCII; any other character is only welcome inside a literal.
-/

namespace Typemap

/-- A letter, a digit, or one of the six marks that names are made of. -/
def isWordChar (c : Char) : Bool :=
  c.isAlphanum || c == '.' || c == '_' || c == '$' || c == '-' || c == '{' || c == '}'

def isQuote (c : Char) : Bool :=
  c == '"' || c == '\x27'

/-- Space, tabulator, line feed, carriage return and form feed. The vertical
tabulator is not a blank. -/
def isBlank (c : Char) : Bool :=
  c == ' ' || c == '\t' || c == '\n' || c == '\r' || c == '\x0c'

theorem isQuote_iff {c : Char} : isQuote c = true ↔ c = '"' ∨ c = '\x27' := by
  simp [isQuote]

theorem isQuote_eq_false_of_isWordChar {c : Char} (h : isWordChar c = true) :
    isQuote c = false := by
  cases hq : isQuote c with
  | false => rfl
  | true =>
      rcases isQuote_iff.1 hq with rfl | rfl
      · exact absurd h (by decide)
      · exact absurd h (by decide)

theorem isBlank_eq_false_of_isWordChar {c : Char} (h : isWordChar c = true) :
    isBlank c = false := by
  cases hb : isBlank c with
  | false => rfl
  | true =>
      simp only [isBlank, Bool.or_eq_true, beq_iff_eq] at hb
      rcases hb with (((rfl | rfl) | rfl) | rfl) | rfl <;> exact absurd h (by decide)

theorem isBlank_eq_false_of_isQuote {c : Char} (h : isQuote c = true) : isBlank c = false := by
  rcases isQuote_iff.1 h with rfl | rfl <;> decide

end Typemap
