import Typemap.Text.CharClass
import Typemap.Token

/-!
# Blanks put into a text

A padding puts blanks in front of the characters of a text and behind the last
one. `Padding.place` is where the character at an offset goes; it counts all
blanks that are put in front of it.
-/

namespace Typemap

/-- The blanks in front of the character at each offset. Those at the length of
a text stand behind its last character. -/
structure Padding where
  gap : Nat → List Char
  isBlank_of_mem : ∀ i, ∀ c ∈ gap i, isBlank c = true

namespace Padding

/-- The padded form of characters that stand from an offset on. -/
def padFrom (p : Padding) : Nat → List Char → List Char
  | offset, [] => p.gap offset
  | offset, c :: cs => p.gap offset ++ c :: p.padFrom (offset + 1) cs

def pad (p : Padding) (text : String) : String := String.ofList (p.padFrom 0 text.toList)

/-- All blanks that are put in front of an offset, the gap there included. -/
def before (p : Padding) (offset : Nat) : List Char := (List.range (offset + 1)).flatMap p.gap

def place (p : Padding) (offset : Nat) : Nat := offset + (p.before offset).length

/-- No blanks are put into a token. -/
def Spares (p : Padding) (t : Token) : Prop :=
  ∀ i, t.span.offset < i → i < t.span.stop → p.gap i = []

/-- A single space in front of an offset. -/
def space (offset : Nat) : Padding where
  gap i := if i = offset then [' '] else []
  isBlank_of_mem i c hc := by
    split at hc
    · rw [List.mem_singleton.1 hc]
      rfl
    · simp at hc

/-- Where the gap at an offset begins. -/
def start (p : Padding) (offset : Nat) : Nat :=
  offset + ((List.range offset).flatMap p.gap).length

theorem place_eq (p : Padding) (offset : Nat) :
    p.place offset = p.start offset + (p.gap offset).length := by
  simp [place, before, start, List.range_succ, Nat.add_assoc]

theorem start_succ (p : Padding) (offset : Nat) : p.start (offset + 1) = p.place offset + 1 := by
  rw [start, place, before, Nat.add_right_comm]

theorem spares_space {offset : Nat} {t : Token}
    (h : t.span.offset < offset → t.span.stop ≤ offset) : (space offset).Spares t := by
  intro i hlow hhigh
  have hi : i ≠ offset := by
    rintro rfl
    exact absurd hhigh (Nat.not_lt.2 (h hlow))
  exact if_neg hi

end Padding

end Typemap
