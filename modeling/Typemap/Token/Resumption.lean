import Typemap.Token.Tiling

/-!
# A scan that is resumed

A walk over a text stops at each fault and can be resumed there. `Scan.calls` is
the walk behind a number of calls, whatever they came to. What the failing calls
blame can be blanked: the text keeps its length, and each of these characters
becomes a space.
-/

namespace Typemap

def Span.covers (s : Span) (offset : Nat) : Bool := decide (s.offset ≤ offset ∧ offset < s.stop)

/-- Characters that stand from an offset on, with a space for each one that a
span covers. -/
def blankFrom (spans : List Span) : Nat → List Char → List Char
  | _, [] => []
  | offset, c :: cs =>
      (if spans.any (·.covers offset) then ' ' else c) :: blankFrom spans (offset + 1) cs

def blanked (spans : List Span) (text : String) : String :=
  String.ofList (blankFrom spans 0 text.toList)

@[simp] theorem length_blankFrom (spans : List Span) (offset : Nat) (cs : List Char) :
    (blankFrom spans offset cs).length = cs.length := by
  induction cs generalizing offset with
  | nil => rfl
  | cons c cs ih => rw [blankFrom, List.length_cons, ih, List.length_cons]

theorem blankFrom_append (spans : List Span) (offset : Nat) (cs ds : List Char) :
    blankFrom spans offset (cs ++ ds) =
      blankFrom spans offset cs ++ blankFrom spans (offset + cs.length) ds := by
  induction cs generalizing offset with
  | nil => rfl
  | cons c cs ih =>
      rw [List.cons_append, blankFrom, blankFrom, ih, List.cons_append, List.length_cons,
        Nat.add_assoc, Nat.add_comm 1]

namespace Token.Scan

/-- The walk over a text behind a number of calls. -/
def calls (text : String) : Nat → Scan
  | 0 => .start text
  | n + 1 => (calls text n).resume.2

/-- The fault that the call behind `n` others stops at, if it does. -/
def report (text : String) (n : Nat) : Option Fault := (calls text n).resume.1

/-- What the first `n` calls blame, in their order. -/
def blamed (text : String) : Nat → List Span
  | 0 => []
  | n + 1 => blamed text n ++ ((report text n).map (·.span)).toList

/-- The walk goes on at an offset of the text. -/
structure StandsAt (text : String) (offset : Nat) (s : Scan) : Prop where
  le_length : offset ≤ text.length
  ahead : s.ahead = tiles offset (text.toList.drop offset)

end Token.Scan

end Typemap
