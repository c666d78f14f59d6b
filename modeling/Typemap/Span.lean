/-!
# Spans

A span is a region of an expression. It counts characters, so that each of them
takes one place, whatever its encoding.
-/

namespace Typemap

structure Span where
  offset : Nat
  length : Nat
  deriving DecidableEq, Repr, Inhabited

namespace Span

/-- The empty span, where the end of the input stands. -/
def point (offset : Nat) : Span := ⟨offset, 0⟩

def stop (s : Span) : Nat := s.offset + s.length

@[simp] theorem stop_mk (offset length : Nat) : stop ⟨offset, length⟩ = offset + length := rfl

/-- From the start of `s` to the end of `t`. -/
def through (s t : Span) : Span := ⟨s.offset, t.stop - s.offset⟩

theorem stop_through {s t : Span} (h : s.offset ≤ t.stop) : (s.through t).stop = t.stop := by
  simp [through, stop] at *
  omega

/-- The span of something that `place` moves as a whole. -/
def moved (place : Nat → Nat) (s : Span) : Span := ⟨place s.offset, s.length⟩

/-- The characters of a text under a span. -/
def under (s : Span) (text : String) : List Char :=
  (text.toList.drop s.offset).take s.length

end Span

end Typemap
