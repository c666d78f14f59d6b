import Typemap.Mapping

/-!
# Expressions without places

Two expressions with the same `unplaced` expression are equal up to the places
that they keep for messages. What an expression means does not depend on these.
-/

namespace Typemap

def Source.unplaced (s : Source) : Source :=
  { s with format? := s.format?.map fun format => { format with opening := default } }

def Argument.unplaced (a : Argument) : Argument := { a with span := default }

def Clause.unplaced : Clause → Clause
  | map target => map target
  | annotate name arguments => annotate name (arguments.map (·.unplaced))

def Expression.unplaced (e : Expression) : Expression := ⟨e.source.unplaced, e.clause.unplaced⟩

@[simp] theorem Source.name_unplaced (s : Source) : s.unplaced.name = s.name := rfl

@[simp] theorem Source.toSourceType_unplaced (s : Source) :
    s.unplaced.toSourceType = s.toSourceType := by
  obtain ⟨name, _ | format⟩ := s <;> rfl

@[simp] theorem Argument.name?_unplaced (a : Argument) : a.unplaced.name? = a.name? := rfl

@[simp] theorem Argument.toParameter_unplaced (a : Argument) :
    a.unplaced.toParameter = a.toParameter := rfl

theorem Mapping.ofExpression_unplaced (e : Expression) :
    ofExpression e.unplaced = ofExpression e := by
  obtain ⟨source, clause⟩ := e
  cases clause with
  | map target =>
      obtain ⟨name, _ | _⟩ := target <;> simp [ofExpression, Expression.unplaced, Clause.unplaced]
  | annotate name arguments =>
      simp [ofExpression, Expression.unplaced, Clause.unplaced, Function.comp_def]

theorem Mapping.ofExpression_eq_of_unplaced {e f : Expression} (h : e.unplaced = f.unplaced) :
    ofExpression e = ofExpression f := by
  rw [← ofExpression_unplaced e, h, ofExpression_unplaced]

end Typemap
