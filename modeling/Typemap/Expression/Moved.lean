import Typemap.Expression.Reader
import Typemap.Expression.Unplaced

/-!
# Expressions at other places

Moving an expression, or a state of the reader, moves every place that it keeps
and leaves the rest alone. So it means what it meant before.
-/

namespace Typemap

section

variable (place : Nat → Nat)

def Format.moved (format : Format) : Format :=
  { format with opening := format.opening.moved place }

def Source.moved (s : Source) : Source := { s with format? := s.format?.map (·.moved place) }

def Argument.moved (a : Argument) : Argument := { a with span := a.span.moved place }

def Clause.moved : Clause → Clause
  | map target => map target
  | annotate name arguments => annotate name (arguments.map (·.moved place))

def Expression.moved (e : Expression) : Expression :=
  ⟨e.source.moved place, e.clause.moved place⟩

def Reader.State.moved : State → State
  | start => start
  | sourceType source => sourceType (source.moved place)
  | format name opening => format name (opening.moved place)
  | formatText name opening text => formatText name (opening.moved place) text
  | target source frames => target (source.moved place) frames
  | targetName source frames name => targetName (source.moved place) frames name
  | opened source frames bracket => opened (source.moved place) frames (bracket.moved place)
  | argument source inner outer t => argument (source.moved place) inner outer t
  | annotating source => annotating (source.moved place)
  | annotated source name => annotated (source.moved place) name
  | parameter source name done =>
      parameter (source.moved place) name (done.map (·.moved place))
  | candidate source name done token =>
      candidate (source.moved place) name (done.map (·.moved place)) (token.moved place)
  | value source name done token =>
      value (source.moved place) name (done.map (·.moved place)) (token.moved place)
  | parameters source name done =>
      parameters (source.moved place) name (done.map (·.moved place))
  | complete expression => complete (expression.moved place)

end

variable {place : Nat → Nat}

@[simp] theorem Source.unplaced_moved (s : Source) : (s.moved place).unplaced = s.unplaced := by
  obtain ⟨name, _ | format⟩ := s <;> rfl

@[simp] theorem Clause.unplaced_moved (c : Clause) : (c.moved place).unplaced = c.unplaced := by
  cases c with
  | map target => rfl
  | annotate name arguments => simp [moved, unplaced, Argument.moved, Argument.unplaced]

/-- What an expression means does not depend on where it stands. -/
theorem Mapping.ofExpression_moved (e : Expression) :
    ofExpression (e.moved place) = ofExpression e := by
  apply ofExpression_eq_of_unplaced
  simp [Expression.moved, Expression.unplaced]

end Typemap
