import Typemap.Span

/-!
# Mapping expressions

The tree of an expression: a source type, and either a target type with nested
generic arguments or an annotation with arguments. The tree keeps the places
that later messages blame; nothing else in it depends on how it was written.
-/

namespace Typemap

/-- A list of generic arguments. Each one is a type name with a list of its
own, which is empty for a plain name. -/
inductive Generics where
  | nil
  | cons (name : String) (inner : Generics) (rest : Generics)
  deriving DecidableEq, Repr, Inhabited

structure Target where
  name : String
  generics : Generics
  deriving DecidableEq, Repr, Inhabited

namespace Generics

def toList : Generics → List Target
  | nil => []
  | cons name inner rest => ⟨name, inner⟩ :: rest.toList

def ofList : List Target → Generics
  | [] => nil
  | t :: ts => cons t.name t.generics (ofList ts)

@[simp] theorem toList_ofList (ts : List Target) : (ofList ts).toList = ts := by
  induction ts with
  | nil => rfl
  | cons t ts ih => simp [ofList, toList, ih]

@[simp] theorem ofList_toList (g : Generics) : ofList g.toList = g := by
  induction g with
  | nil => rfl
  | cons name inner rest _ ih => simp [toList, ofList, ih]

theorem toList_ne_nil {g : Generics} (h : g ≠ nil) : g.toList ≠ [] := by
  cases g with
  | nil => exact absurd rfl h
  | cons name inner rest => exact List.cons_ne_nil _ _

/-- How deep the lists are nested, this one included. -/
def depth : Generics → Nat
  | nil => 0
  | cons _ inner rest => max (inner.depth + 1) rest.depth

/-- The text of a list in angle brackets, from one of its arguments on. An empty
list has no text; `first` says that the bracket is still to be opened. -/
def text (first : Bool) : Generics → String
  | nil => if first then "" else ">"
  | cons name inner rest =>
      (if first then "<" else ",") ++ name ++ inner.text true ++ rest.text false

end Generics

/-- The text of a target type, without blanks. -/
def Target.text (t : Target) : String := t.name ++ t.generics.text true

/-- A format and the place of the parenthesis before it. -/
structure Format where
  text : String
  opening : Span
  deriving DecidableEq, Repr, Inhabited

structure Source where
  name : String
  format? : Option Format
  deriving DecidableEq, Repr, Inhabited

/-- A value as it was written: a word, or a literal with its quotes. -/
inductive Value where
  | bare (text : String)
  | quoted (text : String)
  deriving DecidableEq, Repr, Inhabited

def Value.text : Value → String
  | bare text => text
  | quoted text => text

/-- An argument of an annotation. Only a single argument may lack a name. The
span is that of the name, or of the value when there is no name. -/
structure Argument where
  name? : Option String
  value : Value
  span : Span
  deriving DecidableEq, Repr, Inhabited

inductive Clause where
  | map (target : Target)
  | annotate (name : String) (arguments : List Argument)
  deriving DecidableEq, Repr, Inhabited

structure Expression where
  source : Source
  clause : Clause
  deriving DecidableEq, Repr, Inhabited

end Typemap
