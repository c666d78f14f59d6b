import Typemap.Expression.Reader
import Typemap.Token.Tiled

/-!
# Well-formed expressions

The trees that settings allow: every name obeys its rule, a format only stands
before `=>`, generic lists are not too deep, parameter names differ, and values
are words or closed literals. Also the package placeholder on trees.
-/

namespace Typemap

namespace Generics

def names : Generics → List String
  | nil => []
  | cons name inner rest => name :: inner.names ++ rest.names

def mapNames (f : String → String) : Generics → Generics
  | nil => nil
  | cons name inner rest => cons (f name) (inner.mapNames f) (rest.mapNames f)

@[simp] theorem depth_mapNames (f : String → String) (g : Generics) :
    (g.mapNames f).depth = g.depth := by
  induction g with
  | nil => rfl
  | cons name inner rest ihi ihr => simp [mapNames, depth, ihi, ihr]

@[simp] theorem names_mapNames (f : String → String) (g : Generics) :
    (g.mapNames f).names = g.names.map f := by
  induction g with
  | nil => rfl
  | cons name inner rest ihi ihr => simp [mapNames, names, ihi, ihr]

end Generics

namespace Target

def names (t : Target) : List String := t.name :: t.generics.names

def mapNames (f : String → String) (t : Target) : Target := ⟨f t.name, t.generics.mapNames f⟩

end Target

namespace Value

/-- A word, or a literal that its first unshielded quote closes. -/
def WellFormed : Value → Prop
  | bare text => Token.IsLexeme .word text.toList
  | quoted text => Token.IsLexeme .literal text.toList

end Value

namespace Clause

/-- The names that a package may stand in. -/
def names : Clause → List String
  | map target => target.names
  | annotate name _ => [name]

/-- The clause with all of its type names left out. What remains is the nesting
of the generic arguments, or the parameters. -/
def nameless : Clause → Clause
  | map target => map (target.mapNames fun _ => "")
  | annotate _ arguments => annotate "" arguments

/-- The clause with the package in every type name of its own. -/
def resolve (package : String) : Clause → Clause
  | map target => map (target.mapNames (Placeholder.resolve package))
  | annotate name arguments => annotate (Placeholder.resolve package name) arguments

end Clause

namespace Expression

/-- The expression with the package in the target or annotation. The source type
and the parameters stay. -/
def resolve (package : String) (e : Expression) : Expression :=
  { e with clause := e.clause.resolve package }

/-- The package stands in each name that it may stand in, and all else is as it
was: the source type, the nesting of the generic arguments and the parameters. -/
structure IsFilled (package : String) (e e' : Expression) : Prop where
  source : e'.source = e.source
  nameless : e'.clause.nameless = e.clause.nameless
  names : e'.clause.names = e.clause.names.map (Placeholder.resolve package)

/-- The names of the parameters of an annotation: all given and different, or a
single one that is missing where the settings allow it. -/
def NamesWellFormed (settings : Settings) (arguments : List Argument) : Prop :=
  ((∀ a ∈ arguments, ∃ name, a.name? = some name ∧ Name.isPlain name.toList = true) ∧
      (arguments.map (·.name?)).Nodup) ∨
    (settings.allowUnnamed = true ∧ ∃ a, arguments = [a] ∧ a.name? = none)

/-- What the settings demand of a clause behind a source type. -/
def ClauseWellFormed (settings : Settings) (source : Source) : Clause → Prop
  | .map target =>
      (∀ format ∈ source.format?, Name.isFormat format.text.toList = true) ∧
        (∀ name ∈ target.names, Name.IsQualified name.toList) ∧
          target.generics.depth ≤ settings.maxDepth
  | .annotate name arguments =>
      source.format? = none ∧ Name.IsQualified name.toList ∧
        NamesWellFormed settings arguments ∧ ∀ a ∈ arguments, a.value.WellFormed

structure WellFormed (settings : Settings) (e : Expression) : Prop where
  source : Name.IsQualified e.source.name.toList
  clause : ClauseWellFormed settings e.source e.clause

end Expression

end Typemap
