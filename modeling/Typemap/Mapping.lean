import Typemap.Expression
import Typemap.Literal
import Typemap.Placeholder
import Typemap.Text.Listed

/-!
# Mappings

A mapping is what an expression means: a type for a type, a type with generic
arguments for a type, or an annotation on a type. Generic arguments are kept as
text without blanks. `Mapping.text` is the canonical form of a mapping;
`Mapping.resolve` puts a package where the placeholder stands.
-/

namespace Typemap

inductive Mapping.Kind where
  | type
  | map
  | annotate
  deriving DecidableEq, Repr, Inhabited

def Mapping.Kind.tag : Mapping.Kind → String
  | type => "TYPE"
  | map => "MAP"
  | annotate => "ANNOTATE"

structure SourceType where
  name : String
  format? : Option String
  deriving DecidableEq, Repr, Inhabited

def SourceType.text (s : SourceType) : String :=
  match s.format? with
  | none => s.name
  | some format => s.name ++ "(" ++ format ++ ")"

/-- A parameter of an annotation. The value is kept as written, quotes and
backslashes included. A value without a name has the empty name. -/
structure Parameter where
  name : String
  value : String
  deriving DecidableEq, Repr, Inhabited

namespace Parameter

def isPositional (p : Parameter) : Bool := p.name.isEmpty

def isQuoted (p : Parameter) : Bool := Literal.isQuoted p.value.toList

/-- What the value stands for, without quotes and shields. -/
def content (p : Parameter) : String := String.ofList (Literal.content p.value.toList)

def text (p : Parameter) : String :=
  if p.isPositional then p.value else p.name ++ "=" ++ p.value

end Parameter

structure Annotation where
  typeName : String
  parameters : List Parameter
  deriving DecidableEq, Repr, Inhabited

namespace Annotation

def get? (name : String) (a : Annotation) : Option String :=
  (a.parameters.find? fun p => p.name == name).map (·.value)

def names (a : Annotation) : List String := a.parameters.map (·.name)

def text (a : Annotation) : String :=
  if a.parameters.isEmpty then a.typeName
  else a.typeName ++ "(" ++ listed (a.parameters.map (·.text)) ++ ")"

end Annotation

inductive Mapping where
  | type (source : SourceType) (target : String)
  | map (source : SourceType) (target : String) (generics : List String)
  | annotate (sourceName : String) (applied : Annotation)
  deriving DecidableEq, Repr, Inhabited

namespace Mapping

def kind : Mapping → Kind
  | type _ _ => .type
  | map _ _ _ => .map
  | annotate _ _ => .annotate

def sourceName : Mapping → String
  | type source _ => source.name
  | map source _ _ => source.name
  | annotate name _ => name

def format? : Mapping → Option String
  | type source _ => source.format?
  | map source _ _ => source.format?
  | annotate _ _ => none

def target? : Mapping → Option String
  | type _ target => some target
  | map _ target _ => some target
  | annotate _ _ => none

def generics : Mapping → List String
  | map _ _ generics => generics
  | _ => []

/-- The annotation that a mapping attaches, if it does. -/
def attached? : Mapping → Option Annotation
  | annotate _ applied => some applied
  | _ => none

def parameters (m : Mapping) : List Parameter :=
  match m.attached? with
  | some applied => applied.parameters
  | none => []

/-- The canonical form. -/
def text : Mapping → String
  | type source target => source.text ++ " => " ++ target
  | map source target generics =>
      source.text ++ " => " ++ target ++ "<" ++ listed generics ++ ">"
  | annotate name applied => name ++ " @ " ++ applied.text

/-- Puts the package into the target type, its generic arguments and the
annotation type. The source type and the parameters stay. -/
def resolve (package : String) : Mapping → Mapping
  | type source target => type source (Placeholder.resolve package target)
  | map source target generics =>
      map source (Placeholder.resolve package target)
        (generics.map (Placeholder.resolve package))
  | annotate name applied =>
      annotate name { applied with
        typeName := Placeholder.resolve package applied.typeName }

end Mapping

namespace Argument

def toParameter (a : Argument) : Parameter := ⟨a.name?.getD "", a.value.text⟩

end Argument

namespace Source

def toSourceType (s : Source) : SourceType := ⟨s.name, s.format?.map (·.text)⟩

end Source

namespace Mapping

/-- The meaning of an expression. A target without generic arguments makes a
plain type mapping. -/
def ofExpression (e : Expression) : Mapping :=
  match e.clause with
  | .map ⟨name, .nil⟩ => type e.source.toSourceType name
  | .map ⟨name, generics⟩ =>
      map e.source.toSourceType name (generics.toList.map (·.text))
  | .annotate name arguments =>
      annotate e.source.name ⟨name, arguments.map (·.toParameter)⟩

theorem ofExpression_map {generics : Generics} (h : generics ≠ .nil) (source : Source)
    (name : String) :
    ofExpression ⟨source, .map ⟨name, generics⟩⟩ =
      map source.toSourceType name (generics.toList.map (·.text)) := by
  cases generics with
  | nil => exact absurd rfl h
  | cons => rfl

end Mapping

end Typemap
