import Typemap.Name
import Typemap.Token

/-!
# Failures

A `Cause` says why an expression was refused, a `Fault` adds where, and a
`Failure` is the full report: kind, message, the expression itself, the blamed
span and a hint. Reports made elsewhere may carry any message, so a `Failure`
holds text; every cause has exactly one wording.
-/

namespace Typemap

namespace Failure

inductive Kind where
  | lex
  | malformedName
  | unexpectedToken
  | emptyGenericArgs
  | duplicateParameter
  | trailingInput
  | nestingTooDeep
  deriving DecidableEq, Repr, Inhabited

namespace Kind

def code : Kind → String
  | lex => "M0001"
  | malformedName => "M0002"
  | unexpectedToken => "M0003"
  | emptyGenericArgs => "M0004"
  | duplicateParameter => "M0005"
  | trailingInput => "M0006"
  | nestingTooDeep => "M0007"

/-- The name under which a kind is stored. -/
def tag : Kind → String
  | lex => "Lex"
  | malformedName => "MalformedName"
  | unexpectedToken => "UnexpectedToken"
  | emptyGenericArgs => "EmptyGenericArgs"
  | duplicateParameter => "DuplicateParameter"
  | trailingInput => "TrailingInput"
  | nestingTooDeep => "NestingTooDeep"

/-- The name under which a kind is shown. -/
def name (k : Kind) : String := k.tag ++ "Error"

def all : List Kind :=
  [lex, malformedName, unexpectedToken, emptyGenericArgs, duplicateParameter, trailingInput,
    nestingTooDeep]

def ofTag? (tag : String) : Option Kind := all.find? fun k => k.tag == tag

@[simp] theorem ofTag?_tag (k : Kind) : ofTag? k.tag = some k := by
  cases k <;> decide

end Kind

end Failure

/-- What would have been welcome where another token was met. -/
inductive Expectation where
  | sourceType
  | format
  | formatEnd
  | clause
  | targetType
  | genericsEnd
  | annotationType
  | parameterValue
  | parametersEnd
  deriving DecidableEq, Repr

def Expectation.describe : Expectation → String
  | sourceType => "a source type"
  | format => "a format"
  | formatEnd => "`)` after the format"
  | clause => "`=>` or `@`"
  | targetType => "a target type"
  | genericsEnd => "`,` or `>` in the generic argument list"
  | annotationType => "an annotation type"
  | parameterValue => "a parameter value"
  | parametersEnd => "`,` or `)` after the annotation parameters"

inductive Cause where
  | strayCharacter (c : Char)
  | unclosedLiteral (quote : Char)
  | malformedName (name : List Char) (defect : Name.Defect)
  | malformedFormat (text : String)
  | malformedParameterName (text : String)
  /-- Something else was wanted than the given lexeme or the end of the input. -/
  | unexpected (wanted : Expectation) (found : Option String)
  | misplacedFormat
  | unnamedValue (text : String)
  | emptyGenerics
  | duplicateParameter (name : String)
  | trailing (lexeme : String)
  | tooDeep (limit : Nat)
  deriving DecidableEq, Repr

namespace Cause

def kind : Cause → Failure.Kind
  | strayCharacter _ | unclosedLiteral _ => .lex
  | malformedName _ _ | malformedFormat _ | malformedParameterName _ => .malformedName
  | unexpected _ _ | misplacedFormat | unnamedValue _ => .unexpectedToken
  | emptyGenerics => .emptyGenericArgs
  | duplicateParameter _ => .duplicateParameter
  | trailing _ => .trailingInput
  | tooDeep _ => .nestingTooDeep

def message : Cause → String
  | strayCharacter c => "unexpected character `" ++ c.toString ++ "`"
  | unclosedLiteral _ => "unterminated string literal"
  | malformedName name defect => defect.reason name
  | malformedFormat text => "`" ++ text ++ "` is not a valid format"
  | malformedParameterName text => "`" ++ text ++ "` is not a valid parameter name"
  | unexpected wanted (some lexeme) =>
      "expected " ++ wanted.describe ++ ", found `" ++ lexeme ++ "`"
  | unexpected wanted none =>
      "expected " ++ wanted.describe ++ ", found " ++ Token.Kind.eof.describe
  | misplacedFormat => "a source format is only allowed on `=>` mappings"
  | unnamedValue text => "expected `name = value`, found `" ++ text ++ "`"
  | emptyGenerics => "generic argument list is empty"
  | duplicateParameter name =>
      if name.isEmpty then "annotation value given more than once"
      else "annotation parameter `" ++ name ++ "` given more than once"
  | trailing lexeme => "unexpected `" ++ lexeme ++ "` after a complete mapping"
  | tooDeep limit => "generic arguments nested deeper than " ++ toString limit ++ " levels"

/-- How to mend it, where there is a usual way. -/
def help? : Cause → Option String
  | unclosedLiteral quote => some ("close the literal with " ++ quote.toString)
  | misplacedFormat => some "drop the `(format)` suffix from the annotated type"
  | unnamedValue _ => some "a value without a name is only allowed as the single parameter"
  | emptyGenerics => some "remove the `<>` or name at least one type argument"
  | _ => none

end Cause

structure Fault where
  cause : Cause
  span : Span
  deriving DecidableEq, Repr

structure Failure where
  kind : Failure.Kind
  message : String
  expression : String
  span : Span
  help? : Option String
  deriving DecidableEq, Repr

namespace Failure

def ofFault (expression : String) (f : Fault) : Failure :=
  ⟨f.cause.kind, f.cause.message, expression, f.span, f.cause.help?⟩

def withHelp (help : String) (f : Failure) : Failure := { f with help? := some help }

def text (f : Failure) : String :=
  f.kind.name ++ "[" ++ f.kind.code ++ "]: " ++ f.message ++ " (at offset " ++
    toString f.span.offset ++ " in `" ++ f.expression ++ "`)"

end Failure

end Typemap
