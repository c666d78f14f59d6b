import Typemap.Expression
import Typemap.Failure
import Typemap.Settings

/-!
# Reading an expression from tokens

The reader is a machine that takes one token at a time. Its state holds what has
been read; the generic lists that are still open form a stack of frames, so that
nesting needs no recursion. Where a token does not fit, `State.refuse` says what
would have. The run ends at the first end mark and looks no further.
-/

namespace Typemap

namespace Reader

/-- A generic list that is still open: the name before it and the arguments that
are complete. -/
structure Frame where
  name : String
  done : List Target
  deriving DecidableEq, Repr

namespace Frame

def push (t : Target) (f : Frame) : Frame := { f with done := f.done ++ [t] }

def close (f : Frame) : Target := ⟨f.name, .ofList f.done⟩

end Frame

/-- What has been read, named for the last token or for what is due. -/
inductive State where
  /-- Nothing yet; a source type is due. -/
  | start
  | sourceType (source : Source)
  /-- A format is due behind its parenthesis. -/
  | format (name : String) (opening : Span)
  | formatText (name : String) (opening : Span) (text : String)
  /-- A target type is due inside the open frames, of which the innermost is first. -/
  | target (source : Source) (frames : List Frame)
  /-- The name of a target type, whose generic list may follow. -/
  | targetName (source : Source) (frames : List Frame) (name : String)
  /-- The bracket that opened the innermost frame. -/
  | opened (source : Source) (frames : List Frame) (bracket : Span)
  /-- A complete target type inside at least one frame. -/
  | argument (source : Source) (inner : Frame) (outer : List Frame) (target : Target)
  /-- An annotation type is due. -/
  | annotating (source : Source)
  | annotated (source : Source) (name : String)
  /-- A parameter is due behind those that are done. -/
  | parameter (source : Source) (name : String) (done : List Argument)
  /-- A word or literal, which may be a value or, if a word, the name of one. -/
  | candidate (source : Source) (name : String) (done : List Argument) (token : Token)
  /-- The value of the parameter named by the token is due. -/
  | value (source : Source) (name : String) (done : List Argument) (token : Token)
  | parameters (source : Source) (name : String) (done : List Argument)
  /-- A complete expression. -/
  | complete (expression : Expression)
  deriving DecidableEq, Repr

namespace State

/-- The expression that ends here, if one does. -/
def result? : State → Option Expression
  | targetName source [] name => some ⟨source, .map ⟨name, .nil⟩⟩
  | annotated source name => some ⟨source, .annotate name []⟩
  | complete expression => some expression
  | _ => none

/-- The fault of a token that does not fit the state. A value that should have
had a name is blamed itself; anything else is the token's own fault. -/
def refuse (t : Token) : State → Fault
  | start => ⟨.unexpected .sourceType t.lexeme?, t.span⟩
  | sourceType _ => ⟨.unexpected .clause t.lexeme?, t.span⟩
  | format _ _ => ⟨.unexpected .format t.lexeme?, t.span⟩
  | formatText _ _ _ => ⟨.unexpected .formatEnd t.lexeme?, t.span⟩
  | target _ _ | opened _ _ _ => ⟨.unexpected .targetType t.lexeme?, t.span⟩
  | targetName _ (_ :: _) _ | argument _ _ _ _ => ⟨.unexpected .genericsEnd t.lexeme?, t.span⟩
  | annotating _ => ⟨.unexpected .annotationType t.lexeme?, t.span⟩
  | parameter _ _ _ | value _ _ _ _ => ⟨.unexpected .parameterValue t.lexeme?, t.span⟩
  | candidate _ _ _ token => ⟨.unnamedValue token.lexeme, token.span⟩
  | parameters _ _ _ => ⟨.unexpected .parametersEnd t.lexeme?, t.span⟩
  | targetName _ [] _ | annotated _ _ | complete _ => ⟨.trailing t.lexeme, t.span⟩

end State

/-- The lexeme of a word that must be a qualified name. -/
def qualified (t : Token) : Except Fault String :=
  match Name.defect? t.lexeme.toList with
  | some defect => .error ⟨.malformedName t.lexeme.toList defect, t.span⟩
  | none => .ok t.lexeme

def valueOf (t : Token) : Value :=
  if t.kind = .literal then .quoted t.lexeme else .bare t.lexeme

def closeTarget (source : Source) (t : Target) : List Frame → State
  | [] => .complete ⟨source, .map t⟩
  | inner :: outer => .argument source inner outer t

/-- The step behind a complete target type inside a frame. -/
def afterArgument (t : Token) (source : Source) (inner : Frame) (outer : List Frame)
    (target : Target) (refused : Fault) : Except Fault State :=
  match t.kind with
  | .comma => .ok (.target source (inner.push target :: outer))
  | .rangle => .ok (closeTarget source (inner.push target).close outer)
  | _ => .error refused

def step (settings : Settings) (state : State) (t : Token) : Except Fault State :=
  match state with
  | .start =>
      match t.kind with
      | .word => (qualified t).map fun name => .sourceType ⟨name, none⟩
      | _ => .error (state.refuse t)
  | .sourceType source =>
      match t.kind, source.format? with
      | .lparen, none => .ok (.format source.name t.span)
      | .arrow, _ => .ok (.target source [])
      | .atSign, none => .ok (.annotating source)
      | .atSign, some format => .error ⟨.misplacedFormat, format.opening⟩
      | _, _ => .error (state.refuse t)
  | .format name opening =>
      match t.kind with
      | .word =>
          if Name.isFormat t.lexeme.toList then .ok (.formatText name opening t.lexeme)
          else .error ⟨.malformedFormat t.lexeme, t.span⟩
      | _ => .error (state.refuse t)
  | .formatText name opening text =>
      match t.kind with
      | .rparen => .ok (.sourceType ⟨name, some ⟨text, opening⟩⟩)
      | _ => .error (state.refuse t)
  | .target source frames =>
      match t.kind with
      | .word => (qualified t).map fun name => .targetName source frames name
      | _ => .error (state.refuse t)
  | .targetName source frames name =>
      match t.kind, frames with
      | .langle, _ =>
          if frames.length < settings.maxDepth then
            .ok (.opened source (⟨name, []⟩ :: frames) t.span)
          else .error ⟨.tooDeep settings.maxDepth, t.span⟩
      | _, [] => .error (state.refuse t)
      | _, inner :: outer => afterArgument t source inner outer ⟨name, .nil⟩ (state.refuse t)
  | .opened source frames bracket =>
      match t.kind with
      | .word => (qualified t).map fun name => .targetName source frames name
      | .rangle => .error ⟨.emptyGenerics, bracket.through t.span⟩
      | _ => .error (state.refuse t)
  | .argument source inner outer target =>
      afterArgument t source inner outer target (state.refuse t)
  | .annotating source =>
      match t.kind with
      | .word => (qualified t).map fun name => .annotated source name
      | _ => .error (state.refuse t)
  | .annotated source name =>
      match t.kind with
      | .lparen => .ok (.parameter source name [])
      | _ => .error (state.refuse t)
  | .parameter source name done =>
      match t.kind with
      | .word | .literal => .ok (.candidate source name done t)
      | _ => .error (state.refuse t)
  | .candidate source name done token =>
      match t.kind, token.kind with
      | .equals, .word =>
          if Name.isPlain token.lexeme.toList then .ok (.value source name done token)
          else .error ⟨.malformedParameterName token.lexeme, token.span⟩
      | .rparen, _ =>
          if done.isEmpty && settings.allowUnnamed then
            .ok (.complete ⟨source, .annotate name [⟨none, valueOf token, token.span⟩]⟩)
          else .error (state.refuse t)
      | _, _ => .error (state.refuse t)
  | .value source name done token =>
      match t.kind with
      | .word | .literal =>
          if done.any fun a => a.name? == some token.lexeme then
            .error ⟨.duplicateParameter token.lexeme, token.span⟩
          else .ok (.parameters source name
            (done ++ [⟨some token.lexeme, valueOf t, token.span⟩]))
      | _ => .error (state.refuse t)
  | .parameters source name done =>
      match t.kind with
      | .comma => .ok (.parameter source name done)
      | .rparen => .ok (.complete ⟨source, .annotate name done⟩)
      | _ => .error (state.refuse t)
  | .complete _ => .error (state.refuse t)

def finish (state : State) (mark : Token) : Except Fault Expression :=
  match state.result? with
  | some expression => .ok expression
  | none => .error (state.refuse mark)

/-- Takes tokens up to the first end mark. Without one the input ends behind the
last token, at the offset `stop`. -/
def run (settings : Settings) (stop : Nat) (state : State) :
    List Token → Except Fault Expression
  | [] => finish state (.eof stop)
  | t :: ts =>
      if t.kind = .eof then finish state t
      else match step settings state t with
        | .error fault => .error fault
        | .ok state => run settings stop state ts

end Reader

end Typemap
