import Typemap.Expression.Reader

/-!
# Reading by descent

The reader once more, as one rule for each part of the grammar. The rules share a
buffer of tokens and a cursor into it, and a rule calls the rules of its parts, so
that nested lists are nested calls. A number of rounds limits the loops and the
nesting. Nothing here says that a place lies in the buffer, or that some number of
rounds is enough.
-/

namespace Typemap

namespace Descent

/-- Where the rules stand, and all places that they have looked at. -/
structure Walk where
  cursor : Nat
  seen : List Nat
  deriving DecidableEq, Repr

/-- A rule comes to a result or to a fault. It has neither when it looks at a
place outside the buffer, or when its rounds are over. -/
abbrev Rule := ExceptT Fault (StateT Walk Option)

section Cursor

variable (buffer : List Token)

def look (place : Nat) : Rule Token := fun walk =>
  buffer[place]?.map fun t => (.ok t, { walk with seen := walk.seen ++ [place] })

def peek : Rule Token := do
  look buffer (← get).cursor

/-- The token behind the next one, or the last token of all. -/
def peekNext : Rule Token := do
  look buffer (min ((← get).cursor + 1) (buffer.length - 1))

def check (kind : Token.Kind) : Rule Bool := do
  return (← peek buffer).kind == kind

/-- Takes a token. The cursor stays in front of an end mark. -/
def advance : Rule Token := do
  let t ← peek buffer
  if ← check buffer .eof then
    return t
  else
    modify fun walk => { walk with cursor := walk.cursor + 1 }
    return t

/-- Takes a token of the kind if one is next. -/
def accept (kind : Token.Kind) : Rule Bool := do
  if ← check buffer kind then
    let _ ← advance buffer
    return true
  else
    return false

def unexpected {α : Type} (wanted : Expectation) : Rule α := do
  let t ← peek buffer
  throw ⟨.unexpected wanted t.lexeme?, t.span⟩

def consume (kind : Token.Kind) (wanted : Expectation) : Rule Token := do
  if ← check buffer kind then
    advance buffer
  else
    unexpected buffer wanted

/-- Items with commas between them, behind those that are done. -/
def separated {α : Type} (item : List α → Rule α) : (rounds : Nat) → List α → Rule (List α)
  | 0, _ => fun _ => none
  | rounds + 1, done => do
      let a ← item done
      if ← accept buffer .comma then
        separated item rounds (done ++ [a])
      else
        return done ++ [a]

end Cursor

section Grammar

variable (settings : Settings) (buffer : List Token)

def qualifiedName (wanted : Expectation) : Rule String := do
  let t ← consume buffer .word wanted
  match Name.defect? t.lexeme.toList with
  | some defect => throw ⟨.malformedName t.lexeme.toList defect, t.span⟩
  | none => return t.lexeme

def sourceType : Rule Source := do
  let name ← qualifiedName buffer .sourceType
  if ← check buffer .lparen then
    let opening ← advance buffer
    let t ← consume buffer .word .format
    if Name.isFormat t.lexeme.toList then
      let _ ← consume buffer .rparen .formatEnd
      return ⟨name, some ⟨t.lexeme, opening.span⟩⟩
    else
      throw ⟨.malformedFormat t.lexeme, t.span⟩
  else
    return ⟨name, none⟩

/-- A target type inside as many generic lists as `depth` says. -/
def targetType : (rounds depth : Nat) → Rule Target
  | 0, _ => fun _ => none
  | rounds + 1, depth => do
      let name ← qualifiedName buffer .targetType
      if ← check buffer .langle then
        let opening ← advance buffer
        if settings.maxDepth < depth + 1 then
          throw ⟨.tooDeep settings.maxDepth, opening.span⟩
        else if ← check buffer .rangle then
          let closing ← peek buffer
          throw ⟨.emptyGenerics, opening.span.through closing.span⟩
        else
          let arguments ← separated buffer (fun _ => targetType rounds (depth + 1)) rounds []
          let _ ← consume buffer .rangle .genericsEnd
          return ⟨name, .ofList arguments⟩
      else
        return ⟨name, .nil⟩

def value : Rule Value := do
  match (← peek buffer).kind with
  | .literal => return .quoted (← advance buffer).lexeme
  | .word => return .bare (← advance buffer).lexeme
  | _ => unexpected buffer .parameterValue

/-- Whether a word is next, and an equals sign behind it. -/
def namesParameter : Rule Bool := do
  if ← check buffer .word then
    return (← peekNext buffer).kind == .equals
  else
    return false

/-- Whether the value in front of the cursor is the only parameter. -/
def isAlone (first : Bool) : Rule Bool := do
  if first then check buffer .rparen else return false

def parameter (first : Bool) : Rule Argument := do
  if ← namesParameter buffer then
    let name ← advance buffer
    if Name.isPlain name.lexeme.toList then
      let _ ← advance buffer
      return ⟨some name.lexeme, ← value buffer, name.span⟩
    else
      throw ⟨.malformedParameterName name.lexeme, name.span⟩
  else
    let span := (← peek buffer).span
    let text ← value buffer
    if (← isAlone buffer first) && settings.allowUnnamed then
      return ⟨none, text, span⟩
    else
      throw ⟨.unnamedValue text.text, span⟩

/-- The next parameter, whose name must not be among those that are done. -/
def freshParameter (done : List Argument) : Rule Argument := do
  let a ← parameter settings buffer done.isEmpty
  if done.any fun b => b.name? == a.name? then
    throw ⟨.duplicateParameter (a.name?.getD ""), a.span⟩
  else
    return a

def annotatedClause (rounds : Nat) : Rule Clause := do
  let name ← qualifiedName buffer .annotationType
  if ← accept buffer .lparen then
    let arguments ← separated buffer (freshParameter settings buffer) rounds []
    let _ ← consume buffer .rparen .parametersEnd
    return .annotate name arguments
  else
    return .annotate name []

def mapping (rounds : Nat) : Rule Expression := do
  let source ← sourceType buffer
  match (← peek buffer).kind, source.format? with
  | .arrow, _ =>
      let _ ← advance buffer
      return ⟨source, .map (← targetType settings buffer rounds 0)⟩
  | .atSign, some format => throw ⟨.misplacedFormat, format.opening⟩
  | .atSign, none =>
      let _ ← advance buffer
      return ⟨source, ← annotatedClause settings buffer rounds⟩
  | _, _ => unexpected buffer .clause

/-- A complete expression, behind which the input has to end. -/
def whole (rounds : Nat) : Rule Expression := do
  let e ← mapping settings buffer rounds
  if ← check buffer .eof then
    return e
  else
    let t ← peek buffer
    throw ⟨.trailing t.lexeme, t.span⟩

end Grammar

/-- The tokens with an end mark at the offset `stop` behind the last one, unless
this is an end mark itself. -/
def closed (stop : Nat) (tokens : List Token) : List Token :=
  if tokens.getLast?.map (·.kind) = some .eof then tokens else tokens ++ [.eof stop]

/-- The place of the first end mark, or the number of tokens if there is none. -/
def firstMark (tokens : List Token) : Nat := tokens.findIdx (·.kind == .eof)

/-- What the rules come to from the first token on, and where they stand then. -/
def descend (settings : Settings) (rounds stop : Nat) (tokens : List Token) :
    Option (Except Fault Expression × Walk) :=
  whole settings (closed stop tokens) rounds ⟨0, []⟩

end Descent

end Typemap
