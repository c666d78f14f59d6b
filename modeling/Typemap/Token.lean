import Typemap.Span

/-!
# Tokens

A token is a piece of an expression with its kind and its place. The last token
of an expression marks the end of the input; it is empty.
-/

namespace Typemap

namespace Token

inductive Kind where
  | word
  | langle
  | rangle
  | lparen
  | rparen
  | comma
  | arrow
  | atSign
  | equals
  | literal
  | eof
  deriving DecidableEq, Repr, Inhabited

/-- How messages call a token of this kind. -/
def Kind.describe : Kind → String
  | word => "a name"
  | langle => "`<`"
  | rangle => "`>`"
  | lparen => "`(`"
  | rparen => "`)`"
  | comma => "`,`"
  | arrow => "`=>`"
  | atSign => "`@`"
  | equals => "`=`"
  | literal => "a quoted string"
  | eof => "end of input"

end Token

structure Token where
  kind : Token.Kind
  lexeme : String
  span : Span
  deriving DecidableEq, Repr, Inhabited

namespace Token

/-- The mark of the end of an input of `offset` characters. -/
def eof (offset : Nat) : Token := ⟨.eof, "", .point offset⟩

@[simp] theorem kind_eof (offset : Nat) : (eof offset).kind = .eof := rfl

/-- The lexeme, which the end of the input lacks. -/
def lexeme? (t : Token) : Option String := if t.kind = .eof then none else some t.lexeme

def text (t : Token) : String := t.lexeme?.getD Kind.eof.describe

/-- The same token at another place. -/
def moved (place : Nat → Nat) (t : Token) : Token := { t with span := t.span.moved place }

end Token

end Typemap
