import Typemap.Failure
import Typemap.Literal

/-!
# Cutting an expression into tokens

`cut` takes the longest piece off the front of a text, and `tiles` repeats this
to the end. A piece that is no token becomes a fault, and cutting goes on behind
it. A `Scan` walks over the tiles and stops at each fault; it can be resumed
there, and what it has gathered stays.
-/

namespace Typemap

namespace Token

inductive Shape where
  | blank
  | token (kind : Kind)
  | stray (c : Char)
  | unclosed (quote : Char)
  deriving DecidableEq, Repr

/-- A text cut in two behind its first piece. -/
structure Cut where
  shape : Shape
  piece : List Char
  rest : List Char
  deriving DecidableEq, Repr

def mark? : Char → Option Kind
  | '<' => some .langle
  | '>' => some .rangle
  | '(' => some .lparen
  | ')' => some .rparen
  | ',' => some .comma
  | '@' => some .atSign
  | _ => none

/-- Cuts `c :: cs` behind its first piece, which is as long as possible. -/
def cut (c : Char) (cs : List Char) : Cut :=
  if isBlank c then ⟨.blank, [c], cs⟩
  else match mark? c with
    | some kind => ⟨.token kind, [c], cs⟩
    | none =>
        if c = '=' then
          match cs with
          | '>' :: rest => ⟨.token .arrow, [c, '>'], rest⟩
          | _ => ⟨.token .equals, [c], cs⟩
        else if isQuote c then
          match Literal.close c cs with
          | some (body, rest) => ⟨.token .literal, c :: body, rest⟩
          | none => ⟨.unclosed c, c :: cs, []⟩
        else if isWordChar c then
          ⟨.token .word, c :: cs.takeWhile isWordChar, cs.dropWhile isWordChar⟩
        else ⟨.stray c, [c], cs⟩

@[simp] theorem piece_append_rest_cut (c : Char) (cs : List Char) :
    (cut c cs).piece ++ (cut c cs).rest = c :: cs := by
  unfold cut
  split
  · rfl
  · split
    · rfl
    · split
      · split <;> rfl
      · split
        · split
          · rename_i body rest h
            simpa using Literal.append_of_close h
          · simp
        · split
          · simp
          · rfl

theorem piece_cut_ne_nil (c : Char) (cs : List Char) : (cut c cs).piece ≠ [] := by
  unfold cut
  repeat' split
  all_goals simp

theorem length_rest_cut_lt (c : Char) (cs : List Char) :
    (cut c cs).rest.length < (c :: cs).length := by
  have h := congrArg List.length (piece_append_rest_cut c cs)
  have hpos := List.length_pos_iff.2 (piece_cut_ne_nil c cs)
  rw [List.length_append] at h
  omega

inductive Tile where
  | token (t : Token)
  | fault (f : Fault)
  deriving DecidableEq, Repr

/-- The tile that a cut at `offset` makes. Blanks make none. -/
def Cut.tile? (offset : Nat) (k : Cut) : Option Tile :=
  let span : Span := ⟨offset, k.piece.length⟩
  match k.shape with
  | .blank => none
  | .token kind => some (.token ⟨kind, String.ofList k.piece, span⟩)
  | .stray c => some (.fault ⟨.strayCharacter c, span⟩)
  | .unclosed quote => some (.fault ⟨.unclosedLiteral quote, span⟩)

def tiles (offset : Nat) : List Char → List Tile
  | [] => []
  | c :: cs =>
      ((cut c cs).tile? offset).toList ++
        tiles (offset + (cut c cs).piece.length) (cut c cs).rest
  termination_by cs => cs.length
  decreasing_by exact length_rest_cut_lt c cs

@[simp] theorem tiles_nil (offset : Nat) : tiles offset [] = [] := by
  rw [tiles]

/-- The tokens before the first fault, and that fault with what lies behind it. -/
def gather : List Tile → List Token × Option (Fault × List Tile)
  | [] => ([], none)
  | .token t :: tiles => ((t :: (gather tiles).1), (gather tiles).2)
  | .fault f :: tiles => ([], some (f, tiles))

/-- A walk over a text. It keeps the tiles ahead, the length of the text and the
tokens gathered so far. -/
structure Scan where
  ahead : List Tile
  size : Nat
  tokens : List Token
  deriving DecidableEq, Repr

namespace Scan

def start (text : String) : Scan := ⟨tiles 0 text.toList, text.length, []⟩

/-- Walks on to the next fault, or to the end, where it adds the end mark. -/
def resume (s : Scan) : Option Fault × Scan :=
  match gather s.ahead with
  | (found, some (fault, ahead)) => (some fault, { s with ahead, tokens := s.tokens ++ found })
  | (found, none) =>
      (none, { s with ahead := [], tokens := s.tokens ++ found ++ [Token.eof s.size] })

end Scan

/-- The tokens of an expression with the end mark, or its first lexical fault. -/
def scan (expression : String) : Except Fault (List Token) :=
  match (Scan.start expression).resume with
  | (some fault, _) => .error fault
  | (none, walk) => .ok walk.tokens

end Token

end Typemap
