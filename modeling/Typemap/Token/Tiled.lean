import Typemap.Token.Tiling

/-!
# Tilings

What it means for tokens to tile a text: they stand in it side by side, with
only blanks between them. Two words do not touch, and no arrow is cut in two.
The relation does not say how the tokens are found. A tiling gets no further
than a stray character or a quote that nothing closes.
-/

namespace Typemap

/-- The inside of a literal between quotes `q`. -/
inductive Literal.IsBody (q : Char) : List Char → Prop where
  | nil : IsBody q []
  | plain {c : Char} {cs : List Char} (hquote : c ≠ q) (hshield : c ≠ '\\') (h : IsBody q cs) :
      IsBody q (c :: cs)
  | shielded {c : Char} {cs : List Char} (h : IsBody q cs) : IsBody q ('\\' :: c :: cs)

namespace Token

/-- The text of the tokens that are always written the same. -/
def Kind.sign? : Kind → Option (List Char)
  | langle => some ['<']
  | rangle => some ['>']
  | lparen => some ['(']
  | rparen => some [')']
  | comma => some [',']
  | arrow => some ['=', '>']
  | atSign => some ['@']
  | equals => some ['=']
  | word | literal | eof => none

/-- The texts that a token of each kind may have. -/
inductive IsLexeme : Kind → List Char → Prop where
  | sign {kind : Kind} {cs : List Char} (h : kind.sign? = some cs) : IsLexeme kind cs
  | word {cs : List Char} (hne : cs ≠ []) (h : cs.all isWordChar = true) : IsLexeme .word cs
  | literal {q : Char} {body : List Char} (hq : isQuote q = true) (h : Literal.IsBody q body) :
      IsLexeme .literal (q :: body ++ [q])

theorem isLexeme_word_iff {cs : List Char} :
    IsLexeme .word cs ↔ cs ≠ [] ∧ cs.all isWordChar = true := by
  constructor
  · intro h
    cases h with
    | sign hsign => simp [Kind.sign?] at hsign
    | word hne hall => exact ⟨hne, hall⟩
  · exact fun h => .word h.1 h.2

/-- What must not follow a token that stops at an offset: another word that
touches a word, or the rest of an arrow behind an equals sign. -/
def Apart (stop : Nat) (rest : List Char) (ts : List Token) : Kind → Prop
  | .word => ∀ t ∈ ts.head?, t.kind = .word → t.span.offset ≠ stop
  | .equals => rest.head? ≠ some '>'
  | _ => True

/-- The tokens, with their places, tile a text that begins at an offset. -/
inductive Tiled : Nat → List Char → List Token → Prop where
  | stop {offset : Nat} : Tiled offset [] [Token.eof offset]
  | blank {offset : Nat} {c : Char} {cs : List Char} {ts : List Token} (hc : isBlank c = true)
      (h : Tiled (offset + 1) cs ts) : Tiled offset (c :: cs) ts
  | token {offset : Nat} {kind : Kind} {lexeme rest : List Char} {ts : List Token}
      (hlexeme : IsLexeme kind lexeme) (hapart : Apart (offset + lexeme.length) rest ts kind)
      (h : Tiled (offset + lexeme.length) rest ts) :
      Tiled offset (lexeme ++ rest)
        (⟨kind, String.ofList lexeme, ⟨offset, lexeme.length⟩⟩ :: ts)

/-- A character that only a literal may hold. -/
structure IsStray (c : Char) : Prop where
  blank : isBlank c = false
  quote : isQuote c = false
  word : isWordChar c = false
  sign : c ∉ ['<', '>', '(', ')', ',', '@', '=']

/-- An opening quote and what follows it up to the end of the text, where no
unshielded quote of its kind stands. -/
structure IsUnclosed (q : Char) (cs : List Char) : Prop where
  quote : isQuote q = true
  unclosed : ∀ body rest, Literal.IsBody q body → cs ≠ body ++ q :: rest

/-- The fault of a text that begins at an offset with no token. -/
inductive IsFault (offset : Nat) : List Char → Fault → Prop where
  | stray {c : Char} {cs : List Char} (h : IsStray c) :
      IsFault offset (c :: cs) ⟨.strayCharacter c, ⟨offset, 1⟩⟩
  | unclosed {q : Char} {cs : List Char} (h : IsUnclosed q cs) :
      IsFault offset (q :: cs) ⟨.unclosedLiteral q, ⟨offset, (q :: cs).length⟩⟩

/-- A run of word characters that is not part of a longer one. -/
def IsRun (text : String) (span : Span) : Prop :=
  ∃ front run back : List Char, text.toList = front ++ (run ++ back) ∧
    span = ⟨front.length, run.length⟩ ∧ run ≠ [] ∧ run.all isWordChar = true ∧
      (∀ c ∈ front.getLast?, isWordChar c = false) ∧ ∀ c ∈ back.head?, isWordChar c = false

/-- A complete token of a text, which stands under its span. -/
structure StandsIn (text : String) (t : Token) : Prop where
  mem : ∃ ts, scan text = .ok ts ∧ t ∈ ts
  isLexeme : IsLexeme t.kind t.lexeme.toList
  under : t.span.under text = t.lexeme.toList

/-- The text in front of an offset has tokens. -/
def Readable (text : String) (offset : Nat) : Prop :=
  ∃ ts, scan (String.ofList (text.toList.take offset)) = .ok ts

end Token

end Typemap
