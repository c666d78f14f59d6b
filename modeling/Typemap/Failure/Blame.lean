import Typemap.Parse
import Typemap.Token.Tiled

/-!
# What failures blame

The part of an expression that a failure of each kind may point at, in terms of
the characters under its span and of the tokens of the expression. Names are
judged by the rule of the place where they stand, and that place shows in the
tokens around them.
-/

namespace Typemap

/-- The rules that a name may have to obey. -/
inductive Name.Rule where
  | qualified
  | format
  | parameter
  deriving DecidableEq, Repr

def Name.Rule.Accepts : Name.Rule → List Char → Prop
  | qualified, name => IsQualified name
  | format, name => isFormat name = true
  | parameter, name => isPlain name = true

namespace Token

/-- The rule for a word between the tokens before it and those behind it. -/
inductive Governs : Name.Rule → List Token → List Token → Prop where
  | source {after : List Token} : Governs .qualified [] after
  | format {name opening : Token} {after : List Token} (hname : name.kind = .word)
      (hopening : opening.kind = .lparen) : Governs .format [name, opening] after
  | target {before after : List Token} {arrow : Token} (harrow : arrow.kind = .arrow) :
      Governs .qualified (before ++ [arrow]) after
  | generic {before after : List Token} {sign : Token} (harrow : ∃ t ∈ before, t.kind = .arrow)
      (hsign : sign.kind = .langle ∨ sign.kind = .comma) :
      Governs .qualified (before ++ [sign]) after
  | annotated {before after : List Token} {mark : Token} (hmark : mark.kind = .atSign) :
      Governs .qualified (before ++ [mark]) after
  | parameter {before after : List Token} {sign equals : Token}
      (hmark : ∃ t ∈ before, t.kind = .atSign) (hsign : sign.kind = .lparen ∨ sign.kind = .comma)
      (hequals : equals.kind = .equals) :
      Governs .parameter (before ++ [sign]) (equals :: after)

end Token

namespace Failure

open Token

/-- What a failure of each kind may point at in a text. -/
inductive Blames (text : String) : Kind → Span → Prop where
  | stray {span : Span} {c : Char} (hread : Readable text span.offset) (hstray : IsStray c)
      (hlength : span.length = 1) (hunder : span.under text = [c]) : Blames text .lex span
  | unclosed {span : Span} {q : Char} {rest : List Char} (hread : Readable text span.offset)
      (hunclosed : IsUnclosed q rest) (hunder : span.under text = q :: rest)
      (hstop : span.stop = text.length) : Blames text .lex span
  | malformedName {rule : Name.Rule} {before after : List Token} {t : Token}
      (hscan : scan text = .ok (before ++ t :: after)) (hword : t.kind = .word)
      (hrun : IsRun text t.span) (hgoverns : Governs rule before after)
      (hrejects : ¬ rule.Accepts (t.span.under text)) : Blames text .malformedName t.span
  | duplicateParameter {before between after : List Token} {earlier t : Token}
      (hscan : scan text = .ok (before ++ earlier :: between ++ t :: after))
      (hwords : earlier.kind = .word ∧ t.kind = .word)
      (hearlier : Governs .parameter before (between ++ t :: after))
      (hgoverns : Governs .parameter (before ++ earlier :: between) after)
      (hunder : t.span.under text = earlier.lexeme.toList) :
      Blames text .duplicateParameter t.span
  | trailingInput {t : Token} (ht : StandsIn text t) : Blames text .trailingInput t.span
  | nestingTooDeep {t : Token} (ht : StandsIn text t) (hunder : t.span.under text = ['<']) :
      Blames text .nestingTooDeep t.span
  | emptyGenericArgs {opening closing : Token} {blanks : List Char}
      (hopening : StandsIn text opening) (hclosing : StandsIn text closing)
      (horder : opening.span.offset ≤ closing.span.stop)
      (hblanks : ∀ c ∈ blanks, isBlank c = true)
      (hunder : (opening.span.through closing.span).under text = '<' :: blanks ++ ['>']) :
      Blames text .emptyGenericArgs (opening.span.through closing.span)
  | unexpectedToken {t : Token} (ht : StandsIn text t) : Blames text .unexpectedToken t.span
  | unexpectedEnd : Blames text .unexpectedToken (.point text.length)

end Failure

end Typemap
