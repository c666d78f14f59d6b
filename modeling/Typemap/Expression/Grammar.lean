import Typemap.Expression.Reader

/-!
# The grammar of expressions

Derivations of the token lists that are expressions, rule by rule. A derivation
is a tree with the tokens at its leaves: `tokens` lists them from left to right,
and the other function of each rule is the tree of the expression. A mapping
derives

* `source => target`, where the source may have a format, or
* `source @ name` with an optional list of parameters in parentheses.

Qualified names, formats and parameter names obey the rules of `Name`; generic
lists nest no deeper than the settings allow, parameter names differ, and a
value without a name stands alone where the settings allow one.
-/

namespace Typemap

namespace Grammar

/-- A word that is a qualified name. -/
structure IsName (t : Token) : Prop where
  isWord : t.kind = .word
  isQualified : Name.IsQualified t.lexeme.toList

inductive SourceTree where
  | plain (name : Token) (hname : IsName name)
  | formatted (name opening format closing : Token) (hname : IsName name)
      (hopening : opening.kind = .lparen) (hword : format.kind = .word)
      (hformat : Name.isFormat format.lexeme.toList = true) (hclosing : closing.kind = .rparen)

namespace SourceTree

def tokens : SourceTree → List Token
  | plain name _ => [name]
  | formatted name opening format closing _ _ _ _ _ => [name, opening, format, closing]

def source : SourceTree → Source
  | plain name _ => ⟨name.lexeme, none⟩
  | formatted name opening format _ _ _ _ _ _ =>
      ⟨name.lexeme, some ⟨format.lexeme, opening.span⟩⟩

end SourceTree

mutual

inductive TargetTree where
  | plain (name : Token) (hname : IsName name)
  | generic (name opening : Token) (list : GenericsTree) (closing : Token) (hname : IsName name)
      (hopening : opening.kind = .langle) (hclosing : closing.kind = .rangle)

/-- At least one generic argument, with commas between neighbours. -/
inductive GenericsTree where
  | last (target : TargetTree)
  | more (target : TargetTree) (comma : Token) (rest : GenericsTree)
      (hcomma : comma.kind = .comma)

end

mutual

def TargetTree.tokens : TargetTree → List Token
  | .plain name _ => [name]
  | .generic name opening list closing _ _ _ => name :: opening :: list.tokens ++ [closing]

def GenericsTree.tokens : GenericsTree → List Token
  | .last target => target.tokens
  | .more target comma rest _ => target.tokens ++ comma :: rest.tokens

end

mutual

def TargetTree.target : TargetTree → Target
  | .plain name _ => ⟨name.lexeme, .nil⟩
  | .generic name _ list _ _ _ _ => ⟨name.lexeme, list.generics⟩

def GenericsTree.generics : GenericsTree → Generics
  | .last target => .cons target.target.name target.target.generics .nil
  | .more target _ rest _ => .cons target.target.name target.target.generics rest.generics

end

inductive ValueTree where
  | bare (token : Token) (hword : token.kind = .word)
  | quoted (token : Token) (hliteral : token.kind = .literal)

namespace ValueTree

def token : ValueTree → Token
  | bare token _ => token
  | quoted token _ => token

def value : ValueTree → Value
  | bare token _ => .bare token.lexeme
  | quoted token _ => .quoted token.lexeme

end ValueTree

structure NamedTree where
  name : Token
  equals : Token
  value : ValueTree
  isWord : name.kind = .word
  isPlain : Name.isPlain name.lexeme.toList = true
  isEquals : equals.kind = .equals

namespace NamedTree

def tokens (d : NamedTree) : List Token := [d.name, d.equals, d.value.token]

def argument (d : NamedTree) : Argument := ⟨some d.name.lexeme, d.value.value, d.name.span⟩

end NamedTree

/-- At least one named parameter, with commas between neighbours. -/
inductive ParametersTree where
  | last (parameter : NamedTree)
  | more (parameter : NamedTree) (comma : Token) (rest : ParametersTree)
      (hcomma : comma.kind = .comma)

namespace ParametersTree

def tokens : ParametersTree → List Token
  | last parameter => parameter.tokens
  | more parameter comma rest _ => parameter.tokens ++ comma :: rest.tokens

def arguments : ParametersTree → List Argument
  | last parameter => [parameter.argument]
  | more parameter _ rest _ => parameter.argument :: rest.arguments

def parameters : ParametersTree → List NamedTree
  | last parameter => [parameter]
  | more parameter _ rest _ => parameter :: rest.parameters

theorem arguments_eq_map (d : ParametersTree) : d.arguments = d.parameters.map (·.argument) := by
  induction d with
  | last parameter => rfl
  | more parameter comma rest hcomma ih => rw [arguments, parameters, ih, List.map_cons]

end ParametersTree

/-- What may stand between the parentheses of an annotation. -/
inductive ArgumentsTree (settings : Settings) where
  | named (list : ParametersTree) (hdistinct : (list.arguments.map (·.name?)).Nodup)
  | unnamed (value : ValueTree) (hallowed : settings.allowUnnamed = true)

namespace ArgumentsTree

variable {settings : Settings}

def tokens : ArgumentsTree settings → List Token
  | named list _ => list.tokens
  | unnamed value _ => [value.token]

def arguments : ArgumentsTree settings → List Argument
  | named list _ => list.arguments
  | unnamed value _ => [⟨none, value.value, value.token.span⟩]

end ArgumentsTree

inductive Derivation (settings : Settings) where
  | map (source : SourceTree) (arrow : Token) (target : TargetTree) (harrow : arrow.kind = .arrow)
      (hdepth : target.target.generics.depth ≤ settings.maxDepth)
  | annotate (source : SourceTree) (mark name : Token) (hplain : source.source.format? = none)
      (hmark : mark.kind = .atSign) (hname : IsName name)
  | annotateWith (source : SourceTree) (mark name opening : Token)
      (arguments : ArgumentsTree settings) (closing : Token)
      (hplain : source.source.format? = none) (hmark : mark.kind = .atSign) (hname : IsName name)
      (hopening : opening.kind = .lparen) (hclosing : closing.kind = .rparen)

namespace Derivation

variable {settings : Settings}

def tokens : Derivation settings → List Token
  | map source arrow target _ _ => source.tokens ++ arrow :: target.tokens
  | annotate source mark name _ _ _ => source.tokens ++ [mark, name]
  | annotateWith source mark name opening arguments closing _ _ _ _ _ =>
      source.tokens ++ mark :: name :: opening :: arguments.tokens ++ [closing]

def expression : Derivation settings → Expression
  | map source _ target _ _ => ⟨source.source, .map target.target⟩
  | annotate source _ name _ _ _ => ⟨source.source, .annotate name.lexeme []⟩
  | annotateWith source _ name _ arguments _ _ _ _ _ _ =>
      ⟨source.source, .annotate name.lexeme arguments.arguments⟩

end Derivation

end Grammar

namespace Reader

/-- Tokens that do not belong to an expression they follow: no generic list
behind a plain target, no parameters behind a plain annotation. -/
def Ends (e : Expression) (t : Token) : Prop :=
  (∀ name, e.clause = .map ⟨name, .nil⟩ → t.kind ≠ .langle) ∧
    ∀ name, e.clause = .annotate name [] → t.kind ≠ .lparen

end Reader

end Typemap
