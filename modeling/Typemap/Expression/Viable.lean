import Typemap.Failure.Blame

/-!
# Viable prefixes

Tokens that begin an expression: some further tokens complete them. A reader
that fails as early as it can has read nothing else. One kind of list is read
and is not viable: it ends where the value of a parameter is due whose name
occurs before.
-/

namespace Typemap

/-- Further tokens complete an expression, for which the settings allow. -/
def Viable (settings : Settings) (text : String) (read : List Token) : Prop :=
  ∃ more e, Expression.ofTokens settings text (read ++ more) = .ok e

namespace Token

/-- The tokens that begin in front of an offset. -/
def before (offset : Nat) (ts : List Token) : List Token :=
  ts.filter fun t => t.span.offset < offset

/-- The value of a parameter is due, and an earlier parameter has its name. -/
inductive RepeatsName : List Token → Prop where
  | mk {before between : List Token} {earlier name equals : Token}
      (hwords : earlier.kind = .word ∧ name.kind = .word) (hname : name.lexeme = earlier.lexeme)
      (hearlier : Governs .parameter before (between ++ [name, equals]))
      (hrepeated : Governs .parameter (before ++ earlier :: between) [equals]) :
      RepeatsName (before ++ earlier :: between ++ [name, equals])

end Token

end Typemap
