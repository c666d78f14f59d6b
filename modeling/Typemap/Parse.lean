import Typemap.Expression.Reader
import Typemap.Scope
import Typemap.Token.Tiling

/-!
# Parsing

From the text of an expression to its tree and to its mapping. Every failure is
reported with the expression it belongs to.
-/

namespace Typemap

def reported {α : Type} (expression : String) : Except Fault α → Except Failure α
  | .ok a => .ok a
  | .error fault => .error (.ofFault expression fault)

namespace Expression

def ofTokens (settings : Settings) (expression : String) (tokens : List Token) :
    Except Failure Expression :=
  reported expression (Reader.run settings expression.length .start tokens)

def parse (settings : Settings) (expression : String) : Except Failure Expression :=
  match Token.scan expression with
  | .error fault => .error (.ofFault expression fault)
  | .ok tokens => ofTokens settings expression tokens

end Expression

namespace Mapping

/-- The mapping with the package of the settings in place, if they have one. -/
def resolveWith (settings : Settings) (m : Mapping) : Mapping :=
  match settings.package? with
  | some package => m.resolve package
  | none => m

def parse (settings : Settings) (expression : String) : Except Failure Mapping :=
  (Expression.parse settings expression).map fun e => (ofExpression e).resolveWith settings

def parseAll (settings : Settings) (expressions : List String) : List (Except Failure Mapping) :=
  expressions.map (parse settings)

end Mapping

def ScopedMapping.parse (settings : Settings) (scope : Scope) (expression : String) :
    Except Failure ScopedMapping :=
  (Mapping.parse settings expression).map fun mapping => ⟨scope, mapping⟩

end Typemap
