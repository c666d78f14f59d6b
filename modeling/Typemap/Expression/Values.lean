import Typemap.Expression.Grammar

/-!
# Values of an expression

The arguments of an expression, and the tokens that their values are read from,
in the order in which they are written.
-/

namespace Typemap

def Clause.arguments : Clause → List Argument
  | map _ => []
  | annotate _ arguments => arguments

def Expression.arguments (e : Expression) : List Argument := e.clause.arguments

namespace Grammar

variable {settings : Settings}

def ArgumentsTree.values : ArgumentsTree settings → List ValueTree
  | named list _ => list.parameters.map (·.value)
  | unnamed value _ => [value]

def Derivation.values : Derivation settings → List ValueTree
  | map _ _ _ _ _ => []
  | annotate _ _ _ _ _ _ => []
  | annotateWith _ _ _ _ arguments _ _ _ _ _ _ => arguments.values

end Grammar

end Typemap
