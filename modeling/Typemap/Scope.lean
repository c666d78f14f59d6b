import Typemap.Mapping

/-!
# Scopes

Where a mapping applies. A scope is carried beside a mapping and does not change
how the mapping is read.
-/

namespace Typemap

inductive Scope where
  | global
  | path (path : String)
  | pathMethod (path : String) (method : String)
  | parameter (name : String)
  deriving DecidableEq, Repr

instance : Inhabited Scope := ⟨.global⟩

def Scope.text : Scope → String
  | global => "global"
  | path p => "path " ++ p
  | pathMethod p method => "path " ++ p ++ " " ++ method
  | parameter name => "parameter " ++ name

structure ScopedMapping where
  scope : Scope
  mapping : Mapping
  deriving DecidableEq, Repr

end Typemap
