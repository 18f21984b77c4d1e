import Delegation.Callable
import Delegation.Value

/-!
# Registries

A registry holds the globals: a scope that is outermost in every chain of the machines that use it,
the types registered in it under their names, and the methods that every root object made from it
carries. A finished registry is plain data; its scope is sealed and holds constants only.
-/

namespace Delegation

/-- The globals: a scope, the types among them, and the methods every root object carries. -/
structure Registry where
  scope : ScopeId
  types : List (String × EntityId)
  protocol : List (String × Callable)
  deriving DecidableEq

instance : Inhabited Registry := ⟨⟨⟨0⟩, [], []⟩⟩

def Registry.type? (registry : Registry) (name : String) : Option EntityId :=
  registry.types.lookup name

end Delegation
