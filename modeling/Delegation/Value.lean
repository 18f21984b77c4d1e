/-!
# Values

What a cell holds and a call takes and gives. Entities and bindings are held by reference: a value
names them, copying it never copies an object, and two references are equal exactly when they name
the same one. Integers are 64 bits wide.
-/

namespace Delegation

/-- Names a scope. -/
structure ScopeId where
  index : Nat
  deriving DecidableEq, Repr

/-- Names an entity. -/
structure EntityId where
  index : Nat
  deriving DecidableEq, Repr

/-- Names a binding. -/
structure BindingId where
  index : Nat
  deriving DecidableEq, Repr

/-- A value of a program. Equality on entities and bindings is identity. -/
inductive Value where
  | void
  | bool (b : Bool)
  | int (n : Int64)
  | str (s : String)
  | entity (e : EntityId)
  | binding (b : BindingId)
  deriving DecidableEq

namespace Value

instance : Inhabited Value := ⟨.void⟩

def typeName : Value → String
  | .void => "void"
  | .bool _ => "bool"
  | .int _ => "int"
  | .str _ => "str"
  | .entity _ => "entity"
  | .binding _ => "binding"

end Value

/-- The scopes that a name is looked for in, innermost first. -/
abbrev Chain := List ScopeId

end Delegation
