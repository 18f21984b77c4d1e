import Delegation.Value

/-!
# Entities

An entity owns three tables. Its fields are its own. Its hooks and members stand on those of the
entity it is built on, its super-entity, so inheriting a member is looking a name up. An entity may
have a type, which is an entity as well.

Building an entity links its super-entity to it, once: the link decides who receives messages for
the whole chain of entities, and it is never set again, even if the derived entity is released.
-/

namespace Delegation

/-- An object with delegated members. -/
structure Entity where
  name : String
  type : Option EntityId
  /-- The entity this one is built on. -/
  super : Option EntityId
  fields : ScopeId
  hooks : ScopeId
  members : ScopeId
  /-- The entity built on this one. -/
  derived : Option EntityId
  deriving DecidableEq

instance : Inhabited Entity := ⟨⟨"", none, none, ⟨0⟩, ⟨0⟩, ⟨0⟩, none⟩⟩

end Delegation
