import Delegation.Ownership

/-!
# What one step does to the heap

Everything that programs do to the heap comes down to six steps: a scope, a binding or an entity is
added, a cell is declared, the value of a mutable cell is replaced, or a scope is closed. A step
only takes references to what is in the heap already, and an entity is only built on one that
carries no other. What holds of every heap that programs make is proved step by step from this list.

The first part says through the look-ups what the changes to a heap do.
-/

namespace Delegation

namespace Heap

/-! ## Look-ups after a change -/

theorem scope_setScope {heap : Heap} {s : ScopeId} (old : s.index < heap.scopes.size)
    (scope : Scope) (t : ScopeId) :
    (heap.setScope s scope).scope t = if t = s then scope else heap.scope t := by
  obtain ⟨i⟩ := s
  obtain ⟨j⟩ := t
  simp only [setScope, Heap.scope, Array.getD_eq_getD_getElem?, Array.getElem?_setIfInBounds,
    ScopeId.mk.injEq] at *
  by_cases same : i = j
  · subst same
    simp [old]
  · simp [same, Ne.symm same]

theorem scope_setScope_of_ne (heap : Heap) {s t : ScopeId} (scope : Scope) (other : t ≠ s) :
    (heap.setScope s scope).scope t = heap.scope t := by
  have apart : s.index ≠ t.index := fun same => other (by cases s; cases t; simp_all)
  simp [setScope, Heap.scope, Array.getD_eq_getD_getElem?, apart]

theorem scope_modifyScope {heap : Heap} {s : ScopeId} (old : s.index < heap.scopes.size)
    (f : Scope → Scope) (t : ScopeId) :
    (heap.modifyScope s f).scope t = if t = s then f (heap.scope s) else heap.scope t := by
  by_cases same : t = s
  · subst same
    simp only [modifyScope, Heap.scope, Array.getD_eq_getD_getElem?, Array.getElem?_modify]
    simp [old]
  · rw [if_neg same, scope_modifyScope_of_ne heap f same]

@[simp] theorem binding_addBinding (heap : Heap) (binding : Binding) :
    (heap.addBinding binding).2.binding (heap.addBinding binding).1 = binding := by
  simp [addBinding, Heap.binding]

theorem binding_addBinding_of_lt {heap : Heap} (binding : Binding) {b : BindingId}
    (old : b.index < heap.bindings.size) :
    (heap.addBinding binding).2.binding b = heap.binding b := by
  simp [addBinding, Heap.binding, Array.getD_eq_getD_getElem?, Array.getElem?_push, old,
    Nat.ne_of_lt old]

/-- The record of an entity about to be added; its tables come right behind the scopes there are. -/
def freshEntity (heap : Heap) (super type : Option EntityId) (name : String) : Entity :=
  ⟨name, type, super, ⟨heap.scopes.size + 2⟩, ⟨heap.scopes.size⟩, ⟨heap.scopes.size + 1⟩, none⟩

theorem fst_addEntity (heap : Heap) (super type : Option EntityId) (name : String) :
    (heap.addEntity super type name).1 = ⟨heap.entities.size⟩ := by
  cases super <;> rfl

theorem bindings_addEntity (heap : Heap) (super type : Option EntityId) (name : String) :
    (heap.addEntity super type name).2.bindings = heap.bindings := by
  cases super <;> rfl

theorem size_entities_addEntity (heap : Heap) (super type : Option EntityId) (name : String) :
    (heap.addEntity super type name).2.entities.size = heap.entities.size + 1 := by
  cases super <;> simp [addEntity, addScope, linkDerived]

theorem size_scopes_addEntity (heap : Heap) (super type : Option EntityId) (name : String) :
    (heap.addEntity super type name).2.scopes.size = heap.scopes.size + 3 := by
  cases super <;> simp [addEntity, addScope, linkDerived]

theorem entities_addEntity (heap : Heap) (super type : Option EntityId) (name : String) :
    (heap.addEntity super type name).2.entities =
      super.elim (heap.entities.push (heap.freshEntity super type name)) fun base =>
        (heap.entities.push (heap.freshEntity super type name)).modify base.index fun record =>
          { record with derived := some ⟨heap.entities.size⟩ } := by
  cases super <;> simp [addEntity, addScope, linkDerived, freshEntity]

theorem entity_addEntity {heap : Heap} {super : Option EntityId}
    (old : ∀ base ∈ super, base.index < heap.entities.size) (type : Option EntityId)
    (name : String) (e : EntityId) :
    (heap.addEntity super type name).2.entity e =
      if e.index = heap.entities.size then heap.freshEntity super type name
      else if super = some e then { heap.entity e with derived := some ⟨heap.entities.size⟩ }
      else heap.entity e := by
  obtain ⟨i⟩ := e
  simp only [Heap.entity, Array.getD_eq_getD_getElem?, entities_addEntity]
  cases super with
  | none =>
    simp only [Option.elim_none, Array.getElem?_push, reduceCtorEq, if_false]
    split <;> rfl
  | some base =>
    obtain ⟨b⟩ := base
    have below : b < heap.entities.size := old ⟨b⟩ rfl
    simp only [Option.elim_some, Array.getElem?_modify, Array.getElem?_push, Option.some.injEq,
      EntityId.mk.injEq]
    by_cases new : i = heap.entities.size
    · simp [new, Nat.ne_of_lt below]
    · by_cases same : b = i
      · subst same
        simp [new, below]
      · simp [new, same]

theorem scope_addEntity_of_lt {heap : Heap} (super type : Option EntityId) (name : String)
    {s : ScopeId} (old : s.index < heap.scopes.size) :
    (heap.addEntity super type name).2.scope s = heap.scope s := by
  have apart : s.index ≠ heap.scopes.size ∧ s.index ≠ heap.scopes.size + 1 ∧
      s.index ≠ heap.scopes.size + 1 + 1 := by omega
  cases super <;>
    simp [addEntity, addScope, linkDerived, Heap.scope, Array.getD_eq_getD_getElem?,
      Array.getElem?_push, apart]

theorem path_addScope {heap : Heap} (scope : Scope) {s : ScopeId}
    (old : s.index < heap.scopes.size) : (heap.addScope scope).2.path s = heap.path s := by
  rw [path, path, scope_addScope_of_lt scope old]

/-- A new entity brings three scopes; that of its members stands on the members of its
super-entity, whose ancestors the scope for its hooks has not changed. -/
theorem scopes_addEntity {heap : Heap} {super : Option EntityId}
    (old : ∀ base ∈ super, (heap.entity base).members.index < heap.scopes.size)
    (type : Option EntityId) (name : String) :
    (heap.addEntity super type name).2.scopes =
      ((heap.scopes.push (heap.emptyScope (super.map fun b => (heap.entity b).hooks) .hook)).push
        (heap.emptyScope (super.map fun b => (heap.entity b).members) .identifier)).push
          (.root .identifier) := by
  cases super with
  | none => rfl
  | some base =>
    have kept (scope : Scope) := path_addScope scope (old base rfl)
    have members (scope : Scope) : (heap.addScope scope).2.emptyScope
        (some (heap.entity base).members) .identifier =
        heap.emptyScope (some (heap.entity base).members) .identifier := by
      rw [emptyScope, emptyScope, Option.map_some, Option.map_some, kept]
    exact congrArg (fun scope => Array.push (Array.push _ scope) _) (members _)

/-- The scopes behind a new entity: those there were, and its three tables. -/
theorem scope_addEntity {heap : Heap} {super : Option EntityId}
    (old : ∀ base ∈ super, (heap.entity base).members.index < heap.scopes.size)
    (type : Option EntityId) (name : String) (s : ScopeId) :
    (heap.addEntity super type name).2.scope s =
      if s.index = heap.scopes.size then
        heap.emptyScope (super.map fun b => (heap.entity b).hooks) .hook
      else if s.index = heap.scopes.size + 1 then
        heap.emptyScope (super.map fun b => (heap.entity b).members) .identifier
      else if s.index = heap.scopes.size + 2 then .root .identifier
      else heap.scope s := by
  simp only [Heap.scope, Array.getD_eq_getD_getElem?, scopes_addEntity old, Array.getElem?_push,
    Array.size_push]
  by_cases hooks : s.index = heap.scopes.size
  · have apart : heap.scopes.size ≠ heap.scopes.size + 1 + 1 := by omega
    simp [hooks, apart]
  · by_cases members : s.index = heap.scopes.size + 1
    · simp [members]
    · by_cases fields : s.index = heap.scopes.size + 2
      · simp [fields]
      · simp [hooks, members, fields]

/-! ## What is in the heap -/

/-- Whether the heap has the object that a name stands for. -/
def Has (heap : Heap) : Node → Prop
  | .scope s => s.index < heap.scopes.size
  | .entity e => e.index < heap.entities.size
  | .binding b => b.index < heap.bindings.size

/-- Whether the heap has all objects of a list. -/
def HasAll (heap : Heap) (xs : List Node) : Prop := ∀ x ∈ xs, heap.Has x

@[simp] theorem hasAll_nil (heap : Heap) : heap.HasAll [] := nofun

@[simp] theorem hasAll_cons {heap : Heap} {x : Node} {xs : List Node} :
    heap.HasAll (x :: xs) ↔ heap.Has x ∧ heap.HasAll xs := List.forall_mem_cons

@[simp] theorem hasAll_append {heap : Heap} {xs ys : List Node} :
    heap.HasAll (xs ++ ys) ↔ heap.HasAll xs ∧ heap.HasAll ys := List.forall_mem_append

theorem HasAll.subset {heap : Heap} {xs ys : List Node} (known : heap.HasAll xs)
    (within : ys ⊆ xs) : heap.HasAll ys := fun x place => known x (within place)

end Heap

/-- What a scope refers to: all its ancestors, and what its cells hold. -/
def Scope.refs (scope : Scope) : List Node :=
  scope.lineage.map .scope ++ Cell.ownedByAll scope.cells

/-- What a binding refers to, whether it owns it or not. -/
def Strategy.refs : Strategy → List Node
  | .declared owner => [.entity owner]
  | strategy => strategy.owned

/-- What an entity refers to: what it owns, and the entity derived from it. -/
def Entity.refs (record : Entity) : List Node := record.owned ++ record.derived.toList.map .entity

namespace Heap

/-- What an object of the heap refers to. -/
def refs (heap : Heap) : Node → List Node
  | .scope s => (heap.scope s).refs
  | .entity e => (heap.entity e).refs
  | .binding b => (heap.binding b).strategy.refs

/-! ## Steps -/

/-- A scope that can be added: it stands on a scope of the heap or on none, and the names declared
in it are distinct and of its grammar. -/
structure Admits (heap : Heap) (scope : Scope) : Prop where
  lineage : ∃ parent : Option ScopeId, scope.lineage = (parent.map heap.path).getD []
  known : heap.HasAll scope.refs
  distinct : scope.symbols.Nodup
  accepted : ∀ name ∈ scope.symbols, scope.policy.accepts name = true

/-- One change to the heap. A closure that is added captures a frame that `captures` allows. -/
inductive Step (captures : Frame → Prop) (heap : Heap) : Heap → Prop
  | addScope {scope : Scope} (admitted : heap.Admits scope) :
      Step captures heap (heap.addScope scope).2
  | addBinding {binding : Binding} (known : heap.HasAll binding.strategy.refs)
      (captured : ∀ frame, binding.strategy = .closure frame → captures frame) :
      Step captures heap (heap.addBinding binding).2
  | addEntity {super type : Option EntityId} (name : String)
      (superKnown : ∀ base ∈ super, heap.Has (.entity base))
      (typeKnown : ∀ t ∈ type, heap.Has (.entity t))
      (free : ∀ base ∈ super, (heap.entity base).derived = none) :
      Step captures heap (heap.addEntity super type name).2
  | declare {s : ScopeId} {name : String} {cell : Cell} {scope : Scope}
      (known : heap.Has (.scope s)) (cellKnown : heap.HasAll cell.owned)
      (declared : (heap.scope s).declare name cell = .ok scope) :
      Step captures heap (heap.setScope s scope)
  | store {s : ScopeId} {name : String} {v old : Value}
      (known : heap.Has (.scope s)) (valueKnown : heap.HasAll v.owned)
      (found : (heap.scope s).cell? name = some (.mutable old)) :
      Step captures heap (heap.modifyScope s (·.store name v))
  | close {s : ScopeId} (known : heap.Has (.scope s)) :
      Step captures heap (heap.modifyScope s Scope.close)

theorem Step.mono {captures captures' : Frame → Prop} {heap after : Heap}
    (weaker : ∀ frame, captures frame → captures' frame) (step : Step captures heap after) :
    Step captures' heap after := by
  cases step with
  | addScope admitted => exact .addScope admitted
  | addBinding known captured =>
    exact .addBinding known fun frame is => weaker frame (captured frame is)
  | addEntity name superKnown typeKnown free => exact .addEntity name superKnown typeKnown free
  | declare known cellKnown declared => exact .declare known cellKnown declared
  | store known valueKnown found => exact .store known valueKnown found
  | close known => exact .close known

/-- Only adding an entity changes entities. -/
theorem Step.entities {captures : Frame → Prop} {heap after : Heap}
    (step : Step captures heap after) : after.entities = heap.entities ∨
      ∃ super type name, (∀ base ∈ super, heap.Has (.entity base)) ∧
        (∀ known ∈ type, heap.Has (.entity known)) ∧
        (∀ base ∈ super, (heap.entity base).derived = none) ∧
        after = (heap.addEntity super type name).2 := by
  cases step with
  | addEntity name superKnown typeKnown free =>
    exact .inr ⟨_, _, name, superKnown, typeKnown, free, rfl⟩
  | addScope | addBinding | declare | store | close => exact .inl rfl

end Heap

end Delegation
