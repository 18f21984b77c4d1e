import Mathlib.Logic.Relation
import Delegation.Proofs.Heap.Step

/-!
# A heap only grows

What is in the heap stays there. A scope keeps its ancestors and its grammar, and new names come
behind those it has; a cell keeps its kind, and its value too unless it is mutable; a closed scope
gains no name. An entity keeps all but its link to the entity derived from it, and that link too
once it is set. A binding never changes.

Each of the six steps keeps these, so any number of them does.
-/

namespace Delegation

/-- What may become of a cell: a mutable one may take another value. -/
inductive Cell.Becomes : Cell → Cell → Prop
  | same (cell : Cell) : Becomes cell cell
  | stored (v w : Value) : Becomes (.mutable v) (.mutable w)

theorem Cell.Becomes.trans {a b c : Cell} (first : a.Becomes b) (second : b.Becomes c) :
    a.Becomes c := by
  cases first with
  | same => exact second
  | stored v w => cases second <;> exact .stored v _

theorem Cell.Becomes.constant {v : Value} {cell : Cell} (became : (Cell.constant v).Becomes cell) :
    cell = .constant v := by
  cases became
  rfl

namespace Scope

/-- What may become of a scope. -/
structure Grows (before after : Scope) : Prop where
  policy : after.policy = before.policy
  lineage : after.lineage = before.lineage
  symbols : before.symbols <+: after.symbols
  cells : ∀ name cell, before.cell? name = some cell →
    ∃ later, after.cell? name = some later ∧ cell.Becomes later
  closed : before.isSealed = true → after.isSealed = true ∧ after.symbols = before.symbols

theorem Grows.refl (scope : Scope) : scope.Grows scope :=
  ⟨rfl, rfl, List.prefix_rfl, fun _ cell found => ⟨cell, found, .same cell⟩, fun h => ⟨h, rfl⟩⟩

theorem Grows.trans {a b c : Scope} (first : a.Grows b) (second : b.Grows c) : a.Grows c where
  policy := second.policy.trans first.policy
  lineage := second.lineage.trans first.lineage
  symbols := first.symbols.trans second.symbols
  cells name cell found := by
    obtain ⟨middle, foundMiddle, becameMiddle⟩ := first.cells name cell found
    obtain ⟨later, foundLater, becameLater⟩ := second.cells name middle foundMiddle
    exact ⟨later, foundLater, becameMiddle.trans becameLater⟩
  closed was := by
    obtain ⟨stays, same⟩ := first.closed was
    obtain ⟨stays', same'⟩ := second.closed stays
    exact ⟨stays', same'.trans same⟩

theorem cell?_of_declare {scope after : Scope} {name : String} {cell : Cell}
    (declared : scope.declare name cell = .ok after) (other : String) :
    after.cell? other = if other = name then some cell else scope.cell? other := by
  obtain ⟨_, _, new, rfl⟩ := declare_eq_ok_iff.1 declared
  simp only [cell?, List.lookup_append, List.lookup_cons, List.lookup_nil]
  by_cases same : other = name
  · subst same
    have absent : scope.cells.lookup other = none := by simpa [declares, cell?] using new
    simp [absent]
  · have differs : (other == name) = false := by simpa using same
    simp [same, differs]

theorem cell?_store (scope : Scope) (name : String) (v : Value) (other : String) :
    (scope.store name v).cell? other =
      if other = name then (scope.cell? name).map fun _ => .mutable v else scope.cell? other := by
  obtain ⟨policy, lineage, cells, isSealed⟩ := scope
  simp only [cell?, store]
  induction cells with
  | nil => simp
  | cons entry rest ih =>
    obtain ⟨first, cell⟩ := entry
    simp only [List.map_cons, List.lookup_cons]
    by_cases found : other = first
    · subst found
      by_cases same : other = name
      · simp [same]
      · simp [same]
    · have differs : (other == first) = false := by simpa using found
      by_cases same : other = name
      · subst same
        simpa only [differs, if_true] using ih
      · simpa only [differs, if_neg same] using ih

theorem grows_of_declare {scope after : Scope} {name : String} {cell : Cell}
    (declared : scope.declare name cell = .ok after) : scope.Grows after where
  policy := by obtain ⟨_, _, _, rfl⟩ := declare_eq_ok_iff.1 declared; rfl
  lineage := by obtain ⟨_, _, _, rfl⟩ := declare_eq_ok_iff.1 declared; rfl
  symbols := by rw [symbols_of_declare declared]; exact List.prefix_append _ _
  cells other old found := by
    obtain ⟨_, _, new, _⟩ := declare_eq_ok_iff.1 declared
    have apart : other ≠ name := by
      rintro rfl
      simp [declares, found] at new
    exact ⟨old, by rw [cell?_of_declare declared, if_neg apart, found], .same old⟩
  closed was := by
    obtain ⟨_, unsealed, _, _⟩ := declare_eq_ok_iff.1 declared
    rw [was] at unsealed
    cases unsealed

theorem grows_store {scope : Scope} {name : String} {old : Value}
    (found : scope.cell? name = some (.mutable old)) (v : Value) :
    scope.Grows (scope.store name v) where
  policy := rfl
  lineage := rfl
  symbols := by simp only [symbols_store, List.prefix_rfl]
  cells other cell was := by
    rw [cell?_store]
    by_cases same : other = name
    · subst same
      rw [found, Option.some.injEq] at was
      subst was
      exact ⟨.mutable v, by simp [found], .stored old v⟩
    · exact ⟨cell, by rw [if_neg same, was], .same cell⟩
  closed was := ⟨was, symbols_store scope name v⟩

theorem grows_close (scope : Scope) : scope.Grows scope.close :=
  ⟨rfl, rfl, List.prefix_rfl, fun _ cell found => ⟨cell, found, .same cell⟩, fun _ => ⟨rfl, rfl⟩⟩

end Scope

/-- What may become of an entity. -/
structure Entity.Grows (before after : Entity) : Prop where
  name : after.name = before.name
  type : after.type = before.type
  super : after.super = before.super
  fields : after.fields = before.fields
  hooks : after.hooks = before.hooks
  members : after.members = before.members
  derived : ∀ d, before.derived = some d → after.derived = some d

theorem Entity.Grows.refl (record : Entity) : record.Grows record :=
  ⟨rfl, rfl, rfl, rfl, rfl, rfl, fun _ is => is⟩

theorem Entity.Grows.trans {a b c : Entity} (first : a.Grows b) (second : b.Grows c) :
    a.Grows c where
  name := second.name.trans first.name
  type := second.type.trans first.type
  super := second.super.trans first.super
  fields := second.fields.trans first.fields
  hooks := second.hooks.trans first.hooks
  members := second.members.trans first.members
  derived d is := second.derived d (first.derived d is)

namespace Heap

/-- What may become of a heap. -/
structure Grows (before after : Heap) : Prop where
  has : ∀ x, before.Has x → after.Has x
  scope : ∀ s, before.Has (.scope s) → (before.scope s).Grows (after.scope s)
  entity : ∀ e, before.Has (.entity e) → (before.entity e).Grows (after.entity e)
  binding : ∀ b, before.Has (.binding b) → after.binding b = before.binding b

theorem Grows.refl (heap : Heap) : heap.Grows heap :=
  ⟨fun _ has => has, fun _ _ => .refl _, fun _ _ => .refl _, fun _ _ => rfl⟩

theorem Grows.trans {a b c : Heap} (first : a.Grows b) (second : b.Grows c) : a.Grows c where
  has x has := second.has x (first.has x has)
  scope s has := (first.scope s has).trans (second.scope s (first.has _ has))
  entity e has := (first.entity e has).trans (second.entity e (first.has _ has))
  binding b has := (second.binding b (first.has _ has)).trans (first.binding b has)

theorem Grows.hasAll {before after : Heap} (grows : before.Grows after) {xs : List Node}
    (has : before.HasAll xs) : after.HasAll xs := fun x place => grows.has x (has x place)

/-- The ancestors of a scope are fixed when it is made. -/
theorem Grows.path {before after : Heap} (grows : before.Grows after) {s : ScopeId}
    (has : before.Has (.scope s)) : after.path s = before.path s := by
  rw [Heap.path, Heap.path, (grows.scope s has).lineage]

/-- A heap that differs from another in one scope, which has grown. -/
theorem grows_of_scope {before after : Heap} {s : ScopeId}
    (scopes : after.scopes.size = before.scopes.size)
    (entities : after.entities = before.entities) (bindings : after.bindings = before.bindings)
    (others : ∀ t, t ≠ s → after.scope t = before.scope t)
    (grown : (before.scope s).Grows (after.scope s)) : before.Grows after where
  has x has := by
    cases x <;> simpa [Has, scopes, entities, bindings] using has
  scope t _ := by
    by_cases same : t = s
    · subst same
      exact grown
    · rw [others t same]
      exact .refl _
  entity e _ := by
    simp only [Heap.entity, entities]
    exact .refl _
  binding b _ := by simp only [Heap.binding, bindings]

theorem grows_addScope (heap : Heap) (scope : Scope) : heap.Grows (heap.addScope scope).2 where
  has x has := by
    cases x <;> simp only [Has, addScope, Array.size_push] at * <;> omega
  scope s has := by rw [scope_addScope_of_lt scope has]; exact .refl _
  entity _ _ := .refl _
  binding _ _ := rfl

theorem grows_addBinding (heap : Heap) (binding : Binding) :
    heap.Grows (heap.addBinding binding).2 where
  has x has := by
    cases x <;> simp only [Has, addBinding, Array.size_push] at * <;> omega
  scope _ _ := .refl _
  entity _ _ := .refl _
  binding _ has := binding_addBinding_of_lt binding has

theorem grows_addEntity {heap : Heap} {super : Option EntityId}
    (superKnown : ∀ base ∈ super, heap.Has (.entity base))
    (free : ∀ base ∈ super, (heap.entity base).derived = none)
    (type : Option EntityId) (name : String) : heap.Grows (heap.addEntity super type name).2 where
  has x has := by
    cases x <;> simp only [Has, size_scopes_addEntity, size_entities_addEntity,
      bindings_addEntity] at * <;> omega
  scope s has := by
    rw [scope_addEntity_of_lt super type name has]
    exact .refl _
  entity e has := by
    rw [entity_addEntity superKnown, if_neg (Nat.ne_of_lt has)]
    split
    · next is =>
      refine ⟨rfl, rfl, rfl, rfl, rfl, rfl, fun d old => ?_⟩
      rw [free e is] at old
      cases old
    · exact .refl _
  binding b _ := by simp only [Heap.binding, bindings_addEntity]

/-- What is done to one scope, which grows, happens to that scope if it is in the heap at all. -/
theorem grows_modifyScope {heap : Heap} {x : ScopeId} {f : Scope → Scope}
    (grows : (heap.scope x).Grows (f (heap.scope x))) (y : ScopeId) (has : heap.Has (.scope y)) :
    (heap.scope y).Grows ((heap.modifyScope x f).scope y) := by
  by_cases same : y = x
  · subst same
    rw [scope_modifyScope has, if_pos rfl]
    exact grows
  · rw [scope_modifyScope_of_ne heap f same]
    exact .refl _

/-- A step only lets the heap grow. -/
theorem Step.grows {captures : Frame → Prop} {heap after : Heap} (step : Step captures heap after) :
    heap.Grows after := by
  cases step with
  | addScope => exact grows_addScope heap _
  | addBinding => exact grows_addBinding heap _
  | addEntity name superKnown _ free => exact grows_addEntity superKnown free _ name
  | @declare s _ _ scope known _ declared =>
    refine grows_of_scope (s := s) (by simp [setScope]) rfl rfl (fun t other => ?_) ?_
    · rw [scope_setScope known, if_neg other]
    · rw [scope_setScope known, if_pos rfl]
      exact Scope.grows_of_declare declared
  | @store s name v _ known _ found =>
    refine grows_of_scope (s := s) (by simp [modifyScope]) rfl rfl (fun t other => ?_) ?_
    · rw [scope_modifyScope known, if_neg other]
    · rw [scope_modifyScope known, if_pos rfl]
      exact Scope.grows_store found v
  | @close s known =>
    refine grows_of_scope (s := s) (by simp [modifyScope]) rfl rfl (fun t other => ?_) ?_
    · rw [scope_modifyScope known, if_neg other]
    · rw [scope_modifyScope known, if_pos rfl]
      exact Scope.grows_close _

/-- The heaps that a heap can become. -/
def Later : Heap → Heap → Prop := Relation.ReflTransGen (Step fun _ => True)

/-- Any number of steps only lets the heap grow. -/
theorem Later.grows {heap after : Heap} (later : Later heap after) : heap.Grows after := by
  induction later with
  | refl => exact .refl heap
  | tail _ step ih => exact ih.trans step.grows

end Heap

end Delegation
