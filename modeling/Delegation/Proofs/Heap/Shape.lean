import Delegation.Proofs.Heap.Growth

/-!
# The shape of a heap

What holds of every heap that steps have made from nothing. References stay inside the heap. The
tables of an entity for hooks and members stand on those of its super-entity, and its fields stand
on nothing. The link from an entity to its super-entity and the one back to the entity derived from
it come in pairs, and a derived entity is always younger than the one it is built on, so following
either link ends.
-/

namespace Delegation

theorem Cell.mem_ownedByAll {x : Node} {cells : List (String × Cell)} :
    x ∈ Cell.ownedByAll cells ↔ ∃ entry ∈ cells, x ∈ entry.2.owned := by
  induction cells with
  | nil => simp [Cell.ownedByAll]
  | cons entry rest ih => simp [Cell.ownedByAll, ih]

namespace Scope

theorem refs_subset_of_cells {scope after : Scope} {brought : List Node}
    (lineage : after.lineage = scope.lineage)
    (cells : ∀ entry ∈ after.cells, entry ∈ scope.cells ∨ entry.2.owned ⊆ brought) :
    after.refs ⊆ scope.refs ++ brought := by
  intro x place
  simp only [refs, lineage, List.mem_append] at place ⊢
  refine or_assoc.2 (place.imp_right fun owned => ?_)
  obtain ⟨entry, listed, owned⟩ := Cell.mem_ownedByAll.1 owned
  exact (cells entry listed).imp (fun old => Cell.mem_ownedByAll.2 ⟨entry, old, owned⟩)
    fun new => new owned

theorem refs_subset_of_declare {scope after : Scope} {name : String} {cell : Cell}
    (declared : scope.declare name cell = .ok after) : after.refs ⊆ scope.refs ++ cell.owned := by
  obtain ⟨_, _, _, rfl⟩ := declare_eq_ok_iff.1 declared
  refine refs_subset_of_cells rfl fun entry listed => (List.mem_append.1 listed).imp_right ?_
  intro new
  rw [List.mem_singleton.1 new]
  exact List.Subset.refl _

theorem refs_store_subset (scope : Scope) (name : String) (v : Value) :
    (scope.store name v).refs ⊆ scope.refs ++ v.owned := by
  refine refs_subset_of_cells rfl fun entry listed => ?_
  obtain ⟨⟨other, cell⟩, place, rfl⟩ := List.mem_map.1 listed
  dsimp only
  by_cases same : other = name
  · rw [if_pos same]
    exact .inr (List.Subset.refl _)
  · rw [if_neg same]
    exact .inl place

end Scope

namespace Heap

/-- The invariant of heaps. -/
structure Sound (heap : Heap) : Prop where
  closed : ∀ x, heap.Has x → heap.HasAll (heap.refs x)
  fields : ∀ e, heap.Has (.entity e) → (heap.scope (heap.entity e).fields).lineage = []
  hooks : ∀ e, heap.Has (.entity e) → (heap.scope (heap.entity e).hooks).lineage =
    ((heap.entity e).super.map fun base => heap.path (heap.entity base).hooks).getD []
  members : ∀ e, heap.Has (.entity e) → (heap.scope (heap.entity e).members).lineage =
    ((heap.entity e).super.map fun base => heap.path (heap.entity base).members).getD []
  derivedOfSuper : ∀ d base, heap.Has (.entity d) → (heap.entity d).super = some base →
    (heap.entity base).derived = some d
  superOfDerived : ∀ base d, heap.Has (.entity base) → (heap.entity base).derived = some d →
    (heap.entity d).super = some base ∧ base.index < d.index

namespace Sound

variable {heap : Heap} (sound : heap.Sound)
include sound

theorem has_super {e base : EntityId} (has : heap.Has (.entity e))
    (is : (heap.entity e).super = some base) : heap.Has (.entity base) :=
  sound.closed _ has (.entity base) (by simp [refs, Entity.refs, Entity.owned, is])

theorem older_super {e base : EntityId} (has : heap.Has (.entity e))
    (is : (heap.entity e).super = some base) : base.index < e.index :=
  (sound.superOfDerived base e (sound.has_super has is) (sound.derivedOfSuper e base has is)).2

/-- What holds of an entity if it holds of the one it is built on holds of all entities. -/
theorem super_induction {motive : EntityId → Prop}
    (step : ∀ e, heap.Has (.entity e) →
      (∀ base, (heap.entity e).super = some base → motive base) → motive e)
    {e : EntityId} (has : heap.Has (.entity e)) : motive e := by
  generalize age : e.index = n
  induction n using Nat.strongRecOn generalizing e with
  | ind n ih =>
    refine step e has fun base is => ?_
    have older : base.index < n := age ▸ sound.older_super has is
    exact ih base.index older (sound.has_super has is) rfl

theorem has_type {e type : EntityId} (has : heap.Has (.entity e))
    (is : (heap.entity e).type = some type) : heap.Has (.entity type) :=
  sound.closed _ has (.entity type) (by simp [refs, Entity.refs, Entity.owned, is])

theorem has_derived {e d : EntityId} (has : heap.Has (.entity e))
    (is : (heap.entity e).derived = some d) : heap.Has (.entity d) :=
  sound.closed _ has (.entity d) (by simp [refs, Entity.refs, is])

theorem has_tables {e : EntityId} (has : heap.Has (.entity e)) :
    heap.Has (.scope (heap.entity e).fields) ∧ heap.Has (.scope (heap.entity e).hooks) ∧
      heap.Has (.scope (heap.entity e).members) := by
  have known := sound.closed _ has
  refine ⟨known _ ?_, known _ ?_, known _ ?_⟩ <;> simp [refs, Entity.refs, Entity.owned]

theorem has_path {s t : ScopeId} (has : heap.Has (.scope s)) (place : t ∈ heap.path s) :
    heap.Has (.scope t) := by
  rcases List.mem_cons.1 place with rfl | ancestor
  · exact has
  · exact sound.closed _ has (.scope t) (by simp [refs, Scope.refs, ancestor])

theorem has_cell {s : ScopeId} {name : String} {cell : Cell} (has : heap.Has (.scope s))
    (found : (heap.scope s).cell? name = some cell) : heap.HasAll cell.owned := by
  intro x place
  have entry : (name, cell) ∈ (heap.scope s).cells := by
    obtain ⟨before, after, is, _⟩ := List.lookup_eq_some_iff.1 found
    simp [is]
  apply sound.closed _ has x
  simp only [refs, Scope.refs, List.mem_append]
  exact .inr (Cell.mem_ownedByAll.2 ⟨_, entry, place⟩)

theorem has_binding {b : BindingId} (has : heap.Has (.binding b)) :
    heap.HasAll (heap.binding b).strategy.refs := sound.closed _ has

end Sound

theorem sound_empty : Heap.Sound {} where
  closed x has := by cases x <;> exact absurd has (Nat.not_lt_zero _)
  fields _ has := absurd has (Nat.not_lt_zero _)
  hooks _ has := absurd has (Nat.not_lt_zero _)
  members _ has := absurd has (Nat.not_lt_zero _)
  derivedOfSuper _ _ has := absurd has (Nat.not_lt_zero _)
  superOfDerived _ _ has := absurd has (Nat.not_lt_zero _)

/-- The part of the invariant that is about entities depends on them and on the ancestors of their
tables alone. -/
theorem Sound.of_same_entities {before after : Heap} (sound : before.Sound)
    (grows : before.Grows after) (entities : after.entities = before.entities)
    (closed : ∀ x, after.Has x → after.HasAll (after.refs x)) : after.Sound := by
  have has {e : EntityId} : after.Has (.entity e) → before.Has (.entity e) := by
    simp only [Has, entities, imp_self]
  have same (e : EntityId) : after.entity e = before.entity e := by
    simp only [Heap.entity, entities]
  have lineage {s : ScopeId} (known : before.Has (.scope s)) :
      (after.scope s).lineage = (before.scope s).lineage := (grows.scope s known).lineage
  refine ⟨closed, fun e is => ?_, fun e is => ?_, fun e is => ?_, fun d base is => ?_,
    fun base d is => ?_⟩
  · rw [same, lineage (sound.has_tables (has is)).1, sound.fields e (has is)]
  · rw [same, lineage (sound.has_tables (has is)).2.1, sound.hooks e (has is)]
    cases super : (before.entity e).super with
    | none => rfl
    | some base =>
      have known := (sound.has_tables (sound.has_super (has is) super)).2.1
      simp only [Option.map_some, Option.getD_some, same, grows.path known]
  · rw [same, lineage (sound.has_tables (has is)).2.2, sound.members e (has is)]
    cases super : (before.entity e).super with
    | none => rfl
    | some base =>
      have known := (sound.has_tables (sound.has_super (has is) super)).2.2
      simp only [Option.map_some, Option.getD_some, same, grows.path known]
  · rw [same, same]
    exact sound.derivedOfSuper d base (has is)
  · rw [same, same]
    exact sound.superOfDerived base d (has is)

/-- A heap that differs from another in one scope, which refers to nothing out of the heap. -/
theorem Sound.of_scope {before after : Heap} {s : ScopeId} (sound : before.Sound)
    (grows : before.Grows after) (scopes : after.scopes.size = before.scopes.size)
    (entities : after.entities = before.entities) (bindings : after.bindings = before.bindings)
    (others : ∀ t, t ≠ s → after.scope t = before.scope t)
    (known : before.HasAll (after.scope s).refs) : after.Sound := by
  apply sound.of_same_entities grows entities
  intro x has
  cases x with
  | scope t =>
    by_cases same : t = s
    · subst same
      exact grows.hasAll known
    · simp only [refs, others t same]
      exact grows.hasAll (sound.closed (.scope t) (by simpa [Has, scopes] using has))
  | entity e =>
    have old := grows.hasAll (sound.closed (.entity e) (by simpa [Has, entities] using has))
    simpa only [refs, Heap.entity, entities] using old
  | binding b =>
    have old := grows.hasAll (sound.closed (.binding b) (by simpa [Has, bindings] using has))
    simpa only [refs, Heap.binding, bindings] using old

theorem has_addScope (heap : Heap) (scope : Scope) :
    (heap.addScope scope).2.Has (.scope (heap.addScope scope).1) := by
  simp [Has, addScope]

theorem not_has_addScope (heap : Heap) (scope : Scope) :
    ¬heap.Has (.scope (heap.addScope scope).1) := Nat.lt_irrefl _

theorem eq_addScope {heap : Heap} {scope : Scope} {x : ScopeId}
    (has : (heap.addScope scope).2.Has (.scope x)) (absent : ¬heap.Has (.scope x)) :
    x = (heap.addScope scope).1 := by
  obtain ⟨i⟩ := x
  simp only [Has, Heap.addScope, Array.size_push] at has absent ⊢
  exact congrArg ScopeId.mk (by omega)

theorem Sound.addScope {heap : Heap} (sound : heap.Sound) {scope : Scope}
    (admitted : heap.Admits scope) : (heap.addScope scope).2.Sound := by
  have grows := grows_addScope heap scope
  apply sound.of_same_entities grows rfl
  intro x has
  cases x with
  | scope s =>
    by_cases old : s.index < heap.scopes.size
    · simp only [refs, scope_addScope_of_lt scope old]
      exact grows.hasAll (sound.closed (.scope s) old)
    · simp only [refs, eq_addScope has old, Heap.scope_addScope]
      exact grows.hasAll admitted.known
  | entity e => exact grows.hasAll (sound.closed (.entity e) has)
  | binding b => exact grows.hasAll (sound.closed (.binding b) has)

theorem eq_addBinding {heap : Heap} {binding : Binding} {b : BindingId}
    (has : (heap.addBinding binding).2.Has (.binding b)) (absent : ¬heap.Has (.binding b)) :
    b = (heap.addBinding binding).1 := by
  obtain ⟨i⟩ := b
  simp only [Has, Heap.addBinding, Array.size_push] at has absent ⊢
  exact congrArg BindingId.mk (by omega)

theorem Sound.addBinding {heap : Heap} (sound : heap.Sound) {binding : Binding}
    (known : heap.HasAll binding.strategy.refs) : (heap.addBinding binding).2.Sound := by
  have grows := grows_addBinding heap binding
  apply sound.of_same_entities grows rfl
  intro x has
  cases x with
  | scope s => exact grows.hasAll (sound.closed (.scope s) has)
  | entity e => exact grows.hasAll (sound.closed (.entity e) has)
  | binding b =>
    by_cases old : b.index < heap.bindings.size
    · simp only [refs, binding_addBinding_of_lt binding old]
      exact grows.hasAll (sound.closed (.binding b) old)
    · simp only [refs, eq_addBinding has old, Heap.binding_addBinding]
      exact grows.hasAll known

theorem has_addEntity {heap : Heap} {super type : Option EntityId} {name : String} {e : EntityId}
    (has : (heap.addEntity super type name).2.Has (.entity e)) :
    heap.Has (.entity e) ∨ e.index = heap.entities.size := by
  simp only [Has, size_entities_addEntity] at *
  omega

theorem super_addEntity {heap : Heap} {super : Option EntityId}
    (superKnown : ∀ base ∈ super, heap.Has (.entity base)) (type : Option EntityId) (name : String)
    (e : EntityId) :
    ((heap.addEntity super type name).2.entity e).super =
      if e.index = heap.entities.size then super else (heap.entity e).super := by
  rw [entity_addEntity superKnown]
  split
  · rfl
  · split <;> rfl

theorem derived_addEntity {heap : Heap} {super : Option EntityId}
    (superKnown : ∀ base ∈ super, heap.Has (.entity base)) (type : Option EntityId) (name : String)
    (e : EntityId) :
    ((heap.addEntity super type name).2.entity e).derived =
      if e.index = heap.entities.size then none
      else if super = some e then some ⟨heap.entities.size⟩ else (heap.entity e).derived := by
  rw [entity_addEntity superKnown]
  split
  · rfl
  · split <;> rfl

section AddEntity

variable {heap : Heap} (sound : heap.Sound) {super type : Option EntityId} (name : String)
  (superKnown : ∀ base ∈ super, heap.Has (.entity base))
  (typeKnown : ∀ t ∈ type, heap.Has (.entity t))
  (free : ∀ base ∈ super, (heap.entity base).derived = none)
include sound superKnown

theorem Sound.scope_addEntity (s : ScopeId) :
    (heap.addEntity super type name).2.scope s =
      if s.index = heap.scopes.size then
        heap.emptyScope (super.map fun b => (heap.entity b).hooks) .hook
      else if s.index = heap.scopes.size + 1 then
        heap.emptyScope (super.map fun b => (heap.entity b).members) .identifier
      else if s.index = heap.scopes.size + 2 then .root .identifier
      else heap.scope s :=
  Heap.scope_addEntity (fun base is => (sound.has_tables (superKnown base is)).2.2) type name s

theorem Sound.hasAll_emptyScope {table : Entity → ScopeId}
    (known : ∀ e, heap.Has (.entity e) → heap.Has (.scope (table (heap.entity e))))
    (policy : Policy) :
    heap.HasAll (heap.emptyScope (super.map fun b => table (heap.entity b)) policy).refs := by
  cases super with
  | none => simp [emptyScope, Scope.refs, Scope.root, Cell.ownedByAll]
  | some base =>
    intro x place
    simp only [emptyScope, Scope.refs, Scope.root, Option.map_some, Option.getD_some,
      Cell.ownedByAll, List.append_nil, List.mem_map] at place
    obtain ⟨t, ancestor, rfl⟩ := place
    exact sound.has_path (known base (superKnown base rfl)) ancestor

include free

include typeKnown in
theorem Sound.closed_addEntity (x : Node) (has : (heap.addEntity super type name).2.Has x) :
    (heap.addEntity super type name).2.HasAll ((heap.addEntity super type name).2.refs x) := by
  have grows := grows_addEntity superKnown free type name
  cases x with
  | scope s =>
    simp only [refs, sound.scope_addEntity name superKnown s]
    split
    · exact grows.hasAll
        (sound.hasAll_emptyScope superKnown (fun e h => (sound.has_tables h).2.1) _)
    · split
      · exact grows.hasAll
          (sound.hasAll_emptyScope superKnown (fun e h => (sound.has_tables h).2.2) _)
      · split
        · exact hasAll_nil _
        · simp only [Has, size_scopes_addEntity] at has
          exact grows.hasAll (sound.closed (.scope s) (show s.index < heap.scopes.size by omega))
  | entity e =>
    rcases has_addEntity has with old | new
    · have known := grows.hasAll (sound.closed (.entity e) old)
      simp only [refs, entity_addEntity superKnown, if_neg (Nat.ne_of_lt old)] at known ⊢
      split
      · simp only [Entity.refs, Entity.owned, hasAll_append] at known ⊢
        refine ⟨known.1, ?_⟩
        simp only [Option.toList_some, List.map_cons, List.map_nil, hasAll_cons, hasAll_nil,
          and_true]
        simp [Has, size_entities_addEntity]
      · exact known
    · simp only [refs, entity_addEntity superKnown, if_pos new, Entity.refs, Entity.owned,
        freshEntity, hasAll_append, hasAll_cons, Option.toList_none, List.map_nil]
      refine ⟨⟨⟨?_, ?_⟩, ?_⟩, hasAll_nil _⟩
      · rintro x place
        obtain ⟨base, is, rfl⟩ := List.mem_map.1 place
        exact grows.has _ (superKnown base (Option.mem_toList.1 is))
      · rintro x place
        obtain ⟨t, is, rfl⟩ := List.mem_map.1 place
        exact grows.has _ (typeKnown t (Option.mem_toList.1 is))
      · simp [Has, size_scopes_addEntity]
  | binding b =>
    have known := grows.hasAll (sound.closed (.binding b)
      (by simpa only [Has, bindings_addEntity] using has))
    simpa only [refs, Heap.binding, bindings_addEntity] using known

/-- Tables that stand on those of the super-entity still do, those of the new entity among them. -/
theorem Sound.lineage_addEntity {table : Entity → ScopeId}
    (same : ∀ {a b : Entity}, a.Grows b → table b = table a)
    (known : ∀ e, heap.Has (.entity e) → heap.Has (.scope (table (heap.entity e))))
    (stands : ∀ e, heap.Has (.entity e) → (heap.scope (table (heap.entity e))).lineage =
      ((heap.entity e).super.map fun base => heap.path (table (heap.entity base))).getD [])
    {policy : Policy} (made : (heap.addEntity super type name).2.scope
        (table (heap.freshEntity super type name)) =
      heap.emptyScope (super.map fun base => table (heap.entity base)) policy)
    (e : EntityId) (has : (heap.addEntity super type name).2.Has (.entity e)) :
    ((heap.addEntity super type name).2.scope
        (table ((heap.addEntity super type name).2.entity e))).lineage =
      (((heap.addEntity super type name).2.entity e).super.map fun base =>
        (heap.addEntity super type name).2.path
          (table ((heap.addEntity super type name).2.entity base))).getD [] := by
  have grows := grows_addEntity superKnown free type name
  have paths {after : Heap} (grows : heap.Grows after) (base : EntityId)
      (baseHas : heap.Has (.entity base)) :
      after.path (table (after.entity base)) = heap.path (table (heap.entity base)) := by
    rw [same (grows.entity base baseHas), grows.path (known base baseHas)]
  rcases has_addEntity has with old | new
  · rw [same (grows.entity e old), (grows.scope _ (known e old)).lineage, stands e old,
      (grows.entity e old).super]
    cases is : (heap.entity e).super with
    | none => rfl
    | some base => simp only [Option.map_some, paths grows base (sound.has_super old is)]
  · rw [super_addEntity superKnown, if_pos new, entity_addEntity superKnown, if_pos new, made]
    cases super with
    | none => rfl
    | some base =>
      simp only [emptyScope, Option.map_some, Option.getD_some,
        paths grows base (superKnown base rfl)]

theorem Sound.derivedOfSuper_addEntity {d base : EntityId}
    (has : (heap.addEntity super type name).2.Has (.entity d))
    (is : ((heap.addEntity super type name).2.entity d).super = some base) :
    ((heap.addEntity super type name).2.entity base).derived = some d := by
  rw [super_addEntity superKnown] at is
  rw [derived_addEntity superKnown]
  rcases has_addEntity has with old | new
  · rw [if_neg (Nat.ne_of_lt old)] at is
    have linked := sound.derivedOfSuper d base old is
    have apart : super ≠ some base := by
      rintro rfl
      rw [free base rfl] at linked
      cases linked
    rw [if_neg (Nat.ne_of_lt (sound.has_super old is)), if_neg apart, linked]
  · rw [if_pos new] at is
    rw [if_neg (Nat.ne_of_lt (superKnown base is)), if_pos is, ← new]

omit free in
theorem Sound.superOfDerived_addEntity {base d : EntityId}
    (has : (heap.addEntity super type name).2.Has (.entity base))
    (is : ((heap.addEntity super type name).2.entity base).derived = some d) :
    ((heap.addEntity super type name).2.entity d).super = some base ∧ base.index < d.index := by
  rw [derived_addEntity superKnown] at is
  rw [super_addEntity superKnown]
  rcases has_addEntity has with old | new
  · rw [if_neg (Nat.ne_of_lt old)] at is
    by_cases above : super = some base
    · rw [if_pos above, Option.some.injEq] at is
      subst is
      exact ⟨by rw [if_pos rfl, above], superKnown base above⟩
    · rw [if_neg above] at is
      obtain ⟨linked, younger⟩ := sound.superOfDerived base d old is
      exact ⟨by rw [if_neg (Nat.ne_of_lt (sound.has_derived old is)), linked], younger⟩
  · rw [if_pos new] at is
    cases is

include typeKnown in
theorem Sound.addEntity : (heap.addEntity super type name).2.Sound where
  closed := sound.closed_addEntity name superKnown typeKnown free
  fields e has := by
    rcases has_addEntity has with old | new
    · have grows := grows_addEntity superKnown free type name
      rw [(grows.entity e old).fields, (grows.scope _ (sound.has_tables old).1).lineage,
        sound.fields e old]
    · rw [entity_addEntity superKnown, if_pos new, sound.scope_addEntity name superKnown]
      simp [freshEntity, Scope.root]
  hooks := by
    have made : (heap.addEntity super type name).2.scope ⟨heap.scopes.size⟩ = _ :=
      sound.scope_addEntity name superKnown _
    rw [if_pos rfl] at made
    exact sound.lineage_addEntity name superKnown free (·.hooks)
      (fun e has => (sound.has_tables has).2.1) sound.hooks made
  members := by
    have made : (heap.addEntity super type name).2.scope ⟨heap.scopes.size + 1⟩ = _ :=
      sound.scope_addEntity name superKnown _
    rw [if_neg (Nat.succ_ne_self _), if_pos rfl] at made
    exact sound.lineage_addEntity name superKnown free (·.members)
      (fun e has => (sound.has_tables has).2.2) sound.members made
  derivedOfSuper d base has is := sound.derivedOfSuper_addEntity name superKnown free has is
  superOfDerived base d has is := sound.superOfDerived_addEntity name superKnown has is

end AddEntity

/-- Every step keeps the invariant. -/
theorem Step.sound {captures : Frame → Prop} {heap after : Heap} (step : Step captures heap after)
    (sound : heap.Sound) : after.Sound := by
  have grows := step.grows
  cases step with
  | addScope admitted => exact sound.addScope admitted
  | addBinding known => exact sound.addBinding known
  | addEntity name superKnown typeKnown free => exact sound.addEntity name superKnown typeKnown free
  | @declare s name cell scope known cellKnown declared =>
    refine sound.of_scope (s := s) grows (by simp [setScope]) rfl rfl (fun t other => ?_) ?_
    · rw [scope_setScope known, if_neg other]
    · rw [scope_setScope known, if_pos rfl]
      have together := hasAll_append.2 ⟨sound.closed _ known, cellKnown⟩
      exact fun x place => together x (Scope.refs_subset_of_declare declared place)
  | @store s name v _ known valueKnown found =>
    refine sound.of_scope (s := s) grows (by simp [modifyScope]) rfl rfl (fun t other => ?_) ?_
    · rw [scope_modifyScope known, if_neg other]
    · rw [scope_modifyScope known, if_pos rfl]
      have together := hasAll_append.2 ⟨sound.closed _ known, valueKnown⟩
      exact fun x place => together x (Scope.refs_store_subset _ name v place)
  | @close s known =>
    refine sound.of_scope (s := s) grows (by simp [modifyScope]) rfl rfl (fun t other => ?_) ?_
    · rw [scope_modifyScope known, if_neg other]
    · rw [scope_modifyScope known, if_pos rfl]
      exact sound.closed _ known

/-- Every heap that steps have made from nothing satisfies the invariant. -/
theorem Later.sound {heap after : Heap} (later : Later heap after) (sound : heap.Sound) :
    after.Sound := by
  induction later with
  | refl => exact sound
  | tail _ step ih => exact step.sound ih

end Heap

end Delegation
