import Delegation.Proofs.Heap.Order

/-!
# What tables hold

The names of a scope are distinct and of its grammar. Declaring checks both and nothing else adds a
name: replacing a value and closing leave the names alone. The tables of an entity have their
grammars from the start, hooks for the one table and identifiers for the other two, and so have the
tables of all layers below it, which are the ones that a look-up goes through.
-/

namespace Delegation

namespace Scope

/-- A scope with distinct names of its grammar. -/
structure Tidy (scope : Scope) : Prop where
  distinct : scope.symbols.Nodup
  accepted : ∀ name ∈ scope.symbols, scope.policy.accepts name = true

theorem tidy_of_empty {scope : Scope} (empty : scope.cells = []) : scope.Tidy := by
  have none : scope.symbols = [] := by rw [symbols, empty, List.map_nil]
  exact ⟨none ▸ List.nodup_nil, fun name listed => by simp [none] at listed⟩

namespace Tidy

variable {scope after : Scope} (tidy : scope.Tidy)
include tidy

theorem declare {name : String} {cell : Cell} (declared : scope.declare name cell = .ok after) :
    after.Tidy := by
  obtain ⟨accepted, -, new, -⟩ := declare_eq_ok_iff.1 declared
  have absent : name ∉ scope.symbols := by
    rw [← declares_iff, new]
    exact Bool.false_ne_true
  constructor
  · rw [symbols_of_declare declared]
    refine List.nodup_append.2 ⟨tidy.distinct, by simp, fun old listed added place same => ?_⟩
    rw [same, List.mem_singleton.1 place] at listed
    exact absent listed
  · intro other listed
    rw [symbols_of_declare declared, List.mem_append, List.mem_singleton] at listed
    rw [(grows_of_declare declared).policy]
    rcases listed with old | rfl
    · exact tidy.accepted other old
    · exact accepted

theorem store (name : String) (v : Value) : (scope.store name v).Tidy :=
  ⟨symbols_store scope name v ▸ tidy.distinct, symbols_store scope name v ▸ tidy.accepted⟩

theorem close : scope.close.Tidy := ⟨tidy.distinct, tidy.accepted⟩

end Tidy

end Scope

namespace Heap

/-- A heap of tidy scopes, in which the tables of entities have their grammars. -/
structure Tidy (heap : Heap) : Prop where
  scope : ∀ x, (heap.scope x).Tidy
  fields : ∀ e, heap.Has (.entity e) → (heap.scope (heap.entity e).fields).policy = .identifier
  members : ∀ e, heap.Has (.entity e) → (heap.scope (heap.entity e).members).policy = .identifier
  hooks : ∀ e, heap.Has (.entity e) → (heap.scope (heap.entity e).hooks).policy = .hook

theorem cells_of_not_has {heap : Heap} {x : ScopeId} (absent : ¬heap.Has (.scope x)) :
    (heap.scope x).cells = [] := by
  have beyond : heap.scopes.size ≤ x.index := Nat.le_of_not_lt absent
  simp [Heap.scope, Array.getD_eq_getD_getElem?, Array.getElem?_eq_none beyond, default,
    Scope.root]

theorem tidy_empty : Heap.Tidy {} where
  scope _ := Scope.tidy_of_empty (cells_of_not_has (Nat.not_lt_zero _))
  fields _ has := absurd has (Nat.not_lt_zero _)
  members _ has := absurd has (Nat.not_lt_zero _)
  hooks _ has := absurd has (Nat.not_lt_zero _)

namespace Tidy

variable {heap after : Heap} (tidy : heap.Tidy)
include tidy

/-- As long as no entity is added, tidy scopes are all that is asked for. -/
theorem of_same_entities (sound : heap.Sound) (grows : heap.Grows after)
    (entities : after.entities = heap.entities) (scope : ∀ x, (after.scope x).Tidy) :
    after.Tidy := by
  have has {e : EntityId} : after.Has (.entity e) → heap.Has (.entity e) := by
    simp only [Has, entities, imp_self]
  have same (e : EntityId) : after.entity e = heap.entity e := by simp only [Heap.entity, entities]
  refine ⟨scope, fun e is => ?_, fun e is => ?_, fun e is => ?_⟩ <;> rw [same]
  · rw [(grows.scope _ (sound.has_tables (has is)).1).policy, tidy.fields e (has is)]
  · rw [(grows.scope _ (sound.has_tables (has is)).2.2).policy, tidy.members e (has is)]
  · rw [(grows.scope _ (sound.has_tables (has is)).2.1).policy, tidy.hooks e (has is)]

theorem addScope {scope : Scope} (admitted : heap.Admits scope) (x : ScopeId) :
    ((heap.addScope scope).2.scope x).Tidy := by
  by_cases old : x.index < heap.scopes.size
  · rw [scope_addScope_of_lt scope old]
    exact tidy.scope x
  · by_cases has : (heap.addScope scope).2.Has (.scope x)
    · rw [eq_addScope has old, scope_addScope]
      exact ⟨admitted.distinct, admitted.accepted⟩
    · exact Scope.tidy_of_empty (cells_of_not_has has)

theorem setScope {x : ScopeId} {scope : Scope} (has : heap.Has (.scope x)) (made : scope.Tidy)
    (y : ScopeId) : ((heap.setScope x scope).scope y).Tidy := by
  rw [scope_setScope has]
  split
  · exact made
  · exact tidy.scope y

theorem modifyScope {x : ScopeId} {f : Scope → Scope} (has : heap.Has (.scope x))
    (made : (f (heap.scope x)).Tidy) (y : ScopeId) : ((heap.modifyScope x f).scope y).Tidy := by
  rw [scope_modifyScope has]
  split
  · exact made
  · exact tidy.scope y

theorem addEntity (sound : heap.Sound) {super type : Option EntityId} (name : String)
    (superKnown : ∀ base ∈ super, heap.Has (.entity base))
    (free : ∀ base ∈ super, (heap.entity base).derived = none) :
    (heap.addEntity super type name).2.Tidy := by
  have grows := grows_addEntity superKnown free type name
  refine ⟨fun x => ?_, fun e has => ?_, fun e has => ?_, fun e has => ?_⟩
  · rw [sound.scope_addEntity name superKnown]
    split
    · exact Scope.tidy_of_empty rfl
    · split
      · exact Scope.tidy_of_empty rfl
      · split
        · exact Scope.tidy_of_empty rfl
        · exact tidy.scope x
  all_goals rcases has_addEntity has with old | new
  · rw [(grows.entity e old).fields, (grows.scope _ (sound.has_tables old).1).policy]
    exact tidy.fields e old
  · rw [entity_addEntity superKnown, if_pos new, sound.scope_addEntity name superKnown]
    simp [freshEntity, Scope.root]
  · rw [(grows.entity e old).members, (grows.scope _ (sound.has_tables old).2.2).policy]
    exact tidy.members e old
  · rw [entity_addEntity superKnown, if_pos new, sound.scope_addEntity name superKnown]
    simp [freshEntity, emptyScope, Scope.root]
  · rw [(grows.entity e old).hooks, (grows.scope _ (sound.has_tables old).2.1).policy]
    exact tidy.hooks e old
  · rw [entity_addEntity superKnown, if_pos new, sound.scope_addEntity name superKnown]
    simp [freshEntity, emptyScope, Scope.root]

end Tidy

/-- Every step keeps tables tidy. -/
theorem Step.tidy {captures : Frame → Prop} {heap after : Heap} (step : Step captures heap after)
    (sound : heap.Sound) (tidy : heap.Tidy) : after.Tidy := by
  have grows := step.grows
  cases step with
  | addScope admitted => exact tidy.of_same_entities sound grows rfl (tidy.addScope admitted)
  | addBinding => exact tidy.of_same_entities sound grows rfl tidy.scope
  | addEntity name superKnown _ free => exact tidy.addEntity sound name superKnown free
  | @declare s _ _ _ known _ declared =>
    exact tidy.of_same_entities sound grows rfl
      (tidy.setScope known ((tidy.scope s).declare declared))
  | @store s name v _ known =>
    exact tidy.of_same_entities sound grows rfl
      (tidy.modifyScope known ((tidy.scope s).store name v))
  | @close s known =>
    exact tidy.of_same_entities sound grows rfl (tidy.modifyScope known (tidy.scope s).close)

/-! ## What entities are found to have -/

namespace Tidy

variable {heap : Heap} {e : EntityId} {name : String} (tidy : heap.Tidy) (sound : heap.Sound)
  (has : heap.Has (.entity e))
include tidy

theorem accepts_of_contains {x : ScopeId} {policy : Policy}
    (policies : ∀ y ∈ heap.path x, (heap.scope y).policy = policy)
    (found : heap.contains x name = true) : policy.accepts name = true := by
  obtain ⟨y, place, declares⟩ := List.any_eq_true.1 found
  rw [← policies y place]
  exact (tidy.scope y).accepted name (Scope.declares_iff.1 declares)

include sound has

/-- Tables of one sort that stand on each other have one grammar if each of them has it. -/
theorem accepts_of_table {table : Entity → ScopeId} {policy : Policy}
    (stands : ∀ e, heap.Has (.entity e) → (heap.scope (table (heap.entity e))).lineage =
      ((heap.entity e).super.map fun base => heap.path (table (heap.entity base))).getD [])
    (policies : ∀ e, heap.Has (.entity e) → (heap.scope (table (heap.entity e))).policy = policy)
    (found : heap.contains (table (heap.entity e)) name = true) : policy.accepts name = true := by
  obtain ⟨layers, walk⟩ := sound.exists_descends has
  refine tidy.accepts_of_contains (fun y place => ?_) found
  rw [sound.path_table stands has walk] at place
  obtain ⟨d, listed, rfl⟩ := List.mem_map.1 place
  exact policies d (sound.has_of_descends has walk d listed)

theorem isIdentifier_of_hasMember (found : heap.hasMember e name = true) :
    isIdentifier name = true :=
  tidy.accepts_of_table sound has sound.members tidy.members found

theorem isHook_of_supportsHook (found : heap.supportsHook e name = true) : isHook name = true :=
  tidy.accepts_of_table sound has sound.hooks tidy.hooks found

theorem isIdentifier_of_field (found : heap.contains (heap.entity e).fields name = true) :
    isIdentifier name = true := by
  have policies : ∀ y ∈ heap.path (heap.entity e).fields, (heap.scope y).policy = .identifier := by
    intro y place
    rw [sound.path_fields has, List.mem_singleton] at place
    rw [place]
    exact tidy.fields e has
  exact tidy.accepts_of_contains policies found

end Tidy

end Heap

end Delegation
