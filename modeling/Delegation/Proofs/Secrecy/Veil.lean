import Mathlib.Data.List.Find
import Delegation.Proofs.Heap.Shape
import Delegation.Proofs.Places
import Delegation.Proofs.Secrecy.Exposure

/-!
# Hidden tables

A secret is a table of fields that may be one thing or another, together with what is lost to the
program: things that are there but cannot be got at, the table among them. A heap hides the secret
if nothing that is not lost refers to anything lost, except that the owner refers to its table.

Putting the other table in its place changes no look-up from a scope that is not lost, and every
change to the heap that keeps to such scopes does the same before and after.
-/

namespace Delegation

/-! ## Secrets -/

/-- A table of fields that may be one thing or another, and what is lost to the program. The two
tables own the same. -/
structure Secret where
  owner : EntityId
  table : ScopeId
  shown : Scope
  other : Scope
  lost : Thing → Prop
  hidden : lost (.node (.scope table))
  open_first : ¬lost (.node (.scope ⟨0⟩))
  owned : other.owned = shown.owned

namespace Secret

variable {secret : Secret}

/-- None of the objects is lost. -/
def Clear (secret : Secret) (xs : List Node) : Prop := ∀ x ∈ xs, ¬secret.lost (.node x)

/-- An object refers to nothing that is lost. -/
def Bare (secret : Secret) (x : Object) : Prop := ∀ y ∈ x.things, ¬secret.lost y

@[simp] theorem clear_nil : secret.Clear [] := List.forall_mem_nil _

@[simp] theorem clear_cons {x : Node} {xs : List Node} :
    secret.Clear (x :: xs) ↔ ¬secret.lost (.node x) ∧ secret.Clear xs := List.forall_mem_cons

theorem clear_singleton {x : Node} : secret.Clear [x] ↔ ¬secret.lost (.node x) := by
  rw [clear_cons, and_iff_left clear_nil]

@[simp] theorem clear_append {xs ys : List Node} :
    secret.Clear (xs ++ ys) ↔ secret.Clear xs ∧ secret.Clear ys := List.forall_mem_append

theorem Clear.subset {xs ys : List Node} (clear : secret.Clear xs) (within : ys ⊆ xs) :
    secret.Clear ys := fun y place => clear y (within place)

theorem clear_chain {chain : Chain} :
    secret.Clear (Chain.owned chain) ↔ ∀ x ∈ chain, ¬secret.lost (.node (.scope x)) :=
  List.forall_mem_map

/-- What an object refers to in the heap is not lost. -/
theorem Bare.refs {x : Object} (bare : secret.Bare x) : secret.Clear x.refs :=
  fun _ place => bare _ (x.refs_subset_things (List.mem_map_of_mem place))

theorem bare_of_map {x : Object} {xs : List Node} (is : x.things = xs.map .node)
    (clear : secret.Clear xs) : secret.Bare x := by
  rw [Bare, is]
  exact List.forall_mem_map.2 clear

theorem bare_value {v : Value} (clear : secret.Clear v.owned) : secret.Bare (.value v) :=
  bare_of_map rfl clear

theorem bare_list {xs : List Object} : secret.Bare (.list xs) ↔ ∀ x ∈ xs, secret.Bare x := by
  constructor
  · exact fun bare x place _ refers => bare _ (Object.mem_thingsAll.2 ⟨x, place, refers⟩)
  · intro all _ place
    obtain ⟨x, listed, refers⟩ := Object.mem_thingsAll.1 place
    exact all x listed _ refers

/-- An object that refers to nothing at all. -/
theorem bare_of_nil {x : Object} (is : x.things = []) : secret.Bare x := by
  rw [Bare, is]
  exact List.forall_mem_nil _

theorem clear_record {super type : Option EntityId} {fields hooks members : ScopeId}
    (superFound : ∀ base ∈ super, ¬secret.lost (.node (.entity base)))
    (typeFound : ∀ d ∈ type, ¬secret.lost (.node (.entity d)))
    (fieldsFound : ¬secret.lost (.node (.scope fields)))
    (hooksFound : ¬secret.lost (.node (.scope hooks)))
    (membersFound : ¬secret.lost (.node (.scope members))) (name : String) :
    secret.Clear (Entity.refs ⟨name, type, super, fields, hooks, members, none⟩) := by
  have openSuper : secret.Clear (super.toList.map .entity) :=
    List.forall_mem_map.2 fun base place => superFound base (Option.mem_toList.1 place)
  have openType : secret.Clear (type.toList.map .entity) :=
    List.forall_mem_map.2 fun d place => typeFound d (Option.mem_toList.1 place)
  simp [Entity.refs, Entity.owned, openSuper, openType, fieldsFound, hooksFound, membersFound]

theorem ne_table {x : ScopeId} (found : ¬secret.lost (.node (.scope x))) : x ≠ secret.table :=
  fun same => found (same ▸ secret.hidden)

end Secret

/-! ## Heaps that hide a secret -/

namespace Heap

/-- The heap with the other table in the place of the one that is hidden. -/
def veil (heap : Heap) (secret : Secret) : Heap := heap.setScope secret.table secret.other

/-- Nothing that is not lost leads to anything lost, except for the owner to its table. -/
structure Hides (secret : Secret) (heap : Heap) : Prop where
  there : secret.table.index < heap.scopes.size
  shown : heap.scope secret.table = secret.shown
  old : ∀ x, secret.lost (.node x) → heap.Has x
  closed : ∀ x, ¬secret.lost (.node x) → secret.Clear (heap.openRefs secret.owner x)

namespace Hides

variable {secret : Secret} {heap : Heap} (hides : heap.Hides secret)

include hides

/-! ### What is not lost -/

theorem scope {x : ScopeId} (found : ¬secret.lost (.node (.scope x))) :
    secret.Clear (heap.scope x).refs := hides.closed _ found

theorem binding {b : BindingId} (found : ¬secret.lost (.node (.binding b))) :
    secret.Clear (heap.binding b).strategy.refs := hides.closed _ found

theorem entity {e : EntityId} (found : ¬secret.lost (.node (.entity e))) :
    secret.Clear (heap.entity e).openRefs := by
  have clear := hides.closed _ found
  rw [openRefs_entity] at clear
  split at clear
  · exact clear
  · exact clear.subset (Entity.openRefs_subset_refs _)

theorem fields {e : EntityId} (found : ¬secret.lost (.node (.entity e)))
    (other : e ≠ secret.owner) : ¬secret.lost (.node (.scope (heap.entity e).fields)) := by
  have clear := hides.closed _ found
  rw [openRefs_entity, if_neg other] at clear
  exact clear _ (by simp [Entity.refs, Entity.owned])

theorem super {e base : EntityId} (found : ¬secret.lost (.node (.entity e)))
    (is : (heap.entity e).super = some base) : ¬secret.lost (.node (.entity base)) :=
  hides.entity found _ (by simp [Entity.openRefs, is])

theorem type {e type : EntityId} (found : ¬secret.lost (.node (.entity e)))
    (is : (heap.entity e).type = some type) : ¬secret.lost (.node (.entity type)) :=
  hides.entity found _ (by simp [Entity.openRefs, is])

theorem derived {e d : EntityId} (found : ¬secret.lost (.node (.entity e)))
    (is : (heap.entity e).derived = some d) : ¬secret.lost (.node (.entity d)) :=
  hides.entity found _ (by simp [Entity.openRefs, is])

theorem hooks {e : EntityId} (found : ¬secret.lost (.node (.entity e))) :
    ¬secret.lost (.node (.scope (heap.entity e).hooks)) :=
  hides.entity found _ (by simp [Entity.openRefs])

theorem members {e : EntityId} (found : ¬secret.lost (.node (.entity e))) :
    ¬secret.lost (.node (.scope (heap.entity e).members)) :=
  hides.entity found _ (by simp [Entity.openRefs])

theorem path {x y : ScopeId} (found : ¬secret.lost (.node (.scope x))) (place : y ∈ heap.path x) :
    ¬secret.lost (.node (.scope y)) := by
  rcases List.mem_cons.1 place with rfl | ancestor
  · exact found
  · exact hides.scope found _ (by simp [Scope.refs, ancestor])

theorem resolve {x y : ScopeId} {name : String} {cell : Cell}
    (found : ¬secret.lost (.node (.scope x))) (leads : heap.resolve x name = some (y, cell)) :
    ¬secret.lost (.node (.scope y)) ∧ secret.Clear cell.owned := by
  obtain ⟨z, place, declares⟩ := List.exists_of_findSome?_eq_some leads
  obtain ⟨_, there, same⟩ := Option.map_eq_some_iff.1 declares
  cases same
  have open_y := hides.path found place
  refine ⟨open_y, fun n owned => hides.scope open_y n ?_⟩
  obtain ⟨before, after, is, _⟩ := List.lookup_eq_some_iff.1 there
  rw [Scope.refs, List.mem_append]
  exact .inr (Cell.mem_ownedByAll.2 ⟨(name, cell), by simp [is], owned⟩)

theorem layersAbove {e d : EntityId} (found : ¬secret.lost (.node (.entity e))) (n : Nat)
    (place : d ∈ heap.layersAbove n e) : ¬secret.lost (.node (.entity d)) := by
  induction n generalizing e with
  | zero => exact absurd place (List.not_mem_nil)
  | succ n ih =>
    unfold Heap.layersAbove at place
    split at place
    · exact absurd place (List.not_mem_nil)
    · next next is =>
      have above := hides.derived found is
      rcases List.mem_cons.1 place with rfl | place
      · exact above
      · exact ih above place

/-! ### Look-ups under the veil -/

theorem scope_veil (x : ScopeId) :
    (heap.veil secret).scope x = if x = secret.table then secret.other else heap.scope x :=
  scope_setScope hides.there _ _

theorem scope_veil_of_open {x : ScopeId} (found : ¬secret.lost (.node (.scope x))) :
    (heap.veil secret).scope x = heap.scope x := by
  rw [hides.scope_veil, if_neg (Secret.ne_table found)]

theorem path_veil {x : ScopeId} (found : ¬secret.lost (.node (.scope x))) :
    (heap.veil secret).path x = heap.path x := by
  rw [Heap.path, hides.scope_veil_of_open found, Heap.path]

theorem resolve_veil {x : ScopeId} (found : ¬secret.lost (.node (.scope x))) (name : String) :
    (heap.veil secret).resolve x name = heap.resolve x name := by
  have same : ∀ y ∈ heap.path x, ((heap.veil secret).scope y).cell? name =
      (heap.scope y).cell? name :=
    fun y place => by rw [hides.scope_veil_of_open (hides.path found place)]
  unfold Heap.resolve
  rw [hides.path_veil found]
  generalize heap.path x = path at same
  induction path with
  | nil => rfl
  | cons y path ih =>
    rw [List.forall_mem_cons] at same
    rw [List.findSome?_cons, List.findSome?_cons, same.1, ih same.2]

theorem contains_veil {x : ScopeId} (found : ¬secret.lost (.node (.scope x))) (name : String) :
    (heap.veil secret).contains x name = heap.contains x name := by
  rw [contains_eq_isSome_resolve, hides.resolve_veil found, contains_eq_isSome_resolve]

theorem cellKind?_veil {x : ScopeId} (found : ¬secret.lost (.node (.scope x))) (name : String) :
    (heap.veil secret).cellKind? x name = heap.cellKind? x name := by
  rw [cellKind?_eq_map_resolve, hides.resolve_veil found, cellKind?_eq_map_resolve]

theorem findScope_veil {chain : Chain} (clear : secret.Clear (Chain.owned chain))
    (name : String) : (heap.veil secret).findScope chain name = heap.findScope chain name :=
  List.find?_congr fun x place => hides.contains_veil (Secret.clear_chain.1 clear x place) name

theorem reportChain_veil {chain : Chain} (clear : secret.Clear (Chain.owned chain)) :
    (heap.veil secret).reportChain chain = heap.reportChain chain := by
  unfold Heap.reportChain
  congr 1
  apply List.map_congr_left
  intro x place
  rw [hides.scope_veil_of_open (Secret.clear_chain.1 clear x place)]

theorem owned_veil : (heap.veil secret).owned = heap.owned := by
  funext x
  cases x with
  | scope x =>
    rw [Heap.owned, hides.scope_veil]
    split
    · next same => rw [secret.owned, ← hides.shown, ← same, Heap.owned]
    · rfl
  | entity | binding => rfl

/-! ### Changes under the veil -/

theorem addScope_veil (scope : Scope) : (heap.veil secret).addScope scope =
    ((heap.addScope scope).1, (heap.addScope scope).2.veil secret) := by
  simp only [addScope, veil, setScope, Array.size_setIfInBounds, Prod.mk.injEq, true_and]
  congr 1
  have there := hides.there
  apply Array.ext_getElem?
  intro i
  simp only [Array.getElem?_push, Array.getElem?_setIfInBounds, Array.size_setIfInBounds,
    Array.size_push]
  by_cases same : secret.table.index = i
  · subst same
    simp [there, Nat.ne_of_lt there, Nat.lt_succ_of_lt there]
  · simp [same]

theorem emptyScope_veil {parent : Option ScopeId}
    (found : ∀ x ∈ parent, ¬secret.lost (.node (.scope x))) (policy : Policy) :
    (heap.veil secret).emptyScope parent policy = heap.emptyScope parent policy := by
  cases parent with
  | none => rfl
  | some x => rw [emptyScope, emptyScope, Option.map_some, hides.path_veil (found x rfl)]; rfl

end Hides

/-- Changing a scope is replacing it. -/
theorem modifyScope_eq (heap : Heap) (x : ScopeId) (f : Scope → Scope) :
    heap.modifyScope x f = heap.setScope x (f (heap.scope x)) := by
  unfold modifyScope setScope Heap.scope
  congr 1
  apply Array.ext_getElem?
  intro i
  simp only [Array.getElem?_modify, Array.getElem?_setIfInBounds, Array.getD_eq_getD_getElem?]
  by_cases same : x.index = i
  · subst same
    by_cases there : x.index < heap.scopes.size <;> simp [there]
  · simp [same]

theorem setScope_veil {secret : Secret} (heap : Heap) {x : ScopeId}
    (found : ¬secret.lost (.node (.scope x))) (scope : Scope) :
    (heap.veil secret).setScope x scope = (heap.setScope x scope).veil secret := by
  have apart : secret.table.index ≠ x.index := fun same =>
    Secret.ne_table found (congrArg ScopeId.mk same.symm)
  simp only [veil, setScope, Array.setIfInBounds_comm _ _ apart]

/-! ### Changes that keep a secret -/

theorem Hides.addScope {secret : Secret} {heap : Heap} (hides : heap.Hides secret) {scope : Scope}
    (clear : secret.Clear scope.refs) : (heap.addScope scope).2.Hides secret where
  there := (grows_addScope heap scope).has (.scope _) hides.there
  shown := (scope_addScope_of_lt scope hides.there).trans hides.shown
  old x lost := (grows_addScope heap scope).has x (hides.old x lost)
  closed x found := by
    cases x with
    | scope y =>
      exact Array.getD_push_of (P := fun scope : Scope => secret.Clear scope.refs)
        (hides.scope found) clear
    | entity | binding => exact hides.closed _ found

theorem Hides.addBinding {secret : Secret} {heap : Heap} (hides : heap.Hides secret)
    {binding : Binding} (clear : secret.Clear binding.strategy.refs) :
    (heap.addBinding binding).2.Hides secret where
  there := hides.there
  shown := hides.shown
  old x lost := (grows_addBinding heap binding).has x (hides.old x lost)
  closed x found := by
    cases x with
    | binding b =>
      exact Array.getD_push_of (P := fun binding : Binding => secret.Clear binding.strategy.refs)
        (hides.binding found) clear
    | scope | entity => exact hides.closed _ found

theorem Hides.setScope {secret : Secret} {heap : Heap} (hides : heap.Hides secret) {x : ScopeId}
    (found : ¬secret.lost (.node (.scope x))) {scope : Scope} (clear : secret.Clear scope.refs) :
    (heap.setScope x scope).Hides secret where
  there := by
    rw [Heap.setScope, Array.size_setIfInBounds]
    exact hides.there
  shown := by
    have apart : x.index ≠ secret.table.index := fun same =>
      Secret.ne_table found (congrArg ScopeId.mk same)
    rw [← hides.shown]
    exact Array.getD_setIfInBounds_of_ne apart scope default
  old y lost := by
    have has := hides.old y lost
    cases y with
    | scope => simpa [Has, Heap.setScope] using has
    | entity | binding => exact has
  closed y open_y := by
    cases y with
    | scope y =>
      exact Array.getD_setIfInBounds_of (P := fun scope : Scope => secret.Clear scope.refs)
        (hides.scope open_y) clear x.index
    | entity | binding => exact hides.closed _ open_y

/-- The owner of a secret may be linked to a derived entity as well as any other entity. -/
theorem Hides.linkDerived {secret : Secret} {heap : Heap} (hides : heap.Hides secret)
    (base : EntityId) {d : EntityId} (found : ¬secret.lost (.node (.entity d))) :
    (heap.linkDerived base d).Hides secret where
  there := hides.there
  shown := hides.shown
  old x lost := by
    have has := hides.old x lost
    cases x with
    | entity => simpa [Has, Heap.linkDerived] using has
    | scope | binding => exact has
  closed x open_x := by
    have clear := hides.closed x open_x
    cases x with
    | entity e =>
      rw [openRefs_entity] at clear ⊢
      have linked : (heap.linkDerived base d).entity e = heap.entity e ∨
          (heap.linkDerived base d).entity e = { heap.entity e with derived := some d } := by
        simp only [Heap.entity, Heap.linkDerived, Array.getD_eq_getD_getElem?,
          Array.getElem?_modify]
        split
        · cases heap.entities[e.index]? with
          | none => exact .inl rfl
          | some record => exact .inr rfl
        · exact .inl rfl
      rcases linked with same | same
      · rw [same]
        exact clear
      · rw [same]
        split at clear
        · next owner => simp_all [Entity.openRefs]
        · next other => simp_all [Entity.refs, Entity.owned]
    | scope | binding => exact clear

theorem Hides.addRecord {secret : Secret} {heap : Heap} (hides : heap.Hides secret)
    {record : Entity} (clear : secret.Clear record.refs) :
    ({ heap with entities := heap.entities.push record } : Heap).Hides secret where
  there := hides.there
  shown := hides.shown
  old x lost := by
    have has := hides.old x lost
    cases x with
    | entity => exact Nat.lt_of_lt_of_le has (by simp)
    | scope | binding => exact has
  closed x found := by
    cases x with
    | entity e =>
      have clearOld := hides.closed _ found
      have clearNew : secret.Clear (if e = secret.owner then record.openRefs else record.refs) := by
        split
        · exact clear.subset record.openRefs_subset_refs
        · exact clear
      rw [openRefs_entity] at clearOld ⊢
      exact Array.getD_push_of (P := fun record : Entity =>
        secret.Clear (if e = secret.owner then record.openRefs else record.refs)) clearOld clearNew
    | scope | binding => exact hides.closed _ found

namespace Hides

variable {secret : Secret} {heap : Heap} (hides : heap.Hides secret)

include hides

theorem fresh_scope : ¬secret.lost (.node (.scope ⟨heap.scopes.size⟩)) :=
  fun lost => Nat.lt_irrefl _ (hides.old _ lost)

theorem fresh_binding : ¬secret.lost (.node (.binding ⟨heap.bindings.size⟩)) :=
  fun lost => Nat.lt_irrefl _ (hides.old _ lost)

theorem fresh_entity : ¬secret.lost (.node (.entity ⟨heap.entities.size⟩)) :=
  fun lost => Nat.lt_irrefl _ (hides.old _ lost)

theorem clear_emptyScope {parent : Option ScopeId}
    (found : ∀ x ∈ parent, ¬secret.lost (.node (.scope x))) (policy : Policy) :
    secret.Clear (heap.emptyScope parent policy).refs := by
  cases parent with
  | none => exact Secret.clear_nil
  | some x =>
    refine Secret.clear_append.2 ⟨Secret.clear_chain.2 fun y place => ?_, Secret.clear_nil⟩
    exact hides.path (found x rfl) place

variable {super type : Option EntityId}
  (superFound : ∀ base ∈ super, ¬secret.lost (.node (.entity base)))

include superFound

theorem openHooks : ∀ x ∈ super.map fun base => (heap.entity base).hooks,
    ¬secret.lost (.node (.scope x)) := by
  intro x is
  obtain ⟨base, built, rfl⟩ := Option.map_eq_some_iff.1 is
  exact hides.hooks (superFound base built)

theorem openMembers : ∀ x ∈ super.map fun base => (heap.entity base).members,
    ¬secret.lost (.node (.scope x)) := by
  intro x is
  obtain ⟨base, built, rfl⟩ := Option.map_eq_some_iff.1 is
  exact hides.members (superFound base built)

theorem addEntity (typeFound : ∀ d ∈ type, ¬secret.lost (.node (.entity d))) (name : String) :
    (heap.addEntity super type name).2.Hides secret := by
  have hooks := hides.openHooks superFound
  have members := hides.openMembers superFound
  -- the tables come first, then the record that names them, then the link from below
  have withHooks := hides.addScope (hides.clear_emptyScope hooks .hook)
  have withMembers := withHooks.addScope (withHooks.clear_emptyScope members .identifier)
  have rootClear : secret.Clear (Scope.root .identifier).refs := Secret.clear_nil
  have withFields := withMembers.addScope rootClear
  have made := withFields.addRecord (Secret.clear_record superFound typeFound
    withMembers.fresh_scope hides.fresh_scope withHooks.fresh_scope name)
  cases super with
  | none => exact made
  | some base => exact made.linkDerived base hides.fresh_entity

theorem addEntity_veil (type : Option EntityId) (name : String) :
    (heap.veil secret).addEntity super type name =
      ((heap.addEntity super type name).1, (heap.addEntity super type name).2.veil secret) := by
  have hooks := hides.openHooks superFound
  have members := hides.openMembers superFound
  have withHooks := hides.addScope (hides.clear_emptyScope hooks .hook)
  have withMembers := withHooks.addScope (withHooks.clear_emptyScope members .identifier)
  have veiled (heap : Heap) (e : EntityId) : (heap.veil secret).entity e = heap.entity e := rfl
  have grown (heap : Heap) (scope : Scope) (e : EntityId) :
      (heap.addScope scope).2.entity e = heap.entity e := rfl
  simp only [Heap.addEntity, veiled, grown]
  rw [hides.emptyScope_veil hooks, hides.addScope_veil]
  dsimp only
  rw [withHooks.emptyScope_veil members, withHooks.addScope_veil, withMembers.addScope_veil]
  cases super <;> rfl

end Hides

end Heap

end Delegation
