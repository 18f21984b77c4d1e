import Delegation.Proofs.Heap.Shape

/-!
# The order in which heaps are made

What stands on something is younger than what it stands on, so a walk from a scope to its parent, to
the parent of that one and so on comes to an end, and the line of ancestors that a scope keeps is
that walk. An entity makes its tables when it is made and shares none of them with another one.

Each of the six steps keeps this: it adds behind what there is, and lets nothing change where it
stands.
-/

namespace Delegation

/-! ## Walks -/

/-- The walk from a first member to the next one, as long as there is one. -/
inductive Climbs {α : Type} (next : α → Option α) : α → List α → Prop
  | top {a : α} (last : next a = none) : Climbs next a [a]
  | up {a b : α} {rest : List α} (is : next a = some b) (further : Climbs next b rest) :
      Climbs next a (a :: rest)

namespace Climbs

variable {α : Type} {next : α → Option α} {a b : α} {path other : List α}

theorem unique (climbs : Climbs next a path) (climbs' : Climbs next a other) : path = other := by
  induction climbs generalizing other with
  | top last =>
    cases climbs' with
    | top => rfl
    | up is => exact absurd (last.symm.trans is) nofun
  | up is _ ih =>
    cases climbs' with
    | top last => exact absurd (last.symm.trans is) nofun
    | up is' further =>
      obtain rfl := Option.some.inj (is.symm.trans is')
      rw [ih further]

theorem mem_iff (climbs : Climbs next a path) :
    b ∈ path ↔ Relation.ReflTransGen (fun x y => next x = some y) a b := by
  induction climbs with
  | @top a last =>
    rw [List.mem_singleton]
    refine ⟨fun same => same ▸ .refl, fun reached => ?_⟩
    rcases reached.cases_head with same | ⟨_, is, _⟩
    · exact same.symm
    · exact absurd (last.symm.trans is) nofun
  | @up a c rest is _ ih =>
    rw [List.mem_cons, ih]
    constructor
    · rintro (rfl | reached)
      · exact .refl
      · exact .head is reached
    · intro reached
      rcases reached.cases_head with same | ⟨d, is', reached⟩
      · exact .inl same.symm
      · obtain rfl := Option.some.inj (is.symm.trans is')
        exact .inr reached

end Climbs

namespace Heap

/-- A walk from a scope to its ancestors. -/
abbrev Ascends (heap : Heap) : ScopeId → List ScopeId → Prop :=
  Climbs fun x => (heap.scope x).parent

/-- A walk from an entity through the layers below it. -/
abbrev Descends (heap : Heap) : EntityId → List EntityId → Prop :=
  Climbs fun e => (heap.entity e).super

/-! ## The order -/

/-- How a heap is ordered. A scope that has a parent is younger than it and has its line of
ancestors behind it. The tables of an entity lie side by side, behind those of older entities. -/
structure Ordered (heap : Heap) : Prop where
  parent : ∀ x p, heap.Has (.scope x) → (heap.scope x).parent = some p →
    p.index < x.index ∧ (heap.scope x).lineage = heap.path p
  tables : ∀ e, heap.Has (.entity e) →
    (heap.entity e).members.index = (heap.entity e).hooks.index + 1 ∧
      (heap.entity e).fields.index = (heap.entity e).hooks.index + 2
  apart : ∀ d e, heap.Has (.entity d) → heap.Has (.entity e) → d.index < e.index →
    (heap.entity d).fields.index < (heap.entity e).hooks.index

theorem ordered_empty : Heap.Ordered {} where
  parent _ _ has := absurd has (Nat.not_lt_zero _)
  tables _ has := absurd has (Nat.not_lt_zero _)
  apart _ _ has := absurd has (Nat.not_lt_zero _)

namespace Ordered

variable {heap after : Heap} (ordered : heap.Ordered)
include ordered

theorem parent_of_grows (grows : heap.Grows after)
    (new : ∀ x, after.Has (.scope x) → ¬heap.Has (.scope x) → ∃ parent : Option ScopeId,
      (∀ p ∈ parent, heap.Has (.scope p)) ∧
        (after.scope x).lineage = (parent.map heap.path).getD [])
    (x p : ScopeId) (has : after.Has (.scope x)) (is : (after.scope x).parent = some p) :
    p.index < x.index ∧ (after.scope x).lineage = after.path p := by
  by_cases old : heap.Has (.scope x)
  · have lineage := (grows.scope x old).lineage
    rw [Scope.parent, lineage] at is
    obtain ⟨older, line⟩ := ordered.parent x p old is
    have pHas : heap.Has (.scope p) := Nat.lt_trans older old
    exact ⟨older, by rw [lineage, line, grows.path pHas]⟩
  · obtain ⟨parent, known, line⟩ := new x has old
    rw [Scope.parent, line] at is
    cases parent with
    | none => cases is
    | some q =>
      obtain rfl : q = p := Option.some.inj is
      have pHas := known q rfl
      have younger : q.index < x.index := Nat.lt_of_lt_of_le pHas (Nat.le_of_not_lt old)
      exact ⟨younger, by rw [line, grows.path pHas]; rfl⟩

/-- As long as no entity is added, and no scope that stands on new ones, the order stays. -/
theorem of_same_entities (grows : heap.Grows after) (entities : after.entities = heap.entities)
    (new : ∀ x, after.Has (.scope x) → ¬heap.Has (.scope x) → ∃ parent : Option ScopeId,
      (∀ p ∈ parent, heap.Has (.scope p)) ∧
        (after.scope x).lineage = (parent.map heap.path).getD []) : after.Ordered := by
  have has (e : EntityId) : after.Has (.entity e) → heap.Has (.entity e) := by
    simp only [Has, entities, imp_self]
  have same (e : EntityId) : after.entity e = heap.entity e := by simp only [Heap.entity, entities]
  refine ⟨ordered.parent_of_grows grows new, fun e is => ?_, fun d e is is' older => ?_⟩
  · rw [same]
    exact ordered.tables e (has e is)
  · rw [same, same]
    exact ordered.apart d e (has d is) (has e is') older

theorem addScope {scope : Scope} (admitted : heap.Admits scope) :
    (heap.addScope scope).2.Ordered := by
  refine ordered.of_same_entities (grows_addScope heap scope) rfl fun x has new => ?_
  have made : x = (heap.addScope scope).1 := eq_addScope has new
  obtain ⟨parent, line⟩ := admitted.lineage
  refine ⟨parent, fun p is => admitted.known _ ?_, by rw [made, Heap.scope_addScope, line]⟩
  cases is
  have listed : p ∈ scope.lineage := by
    rw [line]
    exact List.mem_cons_self
  simp [Scope.refs, listed]

theorem addEntity (sound : heap.Sound) {super type : Option EntityId} (name : String)
    (superKnown : ∀ base ∈ super, heap.Has (.entity base))
    (free : ∀ base ∈ super, (heap.entity base).derived = none) :
    (heap.addEntity super type name).2.Ordered := by
  have grows := grows_addEntity superKnown free type name
  have stands (table : Entity → ScopeId) (known : ∀ e, heap.Has (.entity e) →
      heap.Has (.scope (table (heap.entity e)))) (policy : Policy) :
      ∃ parent : Option ScopeId, (∀ p ∈ parent, heap.Has (.scope p)) ∧
        (heap.emptyScope (super.map fun b => table (heap.entity b)) policy).lineage =
          (parent.map heap.path).getD [] := by
    refine ⟨super.map fun b => table (heap.entity b), fun p is => ?_, rfl⟩
    obtain ⟨base, there, rfl⟩ := Option.map_eq_some_iff.1 is
    exact known base (superKnown base there)
  refine ⟨ordered.parent_of_grows grows fun x has new => ?_, fun e has => ?_,
    fun d e has has' older => ?_⟩
  · rw [sound.scope_addEntity name superKnown]
    simp only [Has, size_scopes_addEntity] at has new
    split
    · exact stands Entity.hooks (fun e h => (sound.has_tables h).2.1) _
    · split
      · exact stands Entity.members (fun e h => (sound.has_tables h).2.2) _
      · split
        · exact ⟨none, fun p place => absurd place (Option.not_mem_none p), rfl⟩
        · omega
  · rcases has_addEntity has with old | new
    · have grown := grows.entity e old
      rw [grown.members, grown.hooks, grown.fields]
      exact ordered.tables e old
    · rw [entity_addEntity superKnown, if_pos new]
      exact ⟨rfl, rfl⟩
  · rcases has_addEntity has' with old' | new'
    · have old : heap.Has (.entity d) := Nat.lt_trans older old'
      rw [(grows.entity d old).fields, (grows.entity e old').hooks]
      exact ordered.apart d e old old' older
    · have old : heap.Has (.entity d) := Nat.lt_of_lt_of_eq older new'
      rw [(grows.entity d old).fields, entity_addEntity superKnown, if_pos new']
      exact (sound.has_tables old).1

end Ordered

theorem Step.ordered {captures : Frame → Prop} {heap after : Heap}
    (step : Step captures heap after) (sound : heap.Sound) (ordered : heap.Ordered) :
    after.Ordered := by
  have grows := step.grows
  cases step with
  | addScope admitted => exact ordered.addScope admitted
  | addBinding => exact ordered.of_same_entities grows rfl fun x has new => absurd has new
  | addEntity name superKnown _ free => exact ordered.addEntity sound name superKnown free
  | declare | store | close =>
    refine ordered.of_same_entities grows rfl fun x has new => absurd ?_ new
    simpa [Has, setScope, modifyScope] using has

theorem Later.ordered {heap after : Heap} (later : Later heap after) (sound : heap.Sound)
    (ordered : heap.Ordered) : after.Ordered := by
  induction later with
  | refl => exact ordered
  | tail before step ih => exact step.ordered (Later.sound before sound) ih

/-! ## Walks in an ordered heap -/

variable {heap : Heap} {x y : ScopeId} {d e base : EntityId} {layers : List EntityId}

/-- The path of a scope is the walk to its ancestors, and comes by older and older scopes. -/
theorem Ordered.path (ordered : heap.Ordered) (has : heap.Has (.scope x)) :
    heap.Ascends x (heap.path x) ∧ (heap.path x).Pairwise fun y z => z.index < y.index := by
  generalize age : x.index = n
  induction n using Nat.strongRecOn generalizing x with
  | ind n ih =>
    cases is : (heap.scope x).parent with
    | none =>
      have alone : heap.path x = [x] := by
        rw [Heap.path, List.head?_eq_none_iff.1 is]
      rw [alone]
      exact ⟨.top is, List.pairwise_singleton _ _⟩
    | some p =>
      obtain ⟨older, line⟩ := ordered.parent x p has is
      have behind : heap.path x = x :: heap.path p := by rw [Heap.path, line]
      obtain ⟨walk, aging⟩ := ih p.index (by omega) (Nat.lt_trans older has) rfl
      rw [behind]
      refine ⟨.up is walk, List.pairwise_cons.2 ⟨fun z place => ?_, aging⟩⟩
      rcases List.mem_cons.1 place with rfl | further
      · exact older
      · exact Nat.lt_trans ((List.pairwise_cons.1 aging).1 z further) older

theorem Ordered.path_eq (ordered : heap.Ordered) (has : heap.Has (.scope x))
    {path : List ScopeId} (walk : heap.Ascends x path) : path = heap.path x :=
  walk.unique (ordered.path has).1

/-- Below every entity is a walk through layers. -/
theorem Sound.exists_descends (sound : heap.Sound) (has : heap.Has (.entity e)) :
    ∃ layers, heap.Descends e layers := by
  refine sound.super_induction (motive := fun e => ∃ layers, heap.Descends e layers)
    (fun e _ ih => ?_) has
  cases is : (heap.entity e).super with
  | none => exact ⟨[e], .top is⟩
  | some base =>
    obtain ⟨layers, further⟩ := ih base is
    exact ⟨e :: layers, .up is further⟩

theorem Sound.has_of_descends (sound : heap.Sound) (has : heap.Has (.entity e))
    (walk : heap.Descends e layers) : ∀ d ∈ layers, heap.Has (.entity d) := by
  induction walk with
  | top => exact List.forall_mem_singleton.2 has
  | up is _ ih => exact List.forall_mem_cons.2 ⟨has, ih (sound.has_super has is)⟩

/-- Tables that stand on those of the super-entity stand on those of all layers below, one behind
the other. -/
theorem Sound.path_table (sound : heap.Sound) {table : Entity → ScopeId}
    (stands : ∀ e, heap.Has (.entity e) → (heap.scope (table (heap.entity e))).lineage =
      ((heap.entity e).super.map fun base => heap.path (table (heap.entity base))).getD [])
    (has : heap.Has (.entity e)) (walk : heap.Descends e layers) :
    heap.path (table (heap.entity e)) = layers.map fun d => table (heap.entity d) := by
  induction walk with
  | @top e last =>
    rw [Heap.path, stands e has, last]
    rfl
  | @up e base layers is _ ih =>
    rw [Heap.path, stands e has, is]
    exact congrArg (table (heap.entity e) :: ·) (ih (sound.has_super has is))

theorem Sound.path_members (sound : heap.Sound) (has : heap.Has (.entity e))
    (walk : heap.Descends e layers) :
    heap.path (heap.entity e).members = layers.map fun d => (heap.entity d).members :=
  sound.path_table sound.members has walk

theorem Sound.path_fields (sound : heap.Sound) (has : heap.Has (.entity e)) :
    heap.path (heap.entity e).fields = [(heap.entity e).fields] := by
  rw [Heap.path, sound.fields e has]

/-! ## Tables of entities -/

theorem Ordered.tables_ne (ordered : heap.Ordered) (has : heap.Has (.entity d))
    (has' : heap.Has (.entity e)) (other : d ≠ e) :
    (heap.entity d).fields ≠ (heap.entity e).fields ∧
      (heap.entity d).members ≠ (heap.entity e).members := by
  have sides := ordered.tables d has
  have sides' := ordered.tables e has'
  have distinct : d.index ≠ e.index := fun same => other (by cases d; cases e; simp_all)
  have apart : (heap.entity d).hooks.index ≠ (heap.entity e).hooks.index := by
    rcases Nat.lt_or_gt_of_ne distinct with older | younger
    · have behind := ordered.apart d e has has' older
      omega
    · have behind := ordered.apart e d has' has younger
      omega
  refine ⟨fun same => ?_, fun same => ?_⟩ <;> rw [same] at sides <;> omega

theorem Ordered.fields_ne_members (ordered : heap.Ordered) (has : heap.Has (.entity d))
    (has' : heap.Has (.entity e)) : (heap.entity d).fields ≠ (heap.entity e).members := by
  have sides := ordered.tables d has
  have sides' := ordered.tables e has'
  intro same
  rw [same] at sides
  rcases Nat.lt_trichotomy d.index e.index with older | alike | younger
  · have behind := ordered.apart d e has has' older
    rw [same] at behind
    omega
  · have one : d = e := by cases d; cases e; simp_all
    subst one
    omega
  · have behind := ordered.apart e d has' has younger
    omega

end Heap

end Delegation
