import Delegation.Proofs.Heap.Layers
import Delegation.Proofs.Run.Operands

/-!
# Who is alive

What roots own is in the heap, and so is what is owned from there; what is not in the heap counts as
released. An entity owns its super-entity, so one that is alive keeps alive all layers below it.
-/

namespace Delegation

/-! ## What is owned is in the heap -/

theorem Scope.owned_subset_refs (scope : Scope) : scope.owned ⊆ scope.refs := by
  unfold Scope.owned Scope.refs
  split
  · next parent is =>
    refine List.cons_subset.2 ⟨List.mem_append_left _ ?_, List.subset_append_right _ _⟩
    exact List.mem_map_of_mem (List.mem_of_mem_head? is)
  · exact List.subset_append_right _ _

theorem Strategy.owned_subset_refs (strategy : Strategy) : strategy.owned ⊆ strategy.refs := by
  cases strategy <;> first | exact List.Subset.refl _ | exact List.nil_subset _

theorem Heap.owned_subset_refs (heap : Heap) (x : Node) : heap.owned x ⊆ heap.refs x := by
  cases x with
  | scope s => exact (heap.scope s).owned_subset_refs
  | entity e => exact List.subset_append_left _ _
  | binding b => exact (heap.binding b).strategy.owned_subset_refs

theorem Heap.owned_addScope {heap : Heap} {scope : Scope} {x y : Node}
    (has : (heap.addScope scope).2.Has y) (owned : x ∈ (heap.addScope scope).2.owned y) :
    heap.Has y ∧ x ∈ heap.owned y ∨ x ∈ scope.owned := by
  cases y with
  | entity | binding => exact .inl ⟨has, owned⟩
  | scope z =>
    by_cases old : heap.Has (.scope z)
    · rw [Heap.owned, scope_addScope_of_lt scope old] at owned
      exact .inl ⟨old, owned⟩
    · rw [Heap.owned, eq_addScope has old, scope_addScope] at owned
      exact .inr owned

theorem Heap.owned_subset_addScope {heap : Heap} {y : Node} (has : heap.Has y) (scope : Scope) :
    heap.owned y ⊆ (heap.addScope scope).2.owned y := by
  cases y with
  | entity | binding => exact List.Subset.refl _
  | scope x =>
    rw [Heap.owned, Heap.owned, scope_addScope_of_lt scope has]
    exact List.Subset.refl _

theorem Heap.owned_addBinding {heap : Heap} {binding : Binding} {x y : Node}
    (has : (heap.addBinding binding).2.Has y) (owned : x ∈ (heap.addBinding binding).2.owned y) :
    heap.Has y ∧ x ∈ heap.owned y ∨ x ∈ binding.strategy.owned := by
  cases y with
  | scope | entity => exact .inl ⟨has, owned⟩
  | binding b =>
    by_cases old : heap.Has (.binding b)
    · rw [Heap.owned, binding_addBinding_of_lt binding old] at owned
      exact .inl ⟨old, owned⟩
    · rw [Heap.owned, eq_addBinding has old, binding_addBinding] at owned
      exact .inr owned

theorem Heap.owned_subset_addBinding {heap : Heap} {y : Node} (has : heap.Has y)
    (binding : Binding) : heap.owned y ⊆ (heap.addBinding binding).2.owned y := by
  cases y with
  | scope | entity => exact List.Subset.refl _
  | binding b =>
    rw [Heap.owned, Heap.owned, binding_addBinding_of_lt binding has]
    exact List.Subset.refl _

namespace Session

variable {s : Session}

theorem Grounded.machineAt (grounded : s.Grounded) (m : MachineId) :
    s.heap.HasAll (s.machineAt m).owned := by
  unfold Session.machineAt
  split
  · exact grounded.machine
  · exact grounded.machineOr m

mutual

theorem Grounded.ownedBy (grounded : s.Grounded) (x : Object) (known : s.heap.HasAll x.refs) :
    s.heap.HasAll (s.ownedBy x) := by
  cases x with
  | value | scope | cell | frame | registry => exact known
  | callable | weak | failure => exact Heap.hasAll_nil _
  | chain c => exact grounded.chain c
  | stack shared => exact grounded.stackOr (some shared)
  | builder b =>
    unfold Session.ownedBy
    cases is : s.builders.getD b.index none with
    | none => exact Heap.hasAll_nil _
    | some registry => exact grounded.builder is
  | machine m => exact grounded.machineAt m
  | list items => exact grounded.ownedByAll items known

theorem Grounded.ownedByAll (grounded : s.Grounded) (xs : List Object)
    (known : s.heap.HasAll (Object.refsAll xs)) : s.heap.HasAll (s.ownedByAll xs) := by
  cases xs with
  | nil => exact Heap.hasAll_nil _
  | cons x xs =>
    have parts := Heap.hasAll_append.1 known
    exact Heap.hasAll_append.2 ⟨grounded.ownedBy x parts.1, grounded.ownedByAll xs parts.2⟩

end

theorem Grounded.roots (grounded : s.Grounded) : s.heap.HasAll s.roots := by
  unfold Session.roots
  rw [Heap.hasAll_append, Heap.hasAll_append]
  refine ⟨⟨fun x place => ?_, fun x place => ?_⟩, grounded.machine⟩
  · obtain ⟨entry, listed, owned⟩ := List.mem_flatMap.1 place
    exact grounded.ownedBy entry.2 (grounded.vars entry listed) x owned
  · obtain ⟨y, listed, owned⟩ := List.mem_flatMap.1 place
    exact grounded.ownedBy y (grounded.held y listed) x owned

/-! ## What is released -/

theorem Sound.has_owned (sound : s.Sound) {x y : Node} (has : s.heap.Has y)
    (owned : x ∈ s.heap.owned y) : s.heap.Has x :=
  sound.heap.closed y has x (s.heap.owned_subset_refs y owned)

theorem owned_of_not_has {heap : Heap} {x y : Node} (absent : ¬heap.Has y)
    (owned : x ∈ heap.owned y) : x = .scope ⟨0⟩ := by
  cases y with
  | scope t =>
    have is : heap.scope t = .root .identifier := dif_neg absent
    simp [Heap.owned, is, Scope.owned, Scope.parent, Scope.root, Cell.ownedByAll] at owned
  | entity e =>
    have is : heap.entity e = ⟨"", none, none, ⟨0⟩, ⟨0⟩, ⟨0⟩, none⟩ :=
      dif_neg absent
    simpa [Heap.owned, is, Entity.owned] using owned
  | binding b =>
    have is : heap.binding b = ⟨.nullary "" (.script 0), .function none⟩ :=
      dif_neg absent
    simp [Heap.owned, is, Strategy.owned] at owned

/-- What is not in the heap counts as released. -/
theorem Sound.released_of_not_has (sound : s.Sound) {x : Node} (absent : ¬s.heap.Has x) :
    s.Released x := by
  refine .intro x (fun rooted => absent (sound.toGrounded.roots x rooted)) fun y owned => ?_
  by_cases has : s.heap.Has y
  · exact absurd (sound.has_owned has owned) absent
  · rw [owned_of_not_has has owned] at absent
    exact absurd sound.inhabited absent

/-- An entity is not released before all that is built on it. -/
theorem Released.of_super {e base : EntityId} (released : s.Released (.entity base))
    (is : (s.heap.entity e).super = some base) : s.Released (.entity e) := by
  cases released with
  | intro _ _ owners => exact owners (.entity e) (by simp [Heap.owned, Entity.owned, is])

theorem Released.of_mem_layersAbove {e d : EntityId} (released : s.Released (.entity e))
    (sound : s.heap.Sound) (has : s.heap.Has (.entity e)) (above : d ∈ s.layersAbove e) :
    s.Released (.entity d) := by
  revert released above
  refine sound.layers_induction
    (motive := fun e => s.Released (.entity e) → d ∈ s.layersAbove e → s.Released (.entity d))
    (fun e has ih released above => ?_) has
  obtain ⟨next, is, place⟩ := (mem_layersAbove sound has).1 above
  have gone := released.of_super (sound.superOfDerived e next has is).1
  rcases place with rfl | above
  · exact gone
  · exact ih next is gone above

theorem Released.not_rooted {x : Node} (released : s.Released x) : x ∉ s.roots := by
  cases released with
  | intro _ unrooted _ => exact unrooted

end Session

end Delegation
