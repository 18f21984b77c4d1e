import Delegation.Proofs.Liveness.Receiver

/-!
# Holding more

A call adds to what a session owns: it holds its callee, pushes a frame and makes scopes for it.
What was alive before is alive then. As long as all that is added is alive anyway or new, nothing
comes back to life either, and every entity keeps its receiver.
-/

namespace Delegation

namespace Session

variable {s t : Session}

/-! ## What roots own -/

/-- Two sessions with the same variables and shared things. -/
structure Beside (s t : Session) : Prop where
  vars : t.vars = s.vars
  running : t.running = s.running
  machines : t.machines = s.machines
  sharedChains : t.sharedChains = s.sharedChains
  sharedStacks : t.sharedStacks = s.sharedStacks
  builders : t.builders = s.builders

theorem Beside.symm (beside : Beside s t) : Beside t s :=
  ⟨beside.vars.symm, beside.running.symm, beside.machines.symm, beside.sharedChains.symm,
    beside.sharedStacks.symm, beside.builders.symm⟩

variable {gone : List Node}

theorem Beside.machineAt (beside : Beside s t)
    (machine : s.machine.owned ⊆ t.machine.owned ++ gone) (m : MachineId) :
    (s.machineAt m).owned ⊆ (t.machineAt m).owned ++ gone := by
  unfold Session.machineAt
  rw [beside.running, beside.machines]
  split
  · exact machine
  · exact List.subset_append_left _ _

mutual

theorem Beside.ownedBy (beside : Beside s t)
    (machine : s.machine.owned ⊆ t.machine.owned ++ gone) (x : Object) :
    s.ownedBy x ⊆ t.ownedBy x ++ gone := by
  cases x with
  | value | scope | cell | frame | registry | callable | weak | failure =>
    exact List.subset_append_left _ _
  | chain c =>
    simp only [Session.ownedBy, Session.chain, beside.sharedChains]
    exact List.subset_append_left _ _
  | stack shared =>
    simp only [Session.ownedBy, Session.stack, beside.sharedStacks]
    exact List.subset_append_left _ _
  | builder b =>
    simp only [Session.ownedBy, beside.builders]
    exact List.subset_append_left _ _
  | machine m => exact beside.machineAt machine m
  | list items => exact beside.ownedByAll machine items

theorem Beside.ownedByAll (beside : Beside s t)
    (machine : s.machine.owned ⊆ t.machine.owned ++ gone) (xs : List Object) :
    s.ownedByAll xs ⊆ t.ownedByAll xs ++ gone := by
  cases xs with
  | nil => exact List.nil_subset _
  | cons x xs =>
    intro y owned
    simp only [Session.ownedByAll, List.mem_append] at owned ⊢
    rcases owned with here | further
    · exact (List.mem_append.1 (beside.ownedBy machine x here)).imp .inl id
    · exact (List.mem_append.1 (beside.ownedByAll machine xs further)).imp .inr id

end

/-- What is owned from outside the heap stays so, apart from what is held no longer and what the
machine has let go. -/
theorem Beside.roots (beside : Beside s t) (machine : s.machine.owned ⊆ t.machine.owned ++ gone)
    (held : ∀ x ∈ s.held, x ∈ t.held ∨ s.ownedBy x ⊆ gone) :
    s.roots ⊆ t.roots ++ gone := by
  intro x rooted
  simp only [Session.roots, List.mem_append, List.mem_flatMap] at rooted ⊢
  rcases rooted with (⟨entry, listed, owned⟩ | ⟨y, listed, owned⟩) | owned
  · exact (List.mem_append.1 (beside.ownedBy machine _ owned)).imp
      (fun still => .inl (.inl ⟨entry, beside.vars ▸ listed, still⟩)) id
  · rcases held y listed with still | gone
    · exact (List.mem_append.1 (beside.ownedBy machine _ owned)).imp
        (fun owned => .inl (.inr ⟨y, still, owned⟩)) id
    · exact .inr (gone owned)
  · exact (List.mem_append.1 (machine owned)).imp .inr id

theorem Beside.roots_subset (beside : Beside s t) (machine : s.machine.owned ⊆ t.machine.owned)
    (held : s.held ⊆ t.held) : s.roots ⊆ t.roots := by
  have kept : s.roots ⊆ t.roots ++ [] :=
    beside.roots (by rwa [List.append_nil]) fun _ place => .inl (held place)
  rwa [List.append_nil] at kept

/-! ## Owning no less -/

/-- A session that owns all that another one does. -/
structure Retains (s t : Session) : Prop where
  roots : s.roots ⊆ t.roots
  owned : ∀ y, s.heap.Has y → s.heap.owned y ⊆ t.heap.owned y

theorem Retains.released (retains : Retains s t) (sound : s.Sound) {x : Node}
    (released : t.Released x) : s.Released x := by
  induction released with
  | intro x unrooted _ ih =>
    refine .intro x (fun rooted => unrooted (retains.roots rooted)) fun y owned => ?_
    by_cases has : s.heap.Has y
    · exact ih y (retains.owned y has owned)
    · exact sound.released_of_not_has has

theorem Retains.isLive (retains : Retains s t) (sound : s.Sound) (soundAfter : t.Sound)
    {e : EntityId} (live : s.isLive e = true) : t.isLive e = true :=
  soundAfter.isLive_iff.2 fun released =>
    sound.isLive_iff.1 live (retains.released sound released)

/-! ## Owning no more than what is alive -/

/-- A session that owns, of what another one has, only what is alive there or what had the same
owner. -/
structure RevivesNothing (s t : Session) : Prop where
  sound : t.Sound
  rooted : ∀ x ∈ t.roots, s.heap.Has x → ¬s.Released x
  owns : ∀ y, t.heap.Has y → ∀ x ∈ t.heap.owned y, s.heap.Has x →
    s.heap.Has y ∧ x ∈ s.heap.owned y ∨ ¬s.Released x

theorem RevivesNothing.released (revives : RevivesNothing s t) {x : Node} (has : s.heap.Has x)
    (released : s.Released x) : t.Released x := by
  induction released with
  | intro x unrooted owners ih =>
    have released : s.Released x := .intro x unrooted owners
    refine .intro x (fun rooted => revives.rooted x rooted has released) fun y owned => ?_
    by_cases there : t.heap.Has y
    · rcases revives.owns y there x owned has with ⟨old, owned⟩ | alive
      · exact ih y owned old
      · exact absurd released alive
    · exact revives.sound.released_of_not_has there

/-- An entity once dead stays dead. -/
theorem RevivesNothing.isLive_eq_false (revives : RevivesNothing s t) (sound : s.Sound)
    {e : EntityId} (has : s.heap.Has (.entity e)) (dead : s.isLive e = false) :
    t.isLive e = false := by
  rw [Bool.eq_false_iff, Ne, sound.isLive_iff, not_not] at dead
  rw [Bool.eq_false_iff, Ne, revives.sound.isLive_iff, not_not]
  exact revives.released has dead

theorem Retains.isLive_eq (retains : Retains s t) (revives : RevivesNothing s t) (sound : s.Sound)
    {e : EntityId} (has : s.heap.Has (.entity e)) : t.isLive e = s.isLive e := by
  cases live : s.isLive e with
  | true => exact retains.isLive sound revives.sound live
  | false => exact revives.isLive_eq_false sound has live

/-- Nothing comes back if all that is owned in addition is alive or new. -/
theorem Sound.revivesNothing (after : t.Sound) (more : List Node) (roots : t.roots ⊆ s.roots ++ more)
    (owned : ∀ y, t.heap.Has y → ∀ x ∈ t.heap.owned y,
      s.heap.Has y ∧ x ∈ s.heap.owned y ∨ x ∈ more)
    (alive : ∀ x ∈ more, s.heap.Has x → ¬s.Released x) : RevivesNothing s t where
  sound := after
  rooted x rooted has := by
    rcases List.mem_append.1 (roots rooted) with old | new
    · exact fun released => released.not_rooted old
    · exact alive x new has
  owns y there x owns has := (owned y there x owns).imp id fun new => alive x new has

/-- A session that owns all that another one does, and of what the other one has nothing else but
what is alive there. -/
structure Steady (s t : Session) : Prop extends Retains s t, RevivesNothing s t where
  entities : t.heap.entities = s.heap.entities
  scopes : t.heap.scopes = s.heap.scopes

theorem Steady.isLive_eq (steady : Steady s t) (sound : s.Sound) {e : EntityId}
    (has : s.heap.Has (.entity e)) : t.isLive e = s.isLive e :=
  steady.toRetains.isLive_eq steady.toRevivesNothing sound has

theorem Steady.receiver (steady : Steady s t) (sound : s.Sound) {e : EntityId}
    (has : s.heap.Has (.entity e)) : t.receiver e = s.receiver e :=
  sound.receiver_congr steady.sound steady.entities (fun _ => steady.isLive_eq sound) has

/-- Objects may be held that own what is alive, and a binding may be made that does. -/
theorem Beside.steady (beside : Beside s t) (soundAfter : t.Sound)
    (machine : t.machine.owned = s.machine.owned) {xs : List Object} (held : t.held = xs ++ s.held)
    (alive : ∀ y ∈ xs, ∀ x ∈ t.ownedBy y, s.heap.Has x → ¬s.Released x)
    (heap : t.heap = s.heap ∨ ∃ binding, t.heap = (s.heap.addBinding binding).2 ∧
      ∀ x ∈ binding.strategy.owned, ¬s.Released x) : Steady s t := by
  have forth : s.roots ⊆ t.roots :=
    beside.roots_subset (machine ▸ List.Subset.refl _) (held ▸ List.subset_append_right _ _)
  have back (more : List Node) : t.roots ⊆ s.roots ++ (xs.flatMap t.ownedBy ++ more) := by
    apply beside.symm.roots (machine ▸ List.subset_append_left _ _)
    intro x place
    rw [held, List.mem_append] at place
    rcases place with new | old
    · exact .inr fun y owned => List.mem_append_left _ (List.mem_flatMap.2 ⟨x, new, owned⟩)
    · exact .inl old
  have inHand (x : Node) (owned : x ∈ xs.flatMap t.ownedBy) (has : s.heap.Has x) :
      ¬s.Released x := by
    obtain ⟨y, listed, owned⟩ := List.mem_flatMap.1 owned
    exact alive y listed x owned has
  rcases heap with same | ⟨binding, same, bound⟩
  · have revives : RevivesNothing s t := soundAfter.revivesNothing _ (back [])
      (fun y has x owned => .inl (same ▸ ⟨has, owned⟩)) fun x more => by
        rw [List.append_nil] at more
        exact inHand x more
    exact ⟨⟨forth, fun _ _ => same ▸ List.Subset.refl _⟩, revives, congrArg _ same,
      congrArg _ same⟩
  · have revives : RevivesNothing s t := by
      refine soundAfter.revivesNothing _ (back binding.strategy.owned) (fun y has x owned => ?_)
        fun x more has => ?_
      · rw [same] at has owned
        exact (Heap.owned_addBinding has owned).imp id (List.mem_append_right _)
      · rcases List.mem_append.1 more with held | made
        · exact inHand x held has
        · exact bound x made
    exact ⟨⟨forth, fun y has => same ▸ Heap.owned_subset_addBinding has binding⟩, revives,
      by rw [same]; rfl, by rw [same]; rfl⟩

end Session

end Delegation
