import Delegation.Ownership.Census
import Delegation.Proofs.Heap.Shape

/-!
# Layers

The entities built on an entity, one on the other. In a sound heap every derived entity is younger
than the one it is built on, so following the links up comes to an end, and the fuel that the walk
is given is always enough.
-/

namespace Delegation

namespace Heap

/-- Following the links up gives the same layers with any fuel that is enough. -/
theorem Sound.layersAbove_congr {heap : Heap} (sound : heap.Sound) {fuel fuel' : Nat} {e : EntityId}
    (has : heap.Has (.entity e)) (enough : heap.entities.size ≤ fuel + e.index)
    (enough' : heap.entities.size ≤ fuel' + e.index) :
    heap.layersAbove fuel e = heap.layersAbove fuel' e := by
  have below : e.index < heap.entities.size := has
  induction fuel generalizing fuel' e with
  | zero => omega
  | succ fuel ih =>
    cases fuel' with
    | zero => omega
    | succ fuel' =>
      unfold layersAbove
      cases is : (heap.entity e).derived with
      | none => rfl
      | some d =>
        have younger := (sound.superOfDerived e d has is).2
        have known := sound.has_derived has is
        exact congrArg (d :: ·) (ih known (by omega) (by omega) known)

/-- What holds of an entity if it holds of the one built on it holds of all entities: links up lead
to younger entities only. -/
theorem Sound.layers_induction {heap : Heap} (sound : heap.Sound) {motive : EntityId → Prop}
    (step : ∀ e, heap.Has (.entity e) →
      (∀ d, (heap.entity e).derived = some d → motive d) → motive e)
    {e : EntityId} (has : heap.Has (.entity e)) : motive e := by
  generalize room : heap.entities.size - e.index = n
  induction n using Nat.strongRecOn generalizing e with
  | ind n ih =>
    apply step e has
    intro d is
    have below : e.index < heap.entities.size := has
    have younger := (sound.superOfDerived e d has is).2
    exact ih (heap.entities.size - d.index) (by omega) (sound.has_derived has is) rfl

end Heap

namespace Session

variable {session : Session}

theorem layersAbove_of_none {e : EntityId} (last : (session.heap.entity e).derived = none) :
    session.layersAbove e = [] := by
  unfold layersAbove
  cases session.heap.entities.size with
  | zero => rfl
  | succ fuel => simp only [Heap.layersAbove, last]

theorem layersAbove_of_some {e d : EntityId} (sound : session.heap.Sound)
    (has : session.heap.Has (.entity e)) (is : (session.heap.entity e).derived = some d) :
    session.layersAbove e = d :: session.layersAbove d := by
  have below : e.index < session.heap.entities.size := has
  have younger := (sound.superOfDerived e d has is).2
  obtain ⟨fuel, size⟩ := Nat.exists_eq_add_one_of_ne_zero (Nat.ne_of_gt (Nat.zero_lt_of_lt below))
  have walk : session.heap.layersAbove (fuel + 1) e = d :: session.heap.layersAbove fuel d := by
    simp only [Heap.layersAbove, is]
  rw [layersAbove, layersAbove, size, walk]
  exact congrArg (d :: ·) (sound.layersAbove_congr (sound.has_derived has is) (by omega) (by omega))

theorem mem_layersAbove {e d : EntityId} (sound : session.heap.Sound)
    (has : session.heap.Has (.entity e)) : d ∈ session.layersAbove e ↔
      ∃ next, (session.heap.entity e).derived = some next ∧
        (d = next ∨ d ∈ session.layersAbove next) := by
  cases is : (session.heap.entity e).derived with
  | none => simp [layersAbove_of_none is]
  | some next => simp [layersAbove_of_some sound has is]

theorem has_of_mem_layersAbove {e d : EntityId} (sound : session.heap.Sound)
    (has : session.heap.Has (.entity e)) (above : d ∈ session.layersAbove e) :
    session.heap.Has (.entity d) := by
  revert above
  refine sound.layers_induction
    (motive := fun e => d ∈ session.layersAbove e → session.heap.Has (.entity d))
    (fun e has ih above => ?_) has
  obtain ⟨next, is, same | above⟩ := (mem_layersAbove sound has).1 above
  · exact same ▸ sound.has_derived has is
  · exact ih next is above

theorem receiver_mem (session : Session) (e : EntityId) :
    session.receiver e ∈ e :: session.layersAbove e := by
  unfold receiver
  split
  · exact List.mem_cons_self
  · next top below layers =>
    have listed (d : EntityId) (place : d ∈ top :: below) : d ∈ e :: session.layersAbove e := by
      rw [← layers, List.mem_reverse] at place
      exact List.mem_cons_of_mem e place
    split
    · exact listed top List.mem_cons_self
    · dsimp only
      cases found : (top :: below).find? fun d => session.census.count (.entity d) != 0 with
      | none => exact List.mem_cons_self
      | some d => exact listed d (List.mem_of_find?_eq_some found)

theorem has_receiver {e : EntityId} (sound : session.heap.Sound)
    (has : session.heap.Has (.entity e)) : session.heap.Has (.entity (session.receiver e)) := by
  rcases List.mem_cons.1 (session.receiver_mem e) with same | above
  · rw [same]
    exact has
  · exact has_of_mem_layersAbove sound has above

end Session

end Delegation
