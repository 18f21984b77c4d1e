import Delegation.Form

/-!
# What names stand for

What a session shares by name is in an array, in the place that the name counts off. A new thing
comes last and takes no other's place. The machine that runs is kept apart, and its entry among the
others is out of date; by name, machines are looked up where they are, so that a machine is the same
before and after another one takes over.
-/

namespace Delegation

/-! ## Places of arrays -/

section Places

variable {α : Type} {P : α → Prop} {xs : Array α} {x otherwise : α} {i j : Nat}

theorem Array.getD_push (xs : Array α) (x : α) (i : Nat) (otherwise : α) :
    (xs.push x).getD i otherwise = if i = xs.size then x else xs.getD i otherwise := by
  rw [Array.getD_eq_getD_getElem?, Array.getD_eq_getD_getElem?, Array.getElem?_push]
  split <;> rfl

theorem Array.getD_push_of_lt (inside : i < xs.size) (x otherwise : α) :
    (xs.push x).getD i otherwise = xs.getD i otherwise := by
  rw [getD_push, if_neg (Nat.ne_of_lt inside)]

theorem Array.getD_setIfInBounds_of_ne (apart : j ≠ i) (x otherwise : α) :
    (xs.setIfInBounds j x).getD i otherwise = xs.getD i otherwise := by
  simp [Array.getD_eq_getD_getElem?, apart]

/-- What holds in a place, and of what is added at the end, holds in the place afterwards. -/
theorem Array.getD_push_of (old : P (xs.getD i otherwise)) (new : P x) :
    P ((xs.push x).getD i otherwise) := by
  rw [getD_push]
  split
  · exact new
  · exact old

theorem Array.getD_setIfInBounds_of (old : P (xs.getD i otherwise)) (new : P x) (j : Nat) :
    P ((xs.setIfInBounds j x).getD i otherwise) := by
  by_cases same : j = i
  · subst same
    by_cases inside : j < xs.size
    · simpa [inside] using new
    · simpa [inside] using old
  · rwa [getD_setIfInBounds_of_ne same]

end Places

namespace Session

variable {s : Session} {m : MachineId}

/-! ## Machines by name -/

theorem machineAt_running (s : Session) : s.machineAt s.running = s.machine := if_pos rfl

theorem machineAt_of_ne (other : m ≠ s.running) (machine : Machine) :
    { s with machine }.machineAt m = s.machineAt m := by
  simp [machineAt, other]

/-- A new machine does not take the place of another one. -/
theorem machineAt_push (present : m.index < s.machines.size) (machine : Machine) :
    { s with machines := s.machines.push machine }.machineAt m = s.machineAt m := by
  unfold machineAt
  dsimp only
  rw [Array.getD_push_of_lt present]

theorem machineAt_restack (s : Session) (m : MachineId) (stack : CallStack)
    (sharedStacks : Array CallStack) :
    { s with machine := { s.machine with stack }, sharedStacks }.machineAt m =
      { s.machineAt m with stack := if m = s.running then stack else (s.machineAt m).stack } := by
  unfold machineAt
  dsimp only
  split <;> rfl

/-! ## Taking over -/

@[simp] theorem heap_switch (s : Session) (m : MachineId) : (s.switch m).heap = s.heap := by
  unfold switch
  split <;> rfl

theorem running_switch (s : Session) (m : MachineId) : (s.switch m).running = m := by
  unfold switch
  split
  · next same => exact same.symm
  · rfl

theorem size_switch (s : Session) (m : MachineId) :
    (s.switch m).machines.size = s.machines.size := by
  unfold switch
  split
  · rfl
  · exact Array.size_setIfInBounds

theorem sharedStacks_switch (s : Session) (m : MachineId) :
    (s.switch m).sharedStacks = s.sharedStacks := by
  unfold switch
  split <;> rfl

/-- A machine that is there stays as it is when another one takes over. -/
theorem machineAt_switch (present : m.index < s.machines.size) (k : MachineId) :
    (s.switch k).machineAt m = s.machineAt m := by
  unfold switch
  split
  · rfl
  · next other =>
    unfold machineAt
    dsimp only
    by_cases entered : m = k
    · subst entered
      rw [if_pos rfl, if_neg other]
    · by_cases left : m = s.running
      · subst left
        simp [entered, present]
      · have apart : s.running.index ≠ m.index := fun same =>
          left (congrArg MachineId.mk same.symm)
        rw [if_neg entered, if_neg left, Array.getD_setIfInBounds_of_ne apart]

theorem machineAt_switch_of_absent {k : MachineId} (other : k ≠ s.running)
    (absent : s.machines.size ≤ m.index) : (s.switch k).machineAt m = default := by
  have outside : ¬m.index < s.machines.size := Nat.not_lt_of_le absent
  unfold switch machineAt
  rw [if_neg other]
  dsimp only
  split
  · next entered =>
    subst entered
    simp [outside]
  · simp [outside]

end Session

end Delegation
