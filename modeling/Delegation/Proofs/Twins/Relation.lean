import Delegation.Proofs.Run.Rules
import Delegation.Proofs.Twins.Surroundings
import Delegation.Proofs.Twins.Traces

/-!
# Sessions that differ in a caller's frames

Twins are two sessions that are the same but for the frames at the bottom of one stack, those that
were there when a call began, and for the traces of failures. What has been pushed since is on both
stacks. Two actions agree from twins if they end in the same way, up to traces, and leave twins
behind with as much on both stacks.

As soon as something has been pushed, twins have the same current frame and the same current chain.
So whatever follows does not notice what is at the bottom, and all rules for agreement follow the
way actions are put together.
-/

namespace Delegation

open Object

/-- A machine, and the frames of either caller on its stack. -/
structure Callers where
  home : MachineId
  lower : List Frame
  lower' : List Frame

/-- What becomes of the frames pushed since, if something is done to the frames of a machine. -/
def Callers.above (callers : Callers) (m : MachineId) (f : List Frame → List Frame)
    (upper : List Frame) : List Frame :=
  if m = callers.home then f upper else upper

/-- The session with the frames of its live stack changed. -/
def Session.mapFrames (s : Session) (f : List Frame → List Frame) : Session :=
  s.withStack { s.machine.stack with frames := f s.machine.stack.frames }

variable {callers : Callers} {upper : List Frame} {s t u v : Session}

/-! ## Twins -/

/-- Two machines are the same, but the one that is called from has the frames of either caller at
the bottom of its stack. -/
structure Counterpart (callers : Callers) (upper : List Frame) (m : MachineId)
    (machine machine' : Machine) : Prop where
  away : m ≠ callers.home → machine' = machine
  home : m = callers.home → machine.stack.frames = upper ++ callers.lower ∧
    machine' = { machine with stack := { machine.stack with frames := upper ++ callers.lower' } }

def Session.untracedVars (s : Session) : List (String × Object) :=
  s.vars.map fun (name, x) => (name, x.untraced)

/-- Two sessions are the same but for the frames of the callers, which are below those in `upper`,
and for traces. -/
structure Twin (callers : Callers) (upper : List Frame) (s t : Session) : Prop where
  around : t = s.amid t.surroundings
  running : t.running = s.running
  size : t.machines.size = s.machines.size
  present : callers.home.index < s.machines.size
  machine : Counterpart callers upper s.running s.machine t.machine
  parked : ∀ m, m ≠ s.running → Counterpart callers upper m
    (s.machines.getD m.index default) (t.machines.getD m.index default)
  owned : ∀ i, (t.machines.getD i default).owned ⊆
    (s.machines.getD i default).owned ++ callers.lower'.flatMap Frame.owned
  vars : s.untracedVars = t.untracedVars
  held : untracedAll s.held = untracedAll t.held

namespace Counterpart

variable {m : MachineId} {machine machine' : Machine}

theorem restacked (same : Counterpart callers upper m machine machine') :
    machine' = { machine with stack := machine'.stack } := by
  by_cases at_home : m = callers.home
  · rw [(same.home at_home).2]
  · rw [same.away at_home]

/-- Once something has been pushed, the current frame is the same. -/
theorem current (same : Counterpart callers upper m machine machine')
    (framed : upper ≠ []) : machine'.stack.current = machine.stack.current := by
  by_cases at_home : m = callers.home
  · obtain ⟨frame, rest, rfl⟩ := List.exists_cons_of_ne_nil framed
    obtain ⟨frames, is⟩ := same.home at_home
    rw [is, CallStack.current, CallStack.current, frames]
    rfl
  · rw [same.away at_home]

theorem owned (same : Counterpart callers upper m machine machine') :
    machine'.owned ⊆ machine.owned ++ callers.lower'.flatMap Frame.owned := by
  by_cases at_home : m = callers.home
  · obtain ⟨frames, is⟩ := same.home at_home
    intro x place
    simp only [is, Machine.owned, CallStack.owned, frames, List.flatMap_append,
      List.mem_append] at place ⊢
    grind
  · rw [same.away at_home]
    exact List.subset_append_left _ _

end Counterpart

namespace Twin

variable {upper' : List Frame}

theorem heap (twin : Twin callers upper s t) : t.heap = s.heap := by
  rw [twin.around]
  rfl

theorem currentFrame (twin : Twin callers upper s t) (framed : upper ≠ []) :
    t.machine.currentFrame = s.machine.currentFrame := by
  rw [Machine.currentFrame, twin.machine.current framed, twin.machine.restacked]
  rfl

theorem currentChain (twin : Twin callers upper s t) (framed : upper ≠ []) :
    t.machine.currentChain = s.machine.currentChain := by
  rw [Machine.currentChain, twin.machine.current framed, twin.machine.restacked]
  rfl

theorem toplevelFrame (twin : Twin callers upper s t) :
    t.machine.toplevelFrame = s.machine.toplevelFrame := by
  rw [twin.machine.restacked]
  rfl

theorem globals (twin : Twin callers upper s t) : t.machine.globals = s.machine.globals := by
  rw [twin.machine.restacked]
  rfl

theorem frames_isEmpty (twin : Twin callers upper s t) (framed : upper ≠ []) :
    t.machine.stack.frames.isEmpty = s.machine.stack.frames.isEmpty := by
  have same := twin.machine.current framed
  simp only [CallStack.current] at same
  cases is : s.machine.stack.frames <;> cases is' : t.machine.stack.frames <;> simp_all

theorem mapFrames (twin : Twin callers upper s t) {f : List Frame → List Frame}
    (through : s.running = callers.home → ∀ lower, f (upper ++ lower) = f upper ++ lower) :
    Twin callers (callers.above s.running f upper) (s.mapFrames f) (t.mapFrames f) := by
  obtain ⟨around, is⟩ : ∃ around, t = s.amid around := ⟨_, twin.around⟩
  refine { twin with around := ?_, machine := ?_, parked := fun m away => ?_ }
  · rw [is]
    rfl
  · refine ⟨fun away => ?_, fun at_home => ?_⟩
    · simp only [Session.mapFrames, Session.withStack, twin.machine.away away]
    · obtain ⟨frames, machine⟩ := twin.machine.home at_home
      have above : callers.above s.running f upper = f upper := if_pos at_home
      simp only [Session.mapFrames, Session.withStack, above, machine, frames, through at_home,
        and_self]
  · have parked := twin.parked m away
    refine ⟨parked.away, fun at_home => ?_⟩
    rw [Callers.above, if_neg fun back => away (at_home.trans back.symm)]
    exact parked.home at_home

theorem hold (twin : Twin callers upper s t) {x x' : Object} (alike : x.Alike x') :
    Twin callers upper { s with held := x :: s.held } { t with held := x' :: t.held } := by
  obtain ⟨around, is⟩ : ∃ around, t = s.amid around := ⟨_, twin.around⟩
  refine { twin with around := ?_, held := ?_ }
  · rw [is]
    rfl
  · show x.untraced :: untracedAll s.held = x'.untraced :: untracedAll t.held
    rw [show x.untraced = x'.untraced from alike, twin.held]

/-- What is held may be what it was before. -/
theorem release (before : Twin callers upper s t)
    (twin : Twin callers upper' u v) :
    Twin callers upper' { u with held := s.held } { v with held := t.held } := by
  obtain ⟨around, is⟩ : ∃ around, v = u.amid around := ⟨_, twin.around⟩
  refine { twin with around := ?_, held := before.held }
  rw [is]
  rfl

/-- What does not touch the surroundings may be done to both. -/
theorem amid (twin : Twin callers upper s t) (kept : u = u.amid s.surroundings) :
    Twin callers upper u (u.amid t.surroundings) := by
  have running : u.running = s.running := by rw [kept]; rfl
  have machines : u.machines = s.machines := by rw [kept]; rfl
  have stack : u.machine.stack = s.machine.stack := by rw [kept]; rfl
  have vars : u.vars = s.vars := by rw [kept]; rfl
  have held : u.held = s.held := by rw [kept]; rfl
  refine
    { around := rfl
      running := twin.running.trans running.symm
      size := (congrArg Array.size machines).symm ▸ twin.size
      present := (congrArg Array.size machines).symm ▸ twin.present
      machine := ?_
      parked := by rw [running, machines]; exact twin.parked
      owned := by rw [machines]; exact twin.owned
      vars := by rw [Session.untracedVars, vars]; exact twin.vars
      held := by rw [held]; exact twin.held }
  refine ⟨fun away => ?_, fun at_home => ?_⟩
  · rw [running] at away
    show { u.machine with stack := t.machine.stack } = u.machine
    rw [twin.machine.away away, ← stack]
  · rw [running] at at_home
    obtain ⟨frames, machine⟩ := twin.machine.home at_home
    rw [stack]
    refine ⟨frames, ?_⟩
    show { u.machine with stack := t.machine.stack } = _
    rw [machine]

theorem newMachine (twin : Twin callers upper s t) (machine : Machine) :
    Twin callers upper { s with machines := s.machines.push machine }
      { t with machines := t.machines.push machine } := by
  obtain ⟨around, is⟩ : ∃ around, t = s.amid around := ⟨_, twin.around⟩
  refine
    { twin with
      around := ?_
      size := by simp [twin.size]
      present := by simpa using Nat.lt_succ_of_lt twin.present
      parked := fun m away => ?_
      owned := fun i => ?_ }
  · rw [is]
    rfl
  · rw [Array.getD_push, Array.getD_push, twin.size]
    split
    · next new =>
      -- The name of the new machine is not that of the one called from.
      refine ⟨fun _ => rfl, fun at_home => ?_⟩
      have present := twin.present
      rw [← at_home, new] at present
      exact absurd present (Nat.lt_irrefl _)
    · exact twin.parked m away
  · rw [Array.getD_push, Array.getD_push, twin.size]
    split
    · exact List.subset_append_left _ _
    · exact twin.owned i

theorem index_ne {m k : MachineId} (apart : m ≠ k) : m.index ≠ k.index :=
  fun same => apart (by cases m; cases k; cases same; rfl)

theorem switch (twin : Twin callers upper s t) (m : MachineId) :
    Twin callers upper (s.switch m) (t.switch m) := by
  by_cases same : m = s.running
  · rw [Session.switch, if_pos same, Session.switch, if_pos (same.trans twin.running.symm)]
    exact twin
  have same' : m ≠ t.running := fun is => same (is.trans twin.running)
  have entered := twin.parked m same
  rw [Session.switch, if_neg same, Session.switch, if_neg same']
  refine
    { around := ?_
      running := rfl
      size := by simp [twin.size]
      present := by simpa using twin.present
      machine := entered
      parked := fun k away => ?_
      owned := fun i => ?_
      vars := twin.vars
      held := twin.held }
  · obtain ⟨around, is⟩ : ∃ around, t = s.amid around := ⟨_, twin.around⟩
    have machine := entered.restacked
    rw [is] at machine ⊢
    simp only [Session.amid, Session.surroundings] at machine ⊢
    rw [← machine]
  · dsimp only
    rw [twin.running]
    -- The machine that is left is parked as it ran, and all others stay where they were.
    by_cases left : k = s.running
    · subst left
      by_cases inside : s.running.index < s.machines.size
      · have inside' : s.running.index < t.machines.size := twin.size ▸ inside
        simpa [Array.getD_eq_getD_getElem?, inside, inside'] using twin.machine
      · have inside' : ¬s.running.index < t.machines.size := twin.size ▸ inside
        have away : s.running ≠ callers.home := fun is => inside (is ▸ twin.present)
        exact ⟨fun _ => by simp [Array.getD_eq_getD_getElem?, inside, inside'],
          fun at_home => absurd at_home away⟩
    · rw [Array.getD_setIfInBounds_of_ne (index_ne (Ne.symm left)),
        Array.getD_setIfInBounds_of_ne (index_ne (Ne.symm left))]
      exact twin.parked k left
  · dsimp only
    rw [twin.running]
    by_cases left : s.running.index = i
    · subst left
      by_cases inside : s.running.index < s.machines.size
      · have inside' : s.running.index < t.machines.size := twin.size ▸ inside
        simpa [Array.getD_eq_getD_getElem?, inside, inside'] using twin.machine.owned
      · have inside' : ¬s.running.index < t.machines.size := twin.size ▸ inside
        simp [Array.getD_eq_getD_getElem?, inside, inside']
    · rw [Array.getD_setIfInBounds_of_ne left, Array.getD_setIfInBounds_of_ne left]
      exact twin.owned i

end Twin

end Delegation
