import Delegation.Proofs.Balance
import Delegation.Proofs.Course.Evaluation

/-!
# Machines in the course of a run

What a command on stacks does to a session is said once here: it makes an empty stack, changes one
in place, or exchanges the live one. Whatever a course tells, the machine that runs in the end is
the one that ran at first, and no machine is lost.
-/

namespace Delegation

variable {due : Bool} {s t : Session} {c : Chronicle} {ending : Ending}

/-! ## What commands on stacks do -/

/-- What may become of a stack in place. -/
inductive CallStack.Becomes (stack : CallStack) : CallStack → Prop
  | push {frame : Frame} {pushed : CallStack} (fits : stack.push frame = .ok pushed) :
      Becomes stack pushed
  | pop : Becomes stack stack.pop
  | map (f : Frame → Frame) : Becomes stack (stack.mapCurrent f)

/-- The session with another stack in the place that a name stands for. -/
def Session.putStack (s : Session) : Option StackId → CallStack → Session
  | some c, stack => { s with sharedStacks := s.sharedStacks.setIfInBounds c.index stack }
  | none, stack => s.withStack stack

namespace StackCommand

/-- What a command does that succeeds. -/
inductive Does (s : Session) : StackCommand → List Object → Session → Prop
  | make (xs : List Object) (limit : Option Nat) :
      Does s .stack xs { s with sharedStacks := s.sharedStacks.push { limit } }
  | change {command : StackCommand} (xs : List Object) (target : Option StackId) {stack : CallStack}
      (keeps : command ≠ .suspend ∧ command ≠ .resume)
      (becomes : (s.stackOr target).Becomes stack) : Does s command xs (s.putStack target stack)
  | suspend (xs : List Object) :
      Does s .suspend xs
        { s with
          machine := { s.machine with stack := { limit := s.machine.stack.limit } }
          sharedStacks := s.sharedStacks.push s.machine.stack }
  | resume {xs : List Object} {c : StackId} (read : operand xs 0 Object.asStack? = .ok c) :
      Does s .resume xs
        { s with
          machine := { s.machine with stack := s.stack c }
          sharedStacks := (s.sharedStacks.setIfInBounds c.index {}).push s.machine.stack }

theorem ok_of_lift_bind {α β : Type} {found : Except Stop α} {next : α → Action β} {b : β}
    (gives : ((liftM found : Action α) >>= next) s = .ok b t) :
    ∃ a, found = .ok a ∧ next a s = .ok b t := by
  cases found with
  | ok a => exact ⟨a, rfl, gives⟩
  | error stop => cases gives

theorem does_setStack {command : StackCommand} (xs : List Object) {target : Option StackId}
    {stack : CallStack} (keeps : command ≠ .suspend ∧ command ≠ .resume)
    (becomes : (s.stackOr target).Becomes stack) {x y : Object}
    (gives : (do setStack target stack; return x : Action Object) s = .ok y t) :
    Does s command xs t := by
  have is : t = s.putStack target stack := by
    cases target <;> cases gives <;> rfl
  rw [is]
  exact .change xs target keeps becomes

theorem does_of_ok {command : StackCommand} {xs : List Object} {x : Object}
    (acts : command.act xs s = .ok x t) : Does s command xs t := by
  cases command with
  | stack =>
    obtain ⟨limit, _, gives⟩ := ok_of_lift_bind acts
    cases gives
    exact .make xs limit
  | push =>
    obtain ⟨target, _, gives⟩ := ok_of_lift_bind acts
    obtain ⟨frame, _, gives⟩ := ok_of_lift_bind gives
    cases fits : (s.stackOr target).push frame with
    | ok pushed =>
      simp only [bind, EStateM.bind, Action.get_eq_ok, fits] at gives
      exact does_setStack xs ⟨nofun, nofun⟩ (.push fits) gives
    | error cause =>
      simp only [bind, EStateM.bind, Action.get_eq_ok, fits] at gives
      cases gives
  | pop =>
    obtain ⟨target, _, gives⟩ := ok_of_lift_bind acts
    exact does_setStack xs ⟨nofun, nofun⟩ .pop gives
  | pushInner =>
    obtain ⟨target, _, gives⟩ := ok_of_lift_bind acts
    obtain ⟨scope, _, gives⟩ := ok_of_lift_bind gives
    exact does_setStack xs ⟨nofun, nofun⟩ (.map _) gives
  | popInner =>
    obtain ⟨target, _, gives⟩ := ok_of_lift_bind acts
    exact does_setStack xs ⟨nofun, nofun⟩ (.map _) gives
  | suspend =>
    cases acts
    exact .suspend xs
  | resume =>
    obtain ⟨c, read, gives⟩ := ok_of_lift_bind acts
    cases gives
    exact .resume read

variable {command : StackCommand} {xs : List Object}

/-- A command on stacks leaves everything but stacks as it was. -/
theorem Does.restacks (does : Does s command xs t) :
    ∃ stack sharedStacks, t = { s with machine := { s.machine with stack }, sharedStacks } := by
  cases does with
  | make | suspend | resume => exact ⟨_, _, rfl⟩
  | change xs target keeps becomes => cases target <;> exact ⟨_, _, rfl⟩

end StackCommand

/-! ## Machines -/

namespace Session

theorem Still.machineAt (still : s.Still t) (m : MachineId) : t.machineAt m = s.machineAt m := by
  unfold Session.machineAt
  rw [still.machine, still.running, still.machines]

end Session

namespace Course

theorem machines (course : Course due s c ending t) :
    t.running = s.running ∧ s.machines.size ≤ t.machines.size := by
  induction course with
  | still same => exact ⟨same.running, Nat.le_of_eq (congrArg Array.size same.machines.symm)⟩
  | gone | raise | note | refuse | install | overBudget => exact ⟨rfl, Nat.le_refl _⟩
  | onwards same _ inner =>
    exact ⟨inner.1.trans same.running,
      Nat.le_trans (Nat.le_of_eq (congrArg Array.size same.machines.symm)) inner.2⟩
  | seq _ _ first second => exact ⟨second.1.trans first.1, Nat.le_trans first.2 second.2⟩
  | rescue _ inner | call _ _ inner | serve _ inner | holding _ inner | frame _ _ inner
  | shadow _ inner => exact inner
  | handle acts =>
    obtain ⟨stack, sharedStacks, rfl⟩ := (StackCommand.does_of_ok acts).restacks
    exact ⟨rfl, Nat.le_refl _⟩
  | build => exact ⟨rfl, by simp⟩
  | switch _ inner =>
    refine ⟨Session.running_switch _ _, ?_⟩
    rw [Session.size_switch]
    exact Session.size_switch _ _ ▸ inner.2

end Course

end Delegation
