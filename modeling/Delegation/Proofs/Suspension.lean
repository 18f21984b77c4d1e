import Delegation.Proofs.Balance

/-!
# Guards and suspended stacks

A frame that an action runs in is taken off again when the action ends, and so is a scope that is
put in front of the current chain. What is taken off is what is foremost on the live stack then. If
the action has exchanged the live stack meanwhile, that is something else: what was pushed stays on
the stack that has been suspended, and another stack loses a frame or a scope it had before.

So guards and suspension go together as long as every guard finds the stack live again that it has
pushed on. Then, wherever stacks are kept in the end, they are the ones there were before: as many
with any given frames, suspended or live. An action that exchanges no stack is always so.
-/

namespace Delegation

variable {α : Type} {s t u : Session}

/-- One if the stack has the given frames. -/
def CallStack.countOf (stack : CallStack) (frames : List Frame) : Nat :=
  if stack.frames = frames then 1 else 0

theorem CallStack.countOf_empty {frames : List Frame} (some : frames ≠ []) (limit : Option Nat) :
    CallStack.countOf { limit } frames = 0 := if_neg some.symm

namespace Session

/-- How many suspended stacks have the given frames. -/
def suspendedWith (s : Session) (frames : List Frame) : Nat :=
  s.sharedStacks.countP fun stack => stack.frames = frames

/-- How many stacks, suspended or live, have the given frames. -/
def stacksWith (s : Session) (frames : List Frame) : Nat :=
  s.machine.stack.countOf frames + s.suspendedWith frames

/-- The stacks of one session are those of another, wherever they are kept. Only empty ones may be
added. -/
structure SameStacks (s t : Session) : Prop where
  running : t.running = s.running
  machines : s.machines.size ≤ t.machines.size
  counts : ∀ frames, frames ≠ [] → t.stacksWith frames = s.stacksWith frames

theorem SameStacks.trans (first : SameStacks s t) (second : SameStacks t u) : SameStacks s u where
  running := second.running.trans first.running
  machines := Nat.le_trans first.machines second.machines
  counts frames some := (second.counts frames some).trans (first.counts frames some)

end Session

open Session

/-! ## Exchanging stacks -/

section Count

variable (shared : Array CallStack) {frames : List Frame}

theorem countP_push (stack : CallStack) :
    ((shared.push stack).countP fun stack => stack.frames = frames) =
      (shared.countP fun stack => stack.frames = frames) + stack.countOf frames := by
  simp [Array.countP_push, CallStack.countOf]

theorem countP_clear (i : Nat) (some : frames ≠ []) :
    ((shared.setIfInBounds i {}).countP fun stack => stack.frames = frames) +
        (shared.getD i {}).countOf frames =
      shared.countP fun stack => stack.frames = frames := by
  have apart : ([] : List Frame) ≠ frames := Ne.symm some
  by_cases inside : i < shared.size
  · have there : shared.getD i {} = shared[i] := by simp [Array.getD, inside]
    rw [Array.setIfInBounds_def, dif_pos inside, Array.countP_set inside, there, CallStack.countOf]
    by_cases is : shared[i].frames = frames
    · have counted : 0 < shared.countP fun stack => stack.frames = frames :=
        Array.countP_pos_iff.2 ⟨shared[i], Array.getElem_mem inside, by simpa using is⟩
      simp only [is, apart, decide_true, decide_false, if_true, Bool.false_eq_true, if_false]
      omega
    · simp [is, apart]
  · have outside : shared.getD i {} = {} := by simp [Array.getD, inside]
    rw [Array.setIfInBounds_def, dif_neg inside, outside, CallStack.countOf_empty some]
    rfl

end Count

theorem sameStacks_suspend {x : Object} (ends : StackCommand.suspend.act [] s = .ok x t) :
    s.SameStacks t := by
  have is : t = { s with
      machine := { s.machine with stack := { limit := s.machine.stack.limit } }
      sharedStacks := s.sharedStacks.push s.machine.stack } := by
    cases ends
    rfl
  rw [is]
  refine ⟨rfl, Nat.le_refl _, fun frames some => ?_⟩
  simp only [stacksWith, suspendedWith, countP_push, CallStack.countOf_empty some]
  omega

theorem sameStacks_resume {c : StackId} {x : Object}
    (ends : StackCommand.resume.act [.stack c] s = .ok x t) : s.SameStacks t := by
  have is : t = { s with
      machine := { s.machine with stack := s.stack c }
      sharedStacks := (s.sharedStacks.setIfInBounds c.index {}).push s.machine.stack } := by
    cases ends
    rfl
  rw [is]
  refine ⟨rfl, Nat.le_refl _, fun frames some => ?_⟩
  have cleared := countP_clear s.sharedStacks c.index some
  simp only [stacksWith, suspendedWith, countP_push, Session.stack]
  omega

/-! ## Guarded runs -/

/-- A guarded run makes no suspended stack but empty ones, and changes none. -/
theorem Run.suspended {s t : Session} (run : Run false s t) {frames : List Frame}
    (some : frames ≠ []) : t.suspendedWith frames = s.suspendedWith frames := by
  induction run with
  | refl | heap | count | setVariable | dropVariable | report | script | chains | builders
  | machine => rfl
  | trans _ _ first second => exact second.trans first
  | stack s limit => simp only [suspendedWith, countP_push, CallStack.countOf_empty some]; rfl
  | install free | handle free => cases free
  | holding _ _ inner | frame _ _ _ inner | shadow _ _ inner => exact inner
  | @switch s t m _ inner =>
    have same (s : Session) (m : MachineId) :
        (s.switch m).suspendedWith frames = s.suspendedWith frames := by
      unfold Session.switch
      split <;> rfl
    rw [same, inner, same]

theorem Run.stack_eq {s t : Session} (run : Run false s t)
    (present : s.running.index < s.machines.size) : t.machine.stack = s.machine.stack :=
  run.balanced.stack_eq present

theorem Run.sameStacks {s t : Session} (run : Run false s t)
    (present : s.running.index < s.machines.size) : s.SameStacks t where
  running := run.balanced.running
  machines := run.balanced.machines
  counts frames some := by
    rw [stacksWith, stacksWith, run.stack_eq present, run.suspended some]

/-! ## Runs that exchange stacks -/

/-- Guarded runs, and between them stacks are suspended and resumed, in which every guard finds the
stack live that it has pushed on. -/
inductive Orderly : Session → Session → Prop
  | guarded {s t : Session} (run : Run false s t) : Orderly s t
  | trans {s t u : Session} (first : Orderly s t) (second : Orderly t u) : Orderly s u
  | suspend {s t : Session} {x : Object} (ends : StackCommand.suspend.act [] s = .ok x t) :
      Orderly s t
  | resume {s t : Session} {c : StackId} {x : Object}
      (ends : StackCommand.resume.act [.stack c] s = .ok x t) : Orderly s t
  | holding {s t : Session} {x : Object} (inner : Orderly { s with held := x :: s.held } t) :
      Orderly s { t with held := s.held }
  | frame {s t : Session} {frame : Frame} {stack : CallStack}
      (pushed : s.machine.stack.push frame = .ok stack) (inner : Orderly (s.withStack stack) t)
      (own : t.machine.stack = stack) : Orderly s t.popFrame
  | shadow {s t : Session} {x : ScopeId} (inner : Orderly (s.mapFrame (·.pushInner x)) t)
      (own : t.machine.stack = s.machine.stack.mapCurrent (·.pushInner x)) :
      Orderly s (t.mapFrame Frame.popInner)

theorem Session.SameStacks.undo {stack : CallStack} (inner : (s.withStack stack).SameStacks t)
    (own : t.machine.stack = stack) :
    s.SameStacks (t.withStack s.machine.stack) where
  running := inner.running
  machines := inner.machines
  counts frames some := by
    have kept := inner.counts frames some
    rw [stacksWith, own] at kept
    exact congrArg (_ + ·) (Nat.add_left_cancel kept)

theorem popFrame_eq {frame : Frame} {stack : CallStack}
    (pushed : s.machine.stack.push frame = .ok stack) (own : t.machine.stack = stack) :
    t.popFrame = t.withStack s.machine.stack := by
  rw [popFrame, own, CallStack.pop_of_push pushed, withStack]

theorem popInner_eq {x : ScopeId}
    (own : t.machine.stack = s.machine.stack.mapCurrent (·.pushInner x)) :
    t.mapFrame Frame.popInner = t.withStack s.machine.stack := by
  simp only [mapFrame, own, CallStack.mapCurrent_mapCurrent, Frame.popInner_pushInner,
    CallStack.mapCurrent_self, withStack]

/-- After an orderly run all stacks are there with the frames and scopes they had, on whichever
stack they are. -/
theorem Orderly.sameStacks {s t : Session} (orderly : Orderly s t)
    (present : s.running.index < s.machines.size) : s.SameStacks t := by
  induction orderly with
  | guarded run => exact run.sameStacks present
  | trans _ _ first second =>
    have before := first present
    refine before.trans (second ?_)
    rw [before.running]
    exact Nat.lt_of_lt_of_le present before.machines
  | suspend ends => exact sameStacks_suspend ends
  | resume ends => exact sameStacks_resume ends
  | holding _ inner =>
    have kept := inner present
    exact ⟨kept.running, kept.machines, kept.counts⟩
  | frame pushed _ own inner =>
    rw [popFrame_eq pushed own]
    exact (inner present).undo own
  | shadow _ own inner =>
    rw [popInner_eq own]
    exact Session.SameStacks.undo (inner present) own

/-! ## Guards -/

theorem after_withFrame {frame : Frame} {stack : CallStack}
    (pushed : s.machine.stack.push frame = .ok stack) (action : Action α) :
    (withFrame frame action).after s = (action.after (s.withStack stack)).popFrame := by
  simp only [Action.after, withFrame, enterFrame, pushFrame, pushed, tracing, withStack]
  cases action { s with machine := { s.machine with stack } } with
  | ok => rfl
  | error stop => cases stop <;> rfl

theorem after_withScope {x : ScopeId} (framed : s.machine.stack.frames ≠ []) (action : Action α) :
    (withScope x action).after s =
      (action.after (s.mapFrame (·.pushInner x))).mapFrame Frame.popInner := by
  simp only [Action.after, withScope, if_neg (mt List.isEmpty_iff.1 framed), shadowing]
  cases action (s.mapFrame (·.pushInner x)) <;> rfl

/-- A guard takes off what is foremost on the live stack when its action ends. If the action is
orderly and ends on the stack that the guard has pushed on, this is what was pushed, and all other
frames and scopes are still there, on whichever stack they are. -/
theorem guards_and_suspension (present : s.running.index < s.machines.size) (action : Action α) :
    (∀ frame stack, s.machine.stack.push frame = .ok stack →
      let ends := action.after (s.withStack stack)
      let after := (withFrame frame action).after s
      after = ends.popFrame ∧
        (Orderly (s.withStack stack) ends → ends.machine.stack = stack →
          after = ends.withStack s.machine.stack ∧ s.SameStacks after)) ∧
    ∀ x, s.machine.stack.frames ≠ [] →
      let ends := action.after (s.mapFrame (·.pushInner x))
      let after := (withScope x action).after s
      after = ends.mapFrame Frame.popInner ∧
        (Orderly (s.mapFrame (·.pushInner x)) ends →
          ends.machine.stack = s.machine.stack.mapCurrent (·.pushInner x) →
          after = ends.withStack s.machine.stack ∧ s.SameStacks after) := by
  refine ⟨fun frame stack pushed => ?_, fun x framed => ?_⟩
  · intro ends after
    have taken : after = ends.popFrame := after_withFrame pushed action
    refine ⟨taken, fun orderly own => ?_⟩
    rw [taken]
    exact ⟨popFrame_eq pushed own, (Orderly.frame pushed orderly own).sameStacks present⟩
  · intro ends after
    have taken : after = ends.mapFrame Frame.popInner := after_withScope framed action
    refine ⟨taken, fun orderly own => ?_⟩
    rw [taken]
    exact ⟨popInner_eq own, (Orderly.shadow orderly own).sameStacks present⟩

/-- Suspending the live stack and resuming it at once. -/
def suspendAndResume : Action Object := do
  StackCommand.resume.act [← StackCommand.suspend.act []]

theorem orderly_suspendAndResume (s : Session) : Orderly s (suspendAndResume.after s) ∧
    (suspendAndResume.after s).machine.stack = s.machine.stack := by
  let t : Session := { s with
    machine := { s.machine with stack := { limit := s.machine.stack.limit } }
    sharedStacks := s.sharedStacks.push s.machine.stack }
  have suspends : StackCommand.suspend.act [] s = .ok (.stack ⟨s.sharedStacks.size⟩) t := rfl
  have is : suspendAndResume.after s =
      (StackCommand.resume.act [.stack ⟨s.sharedStacks.size⟩]).after t := by
    simp only [Action.after, suspendAndResume, bind, EStateM.bind, suspends]
  rw [is]
  refine ⟨(Orderly.suspend suspends).trans (.resume rfl), ?_⟩
  show (s.sharedStacks.push s.machine.stack).getD s.sharedStacks.size {} = s.machine.stack
  simp

/-- A frame whose body suspends the live stack and resumes it. -/
theorem guard_after_suspendAndResume : ((withFrame ⟨.void, "g", []⟩ suspendAndResume).after
    (Program.ready {})).machine.stack = (Program.ready {}).machine.stack := by
  have present : (Program.ready {}).running.index < (Program.ready {}).machines.size := by
    decide +kernel
  have empty : (Program.ready {}).machine.stack = {} := by decide +kernel
  have pushed : (Program.ready {}).machine.stack.push ⟨.void, "g", []⟩ =
      .ok { frames := [⟨.void, "g", []⟩] } := by
    rw [empty]
    rfl
  have body :=
    orderly_suspendAndResume ((Program.ready {}).withStack { frames := [⟨.void, "g", []⟩] })
  have guard := (guards_and_suspension present suspendAndResume).1 _ _ pushed
  rw [(guard.2 body.1 body.2).1]
  rfl

/-- A frame whose body puts another stack in place of the one that the frame is on. The frame stays
on the stack that has been replaced, and the other one loses the frame it had. -/
theorem guard_on_other_stack :
    let named (name : String) : Expr :=
      .apply (.query (.stack .frame)) [.void, .str name, .apply (.command (.table .chain)) []]
    let s := (Program.runSteps
      [.bind "st" (.apply (.command (.stack .stack)) []),
        .apply (.command (.stack .push)) [.var "st", named "other"]]).after (Program.ready {})
    let t := (eval (runBody nestingBound)
      (.withFrame (named "mine")
        [.bind "old" (.apply (.command (.stack .resume)) [.var "st"])])).after s
    s.machine.stack.frames = [] ∧ (s.stack ⟨0⟩).frames = [⟨.void, "other", []⟩] ∧
      t.machine.stack.frames = [] ∧ (t.stack ⟨1⟩).frames = [⟨.void, "mine", []⟩] ∧
      t.stacksWith [⟨.void, "other", []⟩] = 0 := by
  decide +kernel

end Delegation
