import Delegation.Proofs.Logic

/-!
# Courses

A chronicle says what happens in a run; a course says in addition what this does to the machines and
their stacks, and how the run ends. It is put together from pieces that leave them all alone, from
the few deeds that change them, and from pieces in between of something done and the same thing
undone. What holds of all runs follows by induction on courses, without a look at the operations.

A call that the budget allows runs the body of its binding at most once. So a course is marked if
such a body is due: it may begin within the course, outside any further call.

The rules below say which course an action takes that is put together from others.
-/

namespace Delegation

variable {α β : Type} {s t u : Session}

/-! ## How runs end -/

inductive Ending where
  | done
  | failed (failure : Failure)
  /-- The program makes no sense, or its bodies nest too deep. -/
  | gone
  deriving DecidableEq

namespace Ending

def of : EStateM.Result Stop Session α → Ending
  | .ok _ _ => .done
  | .error (.failure failure) _ => .failed failure
  | .error _ _ => .gone

/-- The ending of an action whose failures take the trace of the stack along. -/
def traced (s : Session) : Ending → Ending
  | .failed failure => .failed (s.heap.attachTrace s.machine.stack failure)
  | ending => ending

end Ending

def Action.ending (action : Action α) (s : Session) : Ending := .of (action s)

/-! ## Courses -/

/-- A change that leaves alone the machines, their stacks and those that are kept beside them. -/
structure Session.Still (s t : Session) : Prop where
  machine : t.machine = s.machine
  running : t.running = s.running
  machines : t.machines = s.machines
  sharedStacks : t.sharedStacks = s.sharedStacks

/-- What happens from one session to another, and how it ends. The mark says whether the body of a
binding is due. -/
inductive Course : Bool → Session → Chronicle → Ending → Session → Prop
  | still {due : Bool} {s t : Session} (same : s.Still t) : Course due s [] .done t
  | gone {due : Bool} (s : Session) : Course due s [] .gone s
  | raise {due : Bool} (s : Session) (failure : Failure) :
      Course due s [⟨.raise failure, s⟩] (.failed failure) s
  | note {due : Bool} (s : Session) {deed : Deed} (idle : deed.idle) :
      Course due s [⟨deed, s⟩] .done s
  | onwards {due : Bool} {s t u : Session} {c : Chronicle} {ending : Ending} (same : s.Still t)
      (inner : Course due t c ending u) : Course due s c ending u
  | seq {s t u : Session} {c d : Chronicle} {ending : Ending} (first : Course false s c .done t)
      (second : Course false t d ending u) : Course false s (c ++ d) ending u
  | rescue {s t : Session} {c : Chronicle} {failure : Failure}
      (inner : Course false s c (.failed failure) t) :
      Course false s (c ++ [⟨.rescue, t⟩]) .done t
  | handle {due : Bool} {s t : Session} {command : StackCommand} {xs : List Object} {x : Object}
      (acts : command.act xs s = .ok x t) :
      Course due s [⟨.operation (.command (.stack command)) xs, s⟩] .done t
  | refuse {due : Bool} {s : Session} {command : StackCommand} {xs : List Object} {stop : Stop}
      (fails : command.act xs s = .error stop s) :
      Course due s [⟨.operation (.command (.stack command)) xs, s⟩] .done s
  | build {due : Bool} (s : Session) (config : Config) (registry : Registry) :
      Course due s [⟨.build config, s⟩] .done
        { s with machines := s.machines.push (.fresh config registry) }
  | install {due : Bool} (s : Session) (config : Config) (registry : Registry) :
      Course due s [⟨.install config, s⟩] .done { s with machine := .fresh config registry }
  | call {due : Bool} {s t : Session} {b : BindingId} {args : List Value} {c : Chronicle}
      {ending : Ending}
      (within :
        (s.machine.countCall (s.heap.binding b).strategy.kind).overBudget? = none)
      (inner : Course true
        { s with
          held := .value (.binding b) :: s.held
          machine := s.machine.countCall (s.heap.binding b).strategy.kind } c ending t) :
      Course due s (⟨.call b args, s⟩ :: c) ending { t with held := s.held }
  | overBudget {due : Bool} {s : Session} {b : BindingId} {args : List Value} {cause : Cause}
      (beyond :
        (s.machine.countCall (s.heap.binding b).strategy.kind).overBudget? = some cause) :
      Course due s
        [⟨.call b args, s⟩,
          ⟨.raise (.ofCause cause),
            { s with
              held := .value (.binding b) :: s.held
              machine := s.machine.countCall (s.heap.binding b).strategy.kind }⟩]
        (.failed (.ofCause cause))
        { s with machine := s.machine.countCall (s.heap.binding b).strategy.kind }
  | serve {s t : Session} {b : BindingId} {c : Chronicle} {ending : Ending}
      (inner : Course false s c ending t) : Course true s (⟨.serve b, s⟩ :: c) ending t
  | holding {due : Bool} {s t : Session} {x : Object} {c : Chronicle} {ending : Ending}
      (inner : Course due { s with held := x :: s.held } c ending t) :
      Course due s c ending { t with held := s.held }
  | frame {due : Bool} {s t : Session} {traced : Bool} {frame : Frame} {stack : CallStack}
      {c : Chronicle} {ending : Ending} (pushed : s.machine.stack.push frame = .ok stack)
      (inner : Course due (s.withStack stack) c ending t) :
      Course due s (⟨.enterFrame traced frame, s.withStack stack⟩ :: c ++ [⟨.leaveFrame, t⟩])
        (if traced then ending.traced t else ending) t.popFrame
  | shadow {due : Bool} {s t : Session} {x : ScopeId} {c : Chronicle} {ending : Ending}
      (inner : Course due (s.mapFrame (·.pushInner x)) c ending t) :
      Course due s c ending (t.mapFrame Frame.popInner)
  | switch {due : Bool} {s t : Session} {m : MachineId} {c : Chronicle} {ending : Ending}
      (inner : Course false (s.switch m) c ending t) :
      Course due s (⟨.withMachine m, s⟩ :: c) ending (t.switch s.running)

/-! ## Changes that nothing is noted of -/

namespace Session.Still

theorem refl (s : Session) : s.Still s := ⟨rfl, rfl, rfl, rfl⟩

theorem trans (first : s.Still t) (second : t.Still u) : s.Still u where
  machine := second.machine.trans first.machine
  running := second.running.trans first.running
  machines := second.machines.trans first.machines
  sharedStacks := second.sharedStacks.trans first.sharedStacks

end Session.Still

namespace Action

/-! ## The course of an action -/

/-- From a session, the action takes a course that the chronicle tells. The mark says whether the
body of a binding is due. -/
def TakesDue (due : Bool) (s : Session) (action : Action α) (c : Chronicle) : Prop :=
  Course due s c (action.ending s) (action.after s)

/-- From a session, the action takes a course that the chronicle tells. -/
abbrev Takes (s : Session) (action : Action α) (c : Chronicle) : Prop := TakesDue false s action c

variable {due : Bool}

theorem takes_of_ok {action : Action α} {a : α} {c : Chronicle} (ends : action s = .ok a t)
    (course : Course due s c .done t) : TakesDue due s action c := by
  simp only [TakesDue, Action.ending, Action.after, ends]
  exact course

/-- An action that ends as another one does takes the same course. -/
theorem TakesDue.of_eq {action action' : Action α} {c : Chronicle}
    (takes : TakesDue due s action' c) (is : action s = action' s) : TakesDue due s action c := by
  simp only [TakesDue, Action.ending, Action.after, is] at takes ⊢
  exact takes

theorem takes_pure (a : α) : TakesDue due s (pure a) [] := .still (.refl s)

theorem takes_fail (cause : Cause) :
    TakesDue due s (fail cause : Action α) (Chronicle.failing cause s) :=
  .raise s _

/-- What follows an action of which nothing is noted but its failure. -/
theorem takes_step {action : Action α} {next : α → Action β} {rest : α → Session → Chronicle}
    (quiet : s.Still (action.after s))
    (second : ∀ a t, action s = .ok a t → TakesDue due t (next a) (rest a t)) :
    TakesDue due s (action >>= next) (Chronicle.step action rest s) := by
  simp only [TakesDue, Action.ending, Action.after, Chronicle.step, bind, EStateM.bind] at quiet ⊢
  cases ends : action s with
  | ok a t =>
    rw [ends] at quiet
    exact .onwards quiet (second a t ends)
  | error stop t =>
    rw [ends] at quiet
    cases stop with
    | failure failure => exact .onwards quiet (.raise t failure)
    | malformed | exhausted => exact .onwards quiet (.gone t)

theorem TakesDue.bind {action : Action α} {next : α → Action β} {c : Chronicle}
    {rest : α → Session → Chronicle} (first : Takes s action c)
    (second : ∀ a t, action s = .ok a t → Takes t (next a) (rest a t)) :
    Takes s (action >>= next) (c ++ Chronicle.next action rest s) := by
  simp only [TakesDue, Action.ending, Action.after, Chronicle.next, Bind.bind, EStateM.bind]
    at first ⊢
  cases ends : action s with
  | ok a t =>
    rw [ends] at first
    exact .seq first (second a t ends)
  | error stop t =>
    rw [ends] at first
    rw [List.append_nil]
    cases stop <;> exact first

/-- A note of something that leaves everything as it was. -/
theorem TakesDue.noted {action : Action α} {c : Chronicle} {deed : Deed} (takes : Takes s action c)
    (idle : deed.idle) : Takes s action (⟨deed, s⟩ :: c) := Course.seq (.note s idle) takes

/-! ## Brackets -/

/-- What is done and undone around an action. -/
theorem takes_of_bracket {inner outer : Action α} {inside : Session} {leave : Session → Session}
    {c : Chronicle} (is : outer s = Action.bracket inside leave inner)
    (course : Course due s c (inner.ending inside) (leave (inner.after inside))) :
    TakesDue due s outer c := by
  simp only [TakesDue, Action.ending, Action.after, is, Action.bracket] at course ⊢
  cases ended : inner inside with
  | ok a t =>
    rw [ended] at course
    exact course
  | error stop t =>
    rw [ended] at course
    cases stop <;> exact course

theorem takes_holding {x : Object} {action : Action α} {inner : Session → Chronicle}
    (takes : TakesDue due { s with held := x :: s.held } action
      (inner { s with held := x :: s.held })) :
    TakesDue due s (holding x action) (Chronicle.keeping x inner s) :=
  takes_of_bracket rfl (.holding takes)

theorem enterFrame_of_push {frame : Frame} {stack : CallStack}
    (pushed : s.machine.stack.push frame = .ok stack) (action : Action α) :
    enterFrame frame action s = bracket (s.withStack stack) Session.popFrame action := by
  simp only [enterFrame, pushFrame, pushed]
  rfl

theorem enterFrame_of_full {frame : Frame} {cause : Cause}
    (full : s.machine.stack.push frame = .error cause) (action : Action α) :
    enterFrame frame action s = fail cause s := by
  simp only [enterFrame, pushFrame, full]
  rfl

theorem ending_tracing (action : Action α) :
    (tracing action).ending s = (action.ending s).traced (action.after s) := by
  simp only [Action.ending, Action.after, tracing]
  cases action s with
  | ok => rfl
  | error stop => cases stop <;> rfl

theorem after_tracing (action : Action α) : (tracing action).after s = action.after s := by
  simp only [Action.after, tracing]
  cases action s with
  | ok => rfl
  | error stop => cases stop <;> rfl

/-- A frame that is refused fails the action, whatever would have been done inside it. -/
theorem takes_inFrame_of_full {traced : Bool} {frame : Frame} {cause : Cause} {outer inner : Action α}
    {rest : Session → Chronicle} (full : s.machine.stack.push frame = .error cause) :
    TakesDue due s (enterFrame frame outer) (Chronicle.inFrame traced frame inner rest s) := by
  have course : TakesDue due s (fail cause : Action α) (Chronicle.failing cause s) :=
    takes_fail cause
  simp only [Chronicle.inFrame, Chronicle.step, pushFrame, full]
  exact course.of_eq (enterFrame_of_full full outer)

section Frames

variable {frame : Frame} {action : Action α} {inner : Session → Chronicle}
  (takes : ∀ t, TakesDue due t action (inner t))

include takes

theorem takes_enterFrame :
    TakesDue due s (enterFrame frame action) (Chronicle.inFrame false frame action inner s) := by
  cases pushed : s.machine.stack.push frame with
  | error cause => exact takes_inFrame_of_full pushed
  | ok stack =>
    simp only [Chronicle.inFrame, Chronicle.step, pushFrame, pushed]
    exact takes_of_bracket (enterFrame_of_push pushed action) (.frame pushed (takes _))

theorem takes_withFrame :
    TakesDue due s (withFrame frame action) (Chronicle.inFrame true frame action inner s) := by
  cases pushed : s.machine.stack.push frame with
  | error cause => exact takes_inFrame_of_full pushed
  | ok stack =>
    simp only [Chronicle.inFrame, Chronicle.step, pushFrame, pushed]
    refine takes_of_bracket (enterFrame_of_push pushed (tracing action)) ?_
    rw [ending_tracing, after_tracing]
    exact .frame pushed (takes _)

theorem takes_shadowing (x : ScopeId) :
    TakesDue due s (shadowing x action) (Chronicle.shadowed x inner s) :=
  takes_of_bracket rfl (.shadow (takes _))

omit takes in
theorem takes_onMachine (takes : ∀ t, Takes t action (inner t)) (m : MachineId) :
    Takes s (Delegation.onMachine m action) (Chronicle.onMachine m inner s) := by
  have inside : Takes (s.switch m) (holding (.machine s.running) action) _ :=
    takes_holding (takes _)
  exact takes_of_bracket rfl (.switch inside)

end Frames

/-! ## Failures that are caught -/

theorem takes_attempt {action : Action α} {c : Chronicle} (takes : Takes s action c) :
    Takes s (attempt action) (c ++ Chronicle.caught action (fun _ _ => []) s) := by
  simp only [TakesDue, Action.ending, Action.after, attempt, Chronicle.caught] at takes ⊢
  cases ended : action s with
  | ok a t =>
    rw [ended] at takes
    rw [List.append_nil]
    exact takes
  | error stop t =>
    rw [ended] at takes
    cases stop with
    | failure failure => exact takes.rescue
    | malformed | exhausted =>
      rw [List.append_nil]
      exact takes

theorem takes_annotate {action : Action Object} {c : Chronicle}
    (takes : Takes s action c) (note : String) : Takes s (mapFailure (·.withNote note) action)
      (c ++ Chronicle.caught action (fun failure t => [⟨.raise (failure.withNote note), t⟩])
        s) := by
  simp only [TakesDue, Action.ending, Action.after, mapFailure, Chronicle.caught] at takes ⊢
  cases ended : action s with
  | ok a t =>
    rw [ended] at takes
    rw [List.append_nil]
    exact takes
  | error stop t =>
    rw [ended] at takes
    cases stop with
    | failure failure =>
      have course := Course.seq takes.rescue (.raise t (failure.withNote note))
      rw [List.append_assoc] at course
      exact course
    | malformed | exhausted =>
      rw [List.append_nil]
      exact takes

end Action

end Delegation
