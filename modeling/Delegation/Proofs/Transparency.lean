import Delegation.Proofs.Moments
import Delegation.Proofs.Run.Start

/-!
# Runs that do not ask for counters

A program learns of counters by two queries only. As long as neither is made in the course of a run,
the run goes the same way whatever the counters of machines show, and whether machines have counters
at all: it ends in the same way from level sessions, and leaves level sessions behind. That is a
judgement with the rules of a logic, for what is done and undone around an action concerns stacks,
machines and objects in hand, and not counters.
-/

namespace Delegation

open Delegation.Action

variable {α : Type} {s t : Session}

/-! ## Chronicles without questions -/

/-- Whether counters are asked for. -/
def Moment.asksCounters (moment : Moment) : Bool :=
  match moment.deed with
  | .operation (.query q) _ => q.asksCounters
  | _ => false

/-- No counters are asked for. -/
def Chronicle.Discreet (c : Chronicle) : Prop := ∀ moment ∈ c, moment.asksCounters = false

instance (c : Chronicle) : Decidable c.Discreet := inferInstanceAs (Decidable (∀ moment ∈ c, _))

namespace Chronicle.Discreet

variable {action : Action α} {rest : α → Session → Chronicle} {a : α}

theorem next (discreet : (Chronicle.next action rest s).Discreet) (ends : action s = .ok a t) :
    (rest a t).Discreet := by
  simpa only [Chronicle.next, ends] using discreet

theorem step (discreet : (Chronicle.step action rest s).Discreet) (ends : action s = .ok a t) :
    (rest a t).Discreet := by
  simpa only [Chronicle.step, ends] using discreet

theorem inFrame {traced : Bool} {frame : Frame} {stack : CallStack} {inner : Session → Chronicle}
    (discreet : (Chronicle.inFrame traced frame action inner s).Discreet)
    (pushed : s.machine.stack.push frame = .ok stack) : (inner (s.withStack stack)).Discreet := by
  have ends : pushFrame frame s = .ok () (s.withStack stack) := by
    simp only [pushFrame, pushed]
    rfl
  exact (List.forall_mem_append.1 (List.forall_mem_cons.1 (discreet.step ends)).2).1

end Chronicle.Discreet

/-! ## What is done and undone -/

namespace Action

theorem SteadyAt.attempt {action : Action α} (steady : action.SteadyAt s) :
    (attempt action).SteadyAt s := by
  intro t level
  have inner := steady t level
  unfold Delegation.attempt
  generalize action s = here, action t = there at inner
  cases inner with
  | ok a level => exact .ok _ level
  | error stop level =>
    cases stop with
    | failure failure => exact .ok _ level
    | malformed | exhausted => exact .error _ level

theorem SteadyAt.mapFailure {action : Action α} (steady : action.SteadyAt s)
    (f : Failure → Failure) : (mapFailure f action).SteadyAt s := by
  intro t level
  have inner := steady t level
  unfold Delegation.mapFailure
  generalize action s = here, action t = there at inner
  cases inner with
  | ok a level => exact .ok _ level
  | error stop level => cases stop <;> exact .error _ level

theorem SteadyAt.tracing {action : Action α} (steady : action.SteadyAt s) :
    (tracing action).SteadyAt s := by
  intro t level
  have inner := steady t level
  unfold Delegation.tracing
  generalize action s = here, action t = there at inner
  cases inner with
  | ok a level => exact .ok _ level
  | error stop level =>
    cases stop with
    | failure failure =>
      simp only [level.heap, level.stack]
      exact .error _ level
    | malformed | exhausted => exact .error _ level

theorem SteadyAt.enterFrame {frame : Frame} {action : Action α}
    (steady : ∀ stack, s.machine.stack.push frame = .ok stack →
      action.SteadyAt (s.withStack stack)) : (enterFrame frame action).SteadyAt s := by
  cases pushed : s.machine.stack.push frame with
  | error cause =>
    refine SteadyAt.congr (steadyAt_throw (.failure (.ofCause cause))) fun t level => ?_
    exact enterFrame_of_full (level.stack ▸ pushed) action
  | ok stack =>
    refine (steady stack pushed).bracket (·.withStack stack) Session.popFrame (fun t level => ?_)
      (fun _ => rfl) fun _ => rfl
    exact enterFrame_of_push (level.stack ▸ pushed) action

theorem SteadyAt.shadowing {x : ScopeId} {action : Action α}
    (steady : action.SteadyAt (s.mapFrame (·.pushInner x))) : (shadowing x action).SteadyAt s :=
  steady.bracket (·.mapFrame (·.pushInner x)) (·.mapFrame Frame.popInner) (fun _ _ => rfl)
    (fun _ => rfl) fun _ => rfl

theorem SteadyAt.onMachine {m : MachineId} {action : Action α}
    (steady : (Delegation.holding (.machine s.running) action).SteadyAt (s.switch m)) :
    (onMachine m action).SteadyAt s := by
  refine steady.bracket (·.switch m) (·.switch s.running) (fun t level => ?_)
    (fun t => t.switch_uncounted m) fun t => t.switch_uncounted s.running
  rw [← level.running]
  rfl

/-! ## Machines -/

/-- Counting a call says nothing of the counters, and neither does the budget. -/
theorem steadyAt_countCall (kind : BindingKind) : (countCall kind).SteadyAt s := by
  have counted : (modifyMachine (·.countCall kind)).SteadyAt s := steadyAt_of_eq fun _ => rfl
  refine counted.bind fun _ t _ => steadyAt_get_bind (fun _ => rfl) ?_
  cases t.machine.overBudget? with
  | none => exact steadyAt_pure ()
  | some cause => exact steadyAt_throw _

theorem uncounted_fresh (config : Config) (profile : Bool) (registry : Registry) :
    (Machine.fresh { config with profile } registry).uncounted =
      (Machine.fresh config registry).uncounted := rfl

theorem endsLevel_startMachine (level : s.Level t) (config : Config) (profile : Bool)
    (registry : Registry) : EndsLevel (startMachine config registry s)
      (startMachine { config with profile } registry t) := by
  have added (s : Session) (machine : Machine) :
      Session.uncounted { s with machines := s.machines.push machine } =
        { s.uncounted with machines := s.uncounted.machines.push machine.uncounted } := by
    simp [Session.uncounted]
  have size : t.machines.size = s.machines.size :=
    level.same (·.machines.size) fun s => by simp [Session.uncounted]
  show EndsLevel (.ok (Object.machine ⟨s.machines.size⟩) _) (.ok (.machine ⟨t.machines.size⟩) _)
  rw [size]
  refine .ok _ ?_
  rw [Session.Level, added, added, level, uncounted_fresh]

theorem endsLevel_installMachine (level : s.Level t) (config : Config) (profile : Bool)
    (registry : Registry) : EndsLevel (installMachine config registry s)
      (installMachine { config with profile } registry t) := by
  have installed := congrArg (fun u : Session =>
    { u with machine := (Machine.fresh config registry).uncounted }) level
  exact .ok _ installed

end Action

/-! ## Programs -/

/-- Doing the same from level sessions, if no counters are asked for, is a judgement with the rules
of a logic. -/
theorem logic_steady : Logic true (fun s t : Session => s.heap.Widens t.heap)
    fun {_} _ s action c => c.Discreet → action.SteadyAt s where
  congr holds same discreet := (holds discreet).congr same
  code holds := holds fun _ _ => .inl rfl
  script s _ _ := .refl s.heap
  result _ _ a _ := steadyAt_pure a
  step quiet second discreet :=
    quiet.steady.bind fun a t ends => second a t ends (discreet.step ends)
  seq first second discreet := by
    obtain ⟨before, after⟩ := List.forall_mem_append.1 discreet
    exact (first before).bind fun a t ends => second a t ends (Chronicle.Discreet.next after ends)
  note holds _ discreet := holds (List.forall_mem_cons.1 discreet).2
  ask {s q xs _} _ discreet := by
    have other : q.asksCounters = false := (List.forall_mem_cons.1 discreet).1
    exact steadyAt_get_bind (fun s => by rw [Query.answer_uncounted other]) (steadyAt_lift _)
  serve _ holds discreet := holds (List.forall_mem_cons.1 discreet).2
  hold holds discreet := .holding (holds discreet)
  frame _ holds discreet :=
    .enterFrame fun stack pushed => (holds _ (discreet.inFrame pushed)).tracing
  enter _ holds discreet := .enterFrame fun stack pushed => holds _ (discreet.inFrame pushed)
  shadow _ holds discreet := .shadowing (holds _ discreet)
  switch _ _ holds discreet := .onMachine (.holding (holds _ (List.forall_mem_cons.1 discreet).2))
  rescue holds discreet := (holds (List.forall_mem_append.1 discreet).1).attempt
  annotate note holds discreet := (holds (List.forall_mem_append.1 discreet).1).mapFailure _
  call holds discreet := by
    refine .holding ((steadyAt_countCall _).bind fun _ t ends => ?_)
    have same := heap_of_countCall ends
    exact holds t same (Chronicle.Discreet.step (List.forall_mem_cons.1 discreet).2 ends)
  build s config registry _ t level := endsLevel_startMachine level config config.profile registry
  install _ s config registry _ t level :=
    endsLevel_installMachine level config config.profile registry
  handle s command xs _ _ := (quiet_stackCommand (W := Heap.Widens) command xs s).steady

namespace Program

/-- A run in which no counters are asked for goes the same way whatever the counters show. -/
theorem endsLevel_runSteps {steps : List Expr} (discreet : (chronicle steps s).Discreet)
    (level : s.Level t) : EndsLevel (runSteps steps s) (runSteps steps t) :=
  logic_steady.holds_runSteps (.inl rfl) discreet t level

theorem endsLevel_start (config : Config) (profile : Bool) :
    EndsLevel (start config blank) (start { config with profile } blank) := by
  have same : Registry.ofConfig { config with profile } = Registry.ofConfig config := rfl
  simp only [start, bind, EStateM.bind, same]
  cases Registry.ofConfig config blank with
  | error stop t => exact .error stop (.refl t)
  | ok registry t => exact .ok () rfl

theorem level_ready (config : Config) (profile : Bool) :
    (ready config).Level (ready { config with profile }) := by
  have starts := endsLevel_start config profile
  unfold ready Action.after
  generalize start config blank = here, start { config with profile } blank = there at starts
  cases starts with
  | ok _ level | error _ level => exact level

/-- Whether its machine is profiled makes no difference to what a program answers. -/
theorem run_profile {config : Config} {steps : List Expr}
    (discreet : (chronicle steps (ready config)).Discreet) (profile : Bool) :
    run ⟨{ config with profile }, steps⟩ = run ⟨config, steps⟩ := by
  have ends : EndsLevel ((do start config; runSteps steps : Action (List Datum)) blank)
      ((do start { config with profile }; runSteps steps : Action (List Datum)) blank) := by
    have starts := endsLevel_start config profile
    unfold ready Action.after at discreet
    simp only [bind, EStateM.bind]
    generalize start config blank = here, start { config with profile } blank = there
      at starts discreet
    cases starts with
    | ok a level => exact endsLevel_runSteps discreet level
    | error stop level => exact .error stop level
  unfold run
  generalize (do start config; runSteps steps : Action (List Datum)) blank = here,
    (do start { config with profile }; runSteps steps : Action (List Datum)) blank = there at ends
  cases ends with
  | ok reports level => rfl
  | error stop level => cases stop <;> rfl

end Program

end Delegation
