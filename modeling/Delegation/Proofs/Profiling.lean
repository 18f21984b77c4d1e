import Delegation.Proofs.Tallies
import Delegation.Proofs.Transparency

/-!
# Profiling

The counters of a profiling machine are the numbers of calls attempted on it so far by kind, in
every moment of every run. What surrounds calls counts nothing by itself: running a body, entering a
frame, putting a scope in front of the current chain, suspending a machine and resuming it. And a
run that does not ask for the counters goes as it would without them.
-/

namespace Delegation

open Delegation.Action

variable {α β : Type} {s : Session}

/-! ## What counts, and what counts nothing -/

/-- What machines have counted. -/
def Session.meters (s : Session) (m : MachineId) : Nat × Option Counters :=
  ((s.machineAt m).calls, (s.machineAt m).counters)

theorem Session.meters_restack (s : Session) (stack : CallStack) (sharedStacks : Array CallStack) :
    Session.meters { s with machine := { s.machine with stack }, sharedStacks } = s.meters := by
  funext m
  rw [meters, machineAt_restack]
  rfl

/-- The session in which an attempt to call a binding has been counted. -/
def Session.attempted (s : Session) (b : BindingId) : Session :=
  { s with machine := s.machine.countCall (s.heap.binding b).strategy.kind }

/-- After an action machines have counted what they have in a session, and what another action
counts inside, which begins where they have counted as much, unless it does not begin at all. -/
def Action.CountsAt (s own : Session) (outer : Action α) (inner : Action β) : Prop :=
  (outer.after s).meters = own.meters ∨
    ∃ t, t.meters = own.meters ∧ (outer.after s).meters = (inner.after t).meters

/-- An action counts nothing itself, but for what another action counts inside. -/
def Action.CountsAs (outer : Action α) (inner : Action β) : Prop := ∀ s, outer.CountsAt s s inner

namespace Action

variable {γ : Type} {own t : Session} {outer : Action α} {middle : Action β} {inner : Action γ}

theorem CountsAt.trans (first : outer.CountsAt s own middle) (second : middle.CountsAs inner) :
    outer.CountsAt s own inner := by
  rcases first with nothing | ⟨t, begins, ends⟩
  · exact .inl nothing
  · rcases second t with nothing | ⟨u, begins', ends'⟩
    · exact .inl ((ends.trans nothing).trans begins)
    · exact .inr ⟨u, begins'.trans begins, ends.trans ends'⟩

theorem CountsAs.trans (first : outer.CountsAs middle) (second : middle.CountsAs inner) :
    outer.CountsAs inner := fun s => (first s).trans second

theorem CountsAt.congr {outer' : Action α} (counts : outer'.CountsAt s own inner)
    (same : outer s = outer' s) : outer.CountsAt s own inner := by
  simp only [CountsAt, Action.after, same] at counts ⊢
  exact counts

theorem CountsAt.bind {action : Action α} {next : α → Action β} {a : α}
    (ends : action s = .ok a t) (counts : (next a).CountsAt t own inner) :
    (action >>= next).CountsAt s own inner := by
  rwa [CountsAt, after_bind_of_ok ends]

theorem CountsAt.of_error {action : Action α} {next : α → Action β} {stop : Stop}
    (ends : action s = .error stop t) (same : t.meters = own.meters) :
    (action >>= next).CountsAt s own inner := .inl (by rwa [after_bind_of_error ends])

theorem CountsAt.holding {x : Object}
    (counts : outer.CountsAt { s with held := x :: s.held } own inner) :
    (holding x outer).CountsAt s own inner := by
  have is : Delegation.holding x outer s =
      bracket { s with held := x :: s.held } (fun t => { t with held := s.held }) outer := rfl
  rw [CountsAt, after_of_bracket is]
  exact counts

theorem countsAs_withFrame (frame : Frame) (action : Action α) :
    (withFrame frame action).CountsAs action := by
  intro s
  cases pushed : s.machine.stack.push frame with
  | error cause => exact .congr (.inl rfl) (enterFrame_of_full pushed _)
  | ok stack =>
    refine .inr ⟨s.withStack stack, s.meters_restack stack s.sharedStacks, ?_⟩
    rw [withFrame, after_of_bracket (enterFrame_of_push pushed _), after_tracing]
    exact Session.meters_restack _ _ _

theorem countsAs_shadowing (x : ScopeId) (action : Action α) :
    (shadowing x action).CountsAs action := by
  intro s
  have is : shadowing x action s =
      bracket (s.mapFrame (·.pushInner x)) (·.mapFrame Frame.popInner) action := rfl
  refine .inr ⟨s.mapFrame (·.pushInner x), s.meters_restack _ s.sharedStacks, ?_⟩
  rw [after_of_bracket is]
  exact Session.meters_restack _ _ _

theorem countsAs_withScope (x : ScopeId) (action : Action α) :
    (withScope x action).CountsAs action := by
  intro s
  by_cases outside : s.machine.stack.frames.isEmpty = true
  · exact .congr ((countsAs_withFrame _ _).trans (countsAs_shadowing x action) s) (if_pos outside)
  · exact .congr (countsAs_shadowing x action s) (if_neg outside)

theorem countsAs_invoke (run : Runner) (callable : Callable) (args : List Value) :
    (callable.invoke run args).CountsAs (run callable.body) := by
  intro s
  unfold Callable.invoke
  split
  · exact .inl rfl
  · split
    · exact .inl rfl
    · exact .bind rfl (countsAs_withScope _ _ _)

theorem countsAs_callMethod (run : Runner) (callable : Callable) (owner : EntityId)
    (args : List Value) : (callMethod run callable owner args).CountsAs (run callable.body) := by
  intro s
  have framed (frame : Frame) (identity : ScopeId) :
      (withFrame frame (withScope identity (callable.invoke run args))).CountsAs
        (run callable.body) :=
    ((countsAs_withFrame _ _).trans (countsAs_withScope _ _)).trans (countsAs_invoke run _ args)
  exact .holding (.bind rfl (.bind rfl (framed _ _ _)))

/-- A call counts one attempt, before anything else is looked at. -/
theorem countsAt_call (run : Runner) (b : BindingId) (args : List Value) (s : Session) :
    (b.call run args).CountsAt s (s.attempted b) (run (s.heap.binding b).callable.body) := by
  refine .holding (.bind rfl ?_)
  cases budget : (s.machine.countCall (s.heap.binding b).strategy.kind).overBudget? with
  | some cause => exact .of_error (countCall_over budget) rfl
  | none =>
    refine .bind (countCall_within budget) ?_
    let counted : Session :=
      { s.attempted b with held := .value (.binding b) :: s.held }
    show CountsAt counted counted _ _
    clear_value counted
    have framed (frame : Frame) : (withFrame frame
        ((s.heap.binding b).callable.invoke run args)).CountsAs
          (run (s.heap.binding b).callable.body) :=
      (countsAs_withFrame _ _).trans (countsAs_invoke run _ args)
    cases (s.heap.binding b).strategy with
    | function enclosing => exact .bind rfl (framed _ _)
    | method owner => exact countsAs_callMethod run _ owner args _
    | declared owner =>
      refine .bind rfl ?_
      split
      · exact countsAs_callMethod run _ owner args _
      · exact .inl rfl
    | closure captured => exact framed _ _

end Action

/-- Commands on stacks count nothing. -/
theorem StackCommand.meters_after (command : StackCommand) (xs : List Object) (s : Session) :
    ((command.act xs).after s).meters = s.meters := by
  unfold Action.after
  cases ends : command.act xs s with
  | ok x t =>
    obtain ⟨stack, sharedStacks, rfl⟩ := (does_of_ok ends).restacks
    exact s.meters_restack stack sharedStacks
  | error stop t => rw [command.careful_act xs s stop t ends]

/-- What machines count is counted where bindings are called, and nowhere else. -/
structure CountedByCalls : Prop where
  /-- A call counts one attempt itself, of the kind of the binding, whatever becomes of the call. -/
  call : ∀ (run : Runner) (b : BindingId) (args : List Value) (s : Session),
    (b.call run args).CountsAt s (s.attempted b) (run (s.heap.binding b).callable.body)
  invoke : ∀ (run : Runner) (callable : Callable) (args : List Value),
    (callable.invoke run args).CountsAs (run callable.body)
  frame : ∀ {α : Type} (frame : Frame) (action : Action α),
    (withFrame frame action).CountsAs action
  scope : ∀ {α : Type} (x : ScopeId) (action : Action α), (withScope x action).CountsAs action
  suspend : ∀ (xs : List Object) (s : Session),
    ((StackCommand.suspend.act xs).after s).meters = s.meters
  resume : ∀ (xs : List Object) (s : Session),
    ((StackCommand.resume.act xs).after s).meters = s.meters

theorem countedByCalls : CountedByCalls where
  call := countsAt_call
  invoke := countsAs_invoke
  frame := countsAs_withFrame
  scope := countsAs_withScope
  suspend := StackCommand.suspend.meters_after
  resume := StackCommand.resume.meters_after

/-- Whether machines are profiled, and what their counters show, makes no difference to a run in
which no counters are asked for. -/
structure Session.IgnoresProfiling (steps : List Expr) (s : Session) : Prop where
  /-- The run ends in the same way from all level sessions, and leaves level sessions behind. -/
  run : (Program.chronicle steps s).Discreet → ∀ t, s.Level t →
    EndsLevel (Program.runSteps steps s) (Program.runSteps steps t)
  /-- Level sessions are level still when a machine has been built in each, profiled or not. -/
  build : ∀ config profile registry t, s.Level t → EndsLevel (startMachine config registry s)
    (startMachine { config with profile } registry t)
  install : ∀ config profile registry t, s.Level t → EndsLevel (installMachine config registry s)
    (installMachine { config with profile } registry t)
  /-- A program has the same answer whether its machine is profiled or not. -/
  program : ∀ config profile, (Program.chronicle steps (Program.ready config)).Discreet →
    Program.run ⟨{ config with profile }, steps⟩ = Program.run ⟨config, steps⟩

theorem Session.ignoresProfiling (steps : List Expr) (s : Session) :
    s.IgnoresProfiling steps where
  run discreet _ level := Program.endsLevel_runSteps discreet level
  build config profile registry _ level := endsLevel_startMachine level config profile registry
  install config profile registry _ level := endsLevel_installMachine level config profile registry
  program _ profile discreet := Program.run_profile discreet profile

/-! ## Runs -/

namespace Session

/-- The counters of a profiling machine are the numbers of attempts so far by kind, and together the
count of calls, in every moment of a run that makes no more attempts than can be counted. Nothing
but calls counts. And the counters make no difference to a run that does not ask for them. -/
theorem profile_counters (steps : List Expr) (s : Session) :
    (∀ (m : MachineId) (base : BindingKind → Nat), m.index < s.machines.size →
      (s.machineAt m).Profiles base →
      (∀ moment ∈ Program.chronicle steps s, moment.profiles m = true) →
      total base + (Program.chronicle steps s).attempts m ≤ Machine.maxCalls →
      KeepsTally m base (Program.chronicle steps s) ((Program.runSteps steps).after s)) ∧
    CountedByCalls ∧ s.IgnoresProfiling steps :=
  ⟨fun _ _ present profiles kept small =>
      (Program.takes_chronicle steps).keepsTally present profiles kept small,
    countedByCalls, s.ignoresProfiling steps⟩

/-- A function is called, a method, a closure, and the function again, which the budget does not
cover. -/
theorem profile_counters_of_four_calls :
    let body : Expr := .nullary "f" [.int 7]
    let function : Expr := .apply (.command (.call .function)) [body, .void]
    let entity : Expr := .apply (.command (.entity .entity)) [.str "e", .void, .void]
    let method : Expr := .apply (.command (.call .bound)) [body, entity]
    let closure : Expr := .apply (.command (.call .closure)) [body]
    let call (b : Expr) : Expr := .apply (.command (.call .callBinding)) [b]
    let steps := [.bind "f" function, call (.var "f"), call method, call closure, call (.var "f")]
    let config : Config := { mode := .bounded 3 }
    let profiled : Config := { config with profile := true }
    let s := Program.ready profiled
    let c := Program.chronicle steps s
    KeepsTally ⟨0⟩ (fun _ => 0) c ((Program.runSteps steps).after s) ∧
      c.tally ⟨0⟩ (fun _ => 0) .function = 2 ∧ c.tally ⟨0⟩ (fun _ => 0) .method = 1 ∧
      c.tally ⟨0⟩ (fun _ => 0) .closure = 1 ∧
      EndsLevel (Program.runSteps steps s) (Program.runSteps steps (Program.ready config)) ∧
      Program.run ⟨profiled, steps⟩ = Program.run ⟨config, steps⟩ := by
  intro body function entity method closure call steps config profiled s c
  obtain ⟨counts, _, ignores⟩ := profile_counters steps s
  have counters : (s.machineAt ⟨0⟩).counters = some {} := by decide +kernel
  have profiles : (s.machineAt ⟨0⟩).Profiles fun _ => 0 :=
    ⟨⟨{}, counters, rfl, rfl, rfl⟩, by decide +kernel⟩
  refine ⟨counts ⟨0⟩ _ (by decide +kernel) profiles (by decide +kernel) (by decide +kernel),
    by decide +kernel, by decide +kernel, by decide +kernel, ?_, ?_⟩
  · exact ignores.run (by decide +kernel) _ (Program.level_ready profiled false)
  · exact ignores.program config true (by decide +kernel)

end Session

end Delegation
