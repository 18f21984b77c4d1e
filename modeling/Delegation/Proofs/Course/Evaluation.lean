import Delegation.Proofs.Course
import Delegation.Proofs.Logic.Evaluation

/-!
# The courses of programs

Taking a course that a chronicle tells is a judgement with the rules of a logic. A call that is
counted goes on if the budget allows it, and a command on stacks that fails has changed nothing. So
every expression takes the course that its chronicle tells, and every program does.
-/

namespace Delegation

open Delegation.Action

variable {s : Session}

/-! ## Quiet changes -/

instance : Harmless Session.Still where
  refl := .refl
  trans := .trans
  addScope _ _ := ⟨rfl, rfl, rfl, rfl⟩
  addBinding _ _ _ := ⟨rfl, rfl, rfl, rfl⟩
  addEntity _ _ _ _ := ⟨rfl, rfl, rfl, rfl⟩
  declare _ := ⟨rfl, rfl, rfl, rfl⟩
  store _ _ := ⟨rfl, rfl, rfl, rfl⟩
  close _ _ := ⟨rfl, rfl, rfl, rfl⟩
  chains _ _ := ⟨rfl, rfl, rfl, rfl⟩
  builders _ _ := ⟨rfl, rfl, rfl, rfl⟩
  vars _ _ := ⟨rfl, rfl, rfl, rfl⟩
  report _ _ _ := ⟨rfl, rfl, rfl, rfl⟩

/-! ## Calls that are counted -/

/-- A call that is counted goes on if the budget allows it, and fails otherwise. -/
theorem takes_counted {α : Type} {b : BindingId} {args : List Value} {next : Unit → Action α}
    {rest : Unit → Session → Chronicle}
    (takes : ∀ t, t.heap = s.heap → TakesDue true t (next ()) (rest () t)) :
    Takes s (holding (.value (.binding b)) (countCall (s.heap.binding b).strategy.kind >>= next))
      (⟨.call b args, s⟩ :: Chronicle.keeping (.value (.binding b))
        (Chronicle.step (countCall (s.heap.binding b).strategy.kind) rest) s) := by
  let held : Session := { s with held := .value (.binding b) :: s.held }
  refine takes_of_bracket rfl ?_
  cases budget : (s.machine.countCall (s.heap.binding b).strategy.kind).overBudget? with
  | none =>
    have within : countCall (s.heap.binding b).strategy.kind held = _ := countCall_within budget
    have course := takes { held with
      machine := s.machine.countCall (s.heap.binding b).strategy.kind } rfl
    simp only [TakesDue, Action.ending, Action.after, Chronicle.keeping, Chronicle.step, bind,
      EStateM.bind, within, held] at course ⊢
    exact .call budget course
  | some cause =>
    have beyond : countCall (s.heap.binding b).strategy.kind held = _ := countCall_over budget
    simp only [Action.ending, Action.after, Chronicle.keeping, Chronicle.step, bind, EStateM.bind,
      beyond, held]
    exact .overBudget budget

/-! ## Commands on stacks -/

/-- An action that fails only as long as it has changed nothing. -/
def Action.Careful {α : Type} (action : Action α) : Prop :=
  ∀ s stop t, action s = .error stop t → t = s

theorem careful_lift_bind {α β : Type} {found : Except Stop α} {next : α → Action β}
    (second : ∀ a, (next a).Careful) : ((liftM found : Action α) >>= next).Careful := by
  intro s stop t fails
  cases found with
  | error =>
    cases fails
    rfl
  | ok a => exact second a s stop t fails

theorem careful_get_bind {α : Type} {next : Session → Action α}
    (second : ∀ s, (next s).Careful) : (get >>= next : Action α).Careful :=
  fun s => second s s

theorem careful_of_eq_ok {α : Type} {action : Action α} (gives : ∀ s, ∃ a t, action s = .ok a t) :
    action.Careful := by
  intro s stop t fails
  obtain ⟨a, u, is⟩ := gives s
  rw [is] at fails
  cases fails

theorem careful_setStack (target : Option StackId) (stack : CallStack) (x : Object) :
    (do setStack target stack; return x : Action Object).Careful := by
  cases target <;> exact careful_of_eq_ok fun s => ⟨_, _, rfl⟩

/-- A command on stacks that fails changes nothing. -/
theorem StackCommand.careful_act (command : StackCommand) (xs : List Object) :
    (command.act xs).Careful := by
  cases command with
  | stack => exact careful_lift_bind fun limit => careful_of_eq_ok fun s => ⟨_, _, rfl⟩
  | push =>
    refine careful_lift_bind fun target => careful_lift_bind fun frame =>
      careful_get_bind fun s => ?_
    cases (s.stackOr target).push frame with
    | ok pushed => exact careful_setStack _ _ _
    | error cause =>
      intro s stop t fails
      cases fails
      rfl
  | pop => exact careful_lift_bind fun target => careful_get_bind fun s => careful_setStack _ _ _
  | pushInner =>
    exact careful_lift_bind fun target => careful_lift_bind fun x => careful_get_bind fun s =>
      careful_setStack _ _ _
  | popInner =>
    exact careful_lift_bind fun target => careful_get_bind fun s => careful_setStack _ _ _
  | suspend => exact careful_of_eq_ok fun s => ⟨_, _, rfl⟩
  | resume => exact careful_lift_bind fun c => careful_of_eq_ok fun s => ⟨_, _, rfl⟩

theorem takes_stackCommand (command : StackCommand) (xs : List Object) :
    Takes s (command.act xs) (⟨.operation (.command (.stack command)) xs, s⟩ ::
      Chronicle.quietly (command.act xs) s) := by
  simp only [TakesDue, Action.ending, Action.after, Chronicle.quietly, Chronicle.step]
  cases ends : command.act xs s with
  | ok x t => exact .handle ends
  | error stop t =>
    obtain rfl := command.careful_act xs s stop t ends
    have refused : Course false t _ _ t := .refuse ends
    cases stop with
    | failure failure => exact refused.seq (.raise t failure)
    | malformed | exhausted => exact refused.seq (.gone t)

/-! ## Programs -/

theorem logic_takes : Logic true Session.Still @TakesDue where
  congr holds same := .of_eq holds (same _ (.refl _))
  code holds := holds fun _ _ => .inl rfl
  script _ _ _ := ⟨rfl, rfl, rfl, rfl⟩
  result _ _ _ := takes_pure _
  step quiet := takes_step quiet.change
  seq := .bind
  note := .noted
  ask holds := .noted holds trivial
  serve _ := .serve
  hold := takes_holding
  frame _ := takes_withFrame
  enter _ := takes_enterFrame
  shadow x holds := takes_shadowing holds x
  switch m _ holds := takes_onMachine holds m
  rescue := takes_attempt
  annotate note holds := takes_annotate holds note
  call := takes_counted
  build s config registry := takes_of_ok rfl (.build s config registry)
  install _ s config registry := takes_of_ok rfl (.install s config registry)
  handle _ _ xs _ := takes_stackCommand _ xs

theorem Expr.takes_chronicle (nesting : Nat) (e : Expr) :
    Takes s (eval (runBody nesting) e) (e.chronicle nesting s) :=
  logic_takes.holds_expr nesting (.inl rfl)

theorem Program.takes_chronicle (steps : List Expr) :
    Takes s (runSteps steps) (chronicle steps s) := logic_takes.holds_runSteps (.inl rfl)

end Delegation
