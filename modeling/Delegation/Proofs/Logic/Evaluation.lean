import Delegation.Proofs.Logic.Commands

/-!
# Programs in a logic

What a logic says of bodies, it says of every expression, by induction on the expression; so it says
it of bodies, by induction on the depth to which they are followed, and of the steps of a program one
after another. A logic for homebound scripts only says so of programs that are homebound.
-/

namespace Delegation

open Delegation.Action

/-- The answer to a step, given its result or its failure. -/
def Program.answerStep : Except Failure Datum → Action Datum
  | .ok result => do return .record (("ok", result) :: stepFields (← get))
  | .error failure => do return .record (failure.report ++ stepFields (← get))

section Quiet

variable {R : Session → Session → Prop} [Harmless R]

theorem quiet_readVariable (name : String) : Quiet R (readVariable name) :=
  quiet_get_bind (fun _ => rfl) fun s => by
    split
    · exact quiet_pure _
    · exact quiet_malformed _

theorem quiet_setVariable (name : String) (x : Object) : Quiet R (setVariable name x) :=
  fun s => .of_change rfl (Harmless.vars s _) fun _ => rfl

theorem quiet_dropVariable (name : String) : Quiet R (dropVariable name) :=
  fun s => .of_change rfl (Harmless.vars s _) fun _ => rfl

theorem quiet_reportObject (x : Object) : Quiet R (reportObject x) :=
  fun s => ⟨⟨Harmless.report s _ _, trivial⟩, steadyAt_reportObject x⟩

theorem quiet_logObject (x : Object) : Quiet R (logObject x) :=
  (quiet_reportObject x).bind fun _ s => .of_change rfl (Harmless.report s _ _) fun _ => rfl

theorem quiet_answerStep (result : Except Failure Datum) : Quiet R (Program.answerStep result) := by
  cases result <;> exact quiet_get_bind (fun _ => rfl) fun _ => quiet_pure _

end Quiet

namespace Logic

variable {s : Session} {run : Runner} {bodies : Body → Session → Chronicle} {raw : Bool}
  {R : Session → Session → Prop} [Harmless R]
  {P : {α : Type} → Bool → Session → Action α → Chronicle → Prop}

/-! ## Forms -/

variable (logic : Logic raw R P)

include logic

omit [Harmless R] in
theorem quiet_newScript {body : List Expr} (allowed : Allowed raw (Expr.homeboundAll body)) :
    Quiet R (newScript body) :=
  fun s => .of_change rfl (logic.script s allowed) fun _ => rfl

theorem quiet_makeCallable (name : String) (params : List String) {body : List Expr}
    (allowed : Allowed raw (Expr.homeboundAll body)) : Quiet R (makeCallable name params body) := by
  refine (logic.quiet_newScript allowed).bind fun address => ?_
  split
  · exact quiet_pure _
  · exact quiet_fail _

omit [Harmless R] in
theorem holds_iterate {action : Action Object} {inner : Session → Chronicle}
    (holds : ∀ t, P false t action (inner t)) (count : Nat) :
    P false s (iterate count action) (Chronicle.times action inner count s) := by
  induction count generalizing s with
  | zero => exact logic.result _ _ _
  | succ n ih =>
    cases n with
    | zero =>
      have once : Chronicle.next action (fun _ _ => []) s = [] := by
        unfold Chronicle.next
        split <;> rfl
      show P false s action (inner s ++ Chronicle.next action (fun _ _ => []) s)
      rw [once, List.append_nil]
      exact holds s
    | succ n => exact logic.seq (holds s) fun _ t _ => ih

theorem holds_rescue {action : Action Object} {c : Chronicle} (holds : P false s action c) :
    P false s (Delegation.rescue action) (c ++ Chronicle.caught action (fun _ _ => []) s) :=
  logic.onwards (logic.rescue holds) (fun result => by cases result <;> exact quiet_pure _)
    fun result t => by cases result <;> exact ⟨_, t, rfl⟩

/-! ## Expressions -/

mutual

theorem holds_eval (told : run.Told P false bodies) {s : Session} (e : Expr)
    (allowed : Allowed raw e.homebound) :
    P false s (eval run e) (Chronicle.eval run bodies e s) := by
  cases e with
  | void | bool | int | str => exact logic.result _ _ _
  | var name => exact logic.quiet (quiet_readVariable name)
  | bind name value =>
    exact logic.onwards (holds_eval told value allowed)
      (fun x => (quiet_setVariable name x).map fun _ => x) fun x _ => ⟨x, _, rfl⟩
  | drop name => exact logic.ok ((quiet_dropVariable name).map (fun _ => Object.void) s) rfl
  | block body => exact holds_evalBody told body .void allowed
  | cond test yes no =>
    obtain ⟨testAllowed, branches⟩ := allowed.and
    obtain ⟨yesAllowed, noAllowed⟩ := branches.and
    refine logic.seq (holds_eval told test testAllowed) fun x t _ => ?_
    rcases x with (_ | (_ | _) | _ | _ | _ | _) | _
    case value.bool.true => exact holds_eval told yes yesAllowed
    case value.bool.false => exact holds_eval told no noAllowed
    all_goals exact logic.malformed _
  | iterate count body =>
    exact logic.holds_iterate (fun t => holds_evalBody told body .void allowed) count
  | log value =>
    exact logic.onwards (holds_eval told value allowed)
      (fun x => (quiet_logObject x).map fun _ => x) fun x _ => ⟨x, _, rfl⟩
  | rescue body => exact logic.holds_rescue (holds_evalBody told body .void allowed)
  | annotate note body => exact logic.annotate note (holds_evalBody told body .void allowed)
  | callable name params body => exact logic.quiet (logic.quiet_makeCallable name params allowed)
  | nullary name body => exact logic.ok ((logic.quiet_newScript allowed).map _ s) rfl
  | withScope scope body =>
    obtain ⟨scopeAllowed, bodyAllowed⟩ := allowed.and
    refine logic.seq (holds_eval told scope scopeAllowed) fun x t _ => logic.given fun id _ => ?_
    exact logic.hold (logic.scope id fun u => holds_evalBody told body .void bodyAllowed)
  | withFrame frame body =>
    have free : raw = true := allowed.resolve_right (by simp [Expr.homebound])
    refine logic.seq (holds_eval told frame (.inl free)) fun x t _ => logic.given fun f _ => ?_
    exact logic.hold (logic.frame (.inl free) fun u => holds_evalBody told body .void (.inl free))
  | enterFrame frame body =>
    have free : raw = true := allowed.resolve_right (by simp [Expr.homebound])
    refine logic.seq (holds_eval told frame (.inl free)) fun x t _ => logic.given fun f _ => ?_
    exact logic.enter free fun u => holds_evalBody told body .void (.inl free)
  | withMachine machine body =>
    have free : raw = true := allowed.resolve_right (by simp [Expr.homebound])
    refine logic.seq (holds_eval told machine (.inl free)) fun x t _ => logic.given fun m _ => ?_
    exact logic.hold
      (logic.switch m free fun u => holds_evalBody told body .void (.inl free))
  | machine config =>
    exact logic.step (quiet_ofConfig config s) fun registry t _ =>
      logic.build t config registry
  | machineOn config registry =>
    exact logic.seq (holds_eval told registry allowed) fun x t _ =>
      logic.given fun registry _ => logic.build t config registry
  | install config =>
    have free : raw = true := allowed.resolve_right (by simp [Expr.homebound])
    exact logic.step (quiet_ofConfig config s) fun registry t _ =>
      logic.install free t config registry
  | installOn config registry =>
    have free : raw = true := allowed.resolve_right (by simp [Expr.homebound])
    exact logic.seq (holds_eval told registry (.inl free)) fun x t _ =>
      logic.given fun registry _ => logic.install free t config registry
  | apply operation operands =>
    obtain ⟨proper, operandsAllowed⟩ := allowed.and
    exact logic.seq (holds_evalOperands told operands operandsAllowed) fun xs t _ =>
      logic.holds_act told operation xs proper

theorem holds_evalBody (told : run.Told P false bodies) {s : Session} (body : List Expr)
    (last : Object) (allowed : Allowed raw (Expr.homeboundAll body)) :
    P false s (evalBody run body last) (Chronicle.evalBody run bodies body last s) := by
  cases body with
  | nil => exact logic.ok (quiet_pure last s) rfl
  | cons e rest =>
    obtain ⟨here, further⟩ := allowed.and
    exact logic.seq (logic.hold (holds_eval told e here)) fun x t _ =>
      holds_evalBody told rest x further

theorem holds_evalOperands (told : run.Told P false bodies) {s : Session} (operands : List Expr)
    (allowed : Allowed raw (Expr.homeboundAll operands)) :
    P false s (evalOperands run operands) (Chronicle.evalOperands run bodies operands s) := by
  cases operands with
  | nil => exact logic.result _ _ _
  | cons e rest =>
    obtain ⟨here, further⟩ := allowed.and
    refine logic.seq (holds_eval told e here) fun x t _ => ?_
    exact logic.map (logic.hold (holds_evalOperands told rest further)) _

end

/-! ## Bodies and programs -/

theorem told_runBody (nesting : Nat) : Runner.Told P false (runBody nesting)
    (Body.chronicle nesting) := by
  induction nesting with
  | zero => exact fun body s => logic.exhausted
  | succ nesting ih =>
    intro body s
    cases body with
    | script address =>
      refine logic.code fun known => ?_
      refine logic.note (logic.reading (fun _ => rfl) (logic.map ?_ _)) trivial
      apply logic.holds_evalBody ih
      rw [Array.getD_eq_getD_getElem?]
      cases found : s.code[address]? with
      | none => exact .inr rfl
      | some body => exact known body (Array.mem_of_getElem? found)
    | root method => exact logic.note (logic.holds_rootMethod ih method) trivial

theorem holds_expr (nesting : Nat) {e : Expr} (allowed : Allowed raw e.homebound) :
    P false s (eval (runBody nesting) e) (e.chronicle nesting s) :=
  logic.holds_eval (logic.told_runBody nesting) e allowed

theorem holds_step {e : Expr} (allowed : Allowed raw e.homebound) :
    P false s (Program.step e) (Program.stepChronicle e s) := by
  let reported : Action Datum := do reportObject (← eval (runBody nestingBound) e)
  have evaluated (t : Session) : P false t reported (e.chronicle nestingBound t) :=
    logic.onwards (logic.holds_expr nestingBound allowed) quiet_reportObject fun _ _ => ⟨_, _, rfl⟩
  have answered (t : Session) : P false t (attempt reported >>= Program.answerStep)
      (e.chronicle nestingBound t ++ Chronicle.caught reported (fun _ _ => []) t) :=
    logic.onwards (logic.rescue (evaluated t)) quiet_answerStep fun result u => by
      cases result <;> exact ⟨_, u, rfl⟩
  let clear : Action Unit := modify fun session => { session with log := [] }
  have cleared : clear.QuietAt R s := .of_change rfl (Harmless.report s s.reported []) fun _ => rfl
  have holds : P false s (clear >>= fun _ => attempt reported >>= Program.answerStep)
      (Chronicle.step clear _ s) := logic.step cleared fun _ t _ => answered t
  exact holds

theorem holds_runSteps {steps : List Expr} (allowed : Allowed raw (Expr.homeboundAll steps)) :
    P false s (Program.runSteps steps) (Program.chronicle steps s) := by
  induction steps generalizing s with
  | nil => exact logic.result _ _ _
  | cons e rest ih =>
    obtain ⟨here, further⟩ := allowed.and
    exact logic.seq (logic.holds_step here) fun report t _ => logic.map (ih further) _

end Logic

end Delegation
