import Delegation.Proofs.Logic.Evaluation
import Delegation.Proofs.Run.Evaluation
import Delegation.Proofs.Secrecy.Commands

/-!
# Programs do not see a secret

No expression sees a secret, by induction on the expression, if bodies do not; so no body does, by
induction on the depth to which bodies are followed, and neither do the steps of a program, one
after another. What they report is the same as well, for what an object looks like from outside does
not depend on anything that it does not lead to.
-/

namespace Delegation

open Delegation.Action Delegation.Object

variable {α : Type} {secret : Secret} {s : Session} {run : Runner}
  {bodies : Body → Session → Chronicle} {c : Chronicle}

/-! ## Reports -/

namespace Session.Hides

mutual

theorem report_veil (hides : s.Hides secret) :
    ∀ (x : Object) (reported : List EntityId), secret.Bare x →
      (s.veil secret).report x reported = s.report x reported
  | .list items, reported, bare => by
    have same := hides.reportAll_veil items reported (Secret.bare_list.1 bare)
    rw [report, report, same]
  | .scope x, reported, bare => by
    have found : ¬secret.lost (.node (.scope x)) := bare _ (List.mem_singleton.2 rfl)
    simp only [report, Session.veil, hides.heap.scope_veil_of_open found]
  | .chain d, reported, bare => by
    have found : ¬secret.lost (.chain d) := bare _ (List.mem_singleton.2 rfl)
    have same := hides.heap.reportChain_veil (hides.chains d found)
    exact congrArg (fun chain => (Datum.record [("chain", chain)], reported)) same
  | .frame f, reported, bare => by
    have chainClear := (Secret.clear_append.1 (Secret.Bare.refs bare)).2
    have same := hides.heap.reportChain_veil chainClear
    simp only [report, Session.veil, same]
    rfl
  | .weak e, reported, _ => by rw [report, report, hides.isLive_veil]
  | .registry registry, reported, bare => by
    have found := (Secret.clear_cons.1 (Secret.Bare.refs bare)).1
    simp only [report, Session.veil, hides.heap.scope_veil_of_open found]
  | .value _, _, _ | .cell _, _, _ | .callable _, _, _ | .stack _, _, _ | .failure _, _, _
  | .builder _, _, _ | .machine _, _, _ => rfl

theorem reportAll_veil (hides : s.Hides secret) :
    ∀ (xs : List Object) (reported : List EntityId), (∀ x ∈ xs, secret.Bare x) →
      (s.veil secret).reportAll xs reported = s.reportAll xs reported
  | [], _, _ => rfl
  | x :: xs, reported, bare => by
    obtain ⟨first, rest⟩ := List.forall_mem_cons.1 bare
    rw [reportAll, reportAll, hides.report_veil x reported first]
    simp only [hides.reportAll_veil xs _ rest]

end

end Session.Hides

theorem blind_reportObject {x : Object} (bare : secret.Bare x) :
    Blind secret s (reportObject x) (fun _ => True) c := by
  have held : Blind secret s (reportObject x) (fun _ => True)
      (Chronicle.keeping x (fun _ => []) s) := by
    apply blind_holding bare
    intro hides _
    refine .ok rfl ?_ { hides with } trivial
    dsimp only
    rw [hides.report_veil x _ bare]
    rfl
  exact Blind.still held

theorem blind_logObject {x : Object} (bare : secret.Bare x) :
    Blind secret s (logObject x) (fun _ => True) c :=
  (blind_reportObject bare).onwards fun _ _ _ _ => fun hides _ =>
    .ok rfl rfl { hides with } trivial

/-! ## Forms -/

theorem blind_readVariable (name : String) :
    Blind secret s (readVariable name) secret.Bare c := by
  apply blind_of_hides
  intro hides
  apply blind_get_bind fun _ => rfl
  cases found : s.vars.lookup name with
  | none => exact blind_malformed _
  | some x =>
    obtain ⟨before, after, vars, _⟩ := List.lookup_eq_some_iff.1 found
    exact blind_pure (hides.vars (name, x) (by simp [vars]))

theorem blind_setVariable (name : String) {x : Object} (bare : secret.Bare x) :
    Blind secret s (setVariable name x) (fun _ => True) c :=
  fun hides _ => .ok rfl rfl (hides.setVariable name bare) trivial

theorem blind_dropVariable (name : String) :
    Blind secret s (dropVariable name) (fun _ => True) c :=
  fun hides _ => .ok rfl rfl (hides.dropVariable name) trivial

theorem blind_startMachine (config : Config) {registry : Registry}
    (clear : secret.Clear registry.owned) :
    Blind secret s (startMachine config registry) secret.Bare c := by
  have made : Blind secret s (newMachine (.fresh config registry))
      (fun m => ¬secret.lost (.machine m)) c :=
    fun hides _ => .ok rfl rfl (hides.addMachine clear) hides.fresh_machine
  exact made.map fun _ found => List.forall_mem_singleton.2 found

theorem blind_installMachine (config : Config) {registry : Registry}
    (clear : secret.Clear registry.owned) :
    Blind secret s (installMachine config registry) secret.Bare c := by
  have replaced : Blind secret s (modifyMachine fun _ => .fresh config registry)
      (fun _ => True) c :=
    fun hides _ => .ok rfl rfl (hides.withMachine clear) trivial
  exact replaced.map fun _ _ => Secret.bare_of_nil rfl

theorem blind_newScript (body : List Expr) :
    Blind secret s (newScript body) (fun _ => True) c :=
  fun hides _ => .ok rfl rfl { hides with } trivial

theorem blind_makeCallable (name : String) (params : List String) (body : List Expr) :
    Blind secret s (makeCallable name params body) secret.Bare c :=
  (blind_newScript body).onwards fun address _ _ _ => by
    cases Callable.create name params address with
    | ok callable => exact blind_pure (Secret.bare_of_nil rfl)
    | error cause => exact blind_fail cause

theorem blind_iterate {action : Action Object} {inner : Session → Chronicle}
    (blind : ∀ t, Blind secret t action secret.Bare (inner t)) (count : Nat) :
    Blind secret s (iterate count action) secret.Bare
      (Chronicle.times action inner count s) := by
  induction count generalizing s with
  | zero => exact blind_pure (Secret.bare_of_nil rfl)
  | succ n ih =>
    cases n with
    | zero => exact (blind s).followed _
    | succ n => exact (blind s).bind fun _ t _ _ => ih

/-! ## Expressions -/

theorem Secret.bare_singleton {x : Object} (bare : secret.Bare x) : ∀ y ∈ [x], secret.Bare y :=
  List.forall_mem_singleton.2 bare

mutual

theorem blind_eval (discreet : run.Discreet secret bodies) {s : Session} (e : Expr) :
    Blind secret s (eval run e) secret.Bare (Chronicle.eval run bodies e s) := by
  cases e with
  | void | bool | int | str => exact blind_pure (Secret.bare_of_nil rfl)
  | var name => exact blind_readVariable name
  | bind name value =>
    exact (blind_eval discreet value).onwards fun x _ _ bare =>
      (blind_setVariable name bare).map fun _ _ => bare
  | drop name => exact (blind_dropVariable name).map fun _ _ => Secret.bare_of_nil rfl
  | block body => exact blind_evalBody discreet body (Secret.bare_of_nil rfl)
  | cond test yes no =>
    refine (blind_eval discreet test).bind fun x t _ _ => ?_
    rcases x with (_ | (_ | _) | _ | _ | _ | _) | _
    case value.bool.true => exact blind_eval discreet yes
    case value.bool.false => exact blind_eval discreet no
    all_goals exact blind_malformed _
  | iterate count body =>
    exact blind_iterate (fun t => blind_evalBody discreet body (Secret.bare_of_nil rfl)) count
  | log value =>
    exact (blind_eval discreet value).onwards fun x _ _ bare =>
      (blind_logObject bare).map fun _ _ => bare
  | rescue body => exact (blind_evalBody discreet body (Secret.bare_of_nil rfl)).rescue
  | annotate note body =>
    exact ((blind_evalBody discreet body (Secret.bare_of_nil rfl)).mapFailure _).followed _
  | callable name params body => exact blind_makeCallable name params body
  | nullary name body => exact (blind_newScript body).map fun _ _ => Secret.bare_of_nil rfl
  | withScope scope body =>
    refine (blind_eval discreet scope).bind fun x t _ bare => blind_given fun id read => ?_
    have found := operand_found (Secret.bare_singleton bare) reads_asScope read
    exact blind_holding bare
      (blind_withScope (fun u => blind_evalBody discreet body (Secret.bare_of_nil rfl)) found)
  | withFrame frame body =>
    refine (blind_eval discreet frame).bind fun x t _ bare => blind_given fun f read => ?_
    have frameClear := operand_clear (Secret.bare_singleton bare) reads_asFrame read
    exact blind_holding bare (blind_withFrame frameClear fun u =>
      blind_evalBody discreet body (Secret.bare_of_nil rfl))
  | enterFrame frame body =>
    refine (blind_eval discreet frame).bind fun x t _ bare => blind_given fun f read => ?_
    have frameClear := operand_clear (Secret.bare_singleton bare) reads_asFrame read
    exact blind_enterFrame frameClear fun u =>
      blind_evalBody discreet body (Secret.bare_of_nil rfl)
  | withMachine machine body =>
    refine (blind_eval discreet machine).bind fun x t _ bare => blind_given fun m read => ?_
    have found := operand_names (Secret.bare_singleton bare) names_asMachine read
    exact blind_holding bare (blind_onMachine (fun u =>
      blind_evalBody discreet body (Secret.bare_of_nil rfl)) found)
  | machine config =>
    exact (Registry.blind_ofConfig config).onwards fun _ _ _ clear =>
      blind_startMachine config clear
  | machineOn config registry =>
    refine (blind_eval discreet registry).bind fun x t _ bare => blind_given fun r read => ?_
    exact blind_startMachine config
      (operand_clear (Secret.bare_singleton bare) reads_asRegistry read)
  | install config =>
    exact (Registry.blind_ofConfig config).onwards fun _ _ _ clear =>
      blind_installMachine config clear
  | installOn config registry =>
    refine (blind_eval discreet registry).bind fun x t _ bare => blind_given fun r read => ?_
    exact blind_installMachine config
      (operand_clear (Secret.bare_singleton bare) reads_asRegistry read)
  | apply operation operands =>
    exact (blind_evalOperands discreet operands).bind fun xs t _ bare =>
      blind_act bare discreet operation

theorem blind_evalBody (discreet : run.Discreet secret bodies) {s : Session} (body : List Expr)
    {last : Object} (bare : secret.Bare last) :
    Blind secret s (evalBody run body last) secret.Bare
      (Chronicle.evalBody run bodies body last s) := by
  cases body with
  | nil => exact blind_pure bare
  | cons e rest =>
    exact (blind_holding bare (blind_eval discreet e)).bind fun x t _ bare =>
      blind_evalBody discreet rest bare

theorem blind_evalOperands (discreet : run.Discreet secret bodies) {s : Session}
    (operands : List Expr) :
    Blind secret s (evalOperands run operands) (fun xs => ∀ x ∈ xs, secret.Bare x)
      (Chronicle.evalOperands run bodies operands s) := by
  cases operands with
  | nil => exact blind_pure nofun
  | cons e rest =>
    exact (blind_eval discreet e).bind fun x t _ bare =>
      (blind_holding bare (blind_evalOperands discreet rest)).map fun xs others =>
        List.forall_mem_cons.2 ⟨bare, others⟩

end

/-! ## Bodies and programs -/

theorem discreet_runBody (nesting : Nat) :
    Runner.Discreet secret (runBody nesting) (Body.chronicle nesting) := by
  induction nesting with
  | zero => exact fun body s => blind_throw _
  | succ nesting ih =>
    intro body s
    cases body with
    | script address =>
      refine Blind.noted (blind_get_bind (fun _ => rfl) ?_) _
      exact (blind_evalBody ih _ (Secret.bare_of_nil rfl)).map fun x bare =>
        (Secret.Bare.refs bare).subset (owned_toValue x)
    | root method => exact (blind_rootMethod ih method).noted _

namespace Program

theorem blind_answerStep (result : Except Failure Datum) :
    Blind secret s (answerStep result) (fun _ => True) c := by
  cases result <;> exact blind_get_bind (fun _ => rfl) (blind_pure trivial)

theorem blind_step (e : Expr) :
    Blind secret s (step e) (fun _ => True) (stepChronicle e s) := by
  intro hides spares
  have cleared : { s with log := [] }.Hides secret := { hides with }
  have evaluated : Blind secret { s with log := [] }
      (do reportObject (← eval (runBody nestingBound) e)) (fun _ => True)
      (e.chronicle nestingBound { s with log := [] }) :=
    (blind_eval (discreet_runBody nestingBound) e).onwards fun _ _ _ bare =>
      blind_reportObject bare
  have answered : Veiled secret { s with log := [] } _ fun _ => True :=
    (evaluated.attempt.onwards fun result _ _ _ => blind_answerStep result) cleared spares
  cases answered with
  | ok gives veiled hides => exact .ok gives veiled hides trivial
  | error stops veiled hides => exact .error stops veiled hides

theorem blind_runSteps (steps : List Expr) :
    Blind secret s (runSteps steps) (fun _ => True) (chronicle steps s) := by
  induction steps generalizing s with
  | nil => exact blind_pure trivial
  | cons e rest ih => exact (blind_step e).bind fun _ _ _ _ => ih.map fun _ _ => trivial

end Program

end Delegation
