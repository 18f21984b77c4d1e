import Delegation.Program
import Delegation.Proofs.Run.Commands

/-!
# Evaluation runs

Evaluating an expression makes a run, by induction on the expression: its forms are the operations
and brackets that runs are made of. Running a body does, by induction on the depth to which bodies
are followed.
-/

namespace Delegation

open Delegation.Action Delegation.Object

variable {raw : Bool} {s : Session} {run : Runner}

/-! ## Forms -/

theorem runs_readVariable (fit : s.Fit raw) (name : String) :
    Runs raw s (readVariable name) Object.refs := by
  apply runs_get_bind
  split
  · next x found =>
    obtain ⟨before, after, vars, _⟩ := List.lookup_eq_some_iff.1 found
    exact runs_pure (fit.vars (name, x) (by simp [vars]))
  · exact runs_malformed _

theorem runs_setVariable (name : String) {x : Object} (known : s.heap.HasAll x.refs) :
    Runs raw s (setVariable name x) fun _ => [] := ⟨.setVariable name known, Heap.hasAll_nil _⟩

theorem runs_dropVariable (name : String) : Runs raw s (dropVariable name) fun _ => [] :=
  ⟨.dropVariable s name, Heap.hasAll_nil _⟩

theorem runs_reportObject (fit : s.Fit raw) {x : Object} (known : s.heap.HasAll x.refs) :
    Runs raw s (reportObject x) fun _ => [] :=
  runs_holding fit known fun t _ _ => ⟨.report t _ _, Heap.hasAll_nil _⟩

theorem runs_logObject (fit : s.Fit raw) {x : Object} (known : s.heap.HasAll x.refs) :
    Runs raw s (logObject x) fun _ => [] :=
  (runs_reportObject fit known).bind fit fun t _ _ _ _ => ⟨.report t _ _, Heap.hasAll_nil _⟩

theorem runs_startMachine (config : Config) {registry : Registry}
    (known : s.heap.HasAll registry.owned) :
    Runs raw s (startMachine config registry) Object.refs := by
  have made : Runs raw s (newMachine (.fresh config registry)) fun _ => [] :=
    ⟨.machine config known, Heap.hasAll_nil _⟩
  exact made.map fun _ => List.Subset.refl _

theorem runs_installMachine (free : raw = true) (config : Config) {registry : Registry}
    (known : s.heap.HasAll registry.owned) :
    Runs raw s (installMachine config registry) Object.refs := by
  have replaced : Runs raw s (modifyMachine fun _ => .fresh config registry) fun _ => [] :=
    ⟨.install free config known, Heap.hasAll_nil _⟩
  exact replaced.map fun _ => List.Subset.refl _

theorem runs_newScript {body : List Expr} (allowed : Allowed raw (Expr.guardedAll body)) :
    Runs raw s (newScript body) fun _ => [] := ⟨.script s allowed, Heap.hasAll_nil _⟩

theorem runs_makeCallable (fit : s.Fit raw) (name : String) (params : List String)
    {body : List Expr} (allowed : Allowed raw (Expr.guardedAll body)) :
    Runs raw s (makeCallable name params body) Object.refs := by
  apply (runs_newScript allowed).bind fit
  intro t address _ _ _
  split
  · exact runs_pure (Heap.hasAll_nil _)
  · exact runs_fail _

theorem runs_makeNullary (name : String) {body : List Expr}
    (allowed : Allowed raw (Expr.guardedAll body)) :
    Runs raw s (makeNullary name body) Object.refs :=
  (runs_newScript allowed).map fun _ => List.Subset.refl _

variable {action : Action Object}

theorem runs_iterate (fit : s.Fit raw) (runs : ∀ t, t.Fit raw → Runs raw t action Object.refs)
    (count : Nat) : Runs raw s (iterate count action) Object.refs := by
  induction count, action using iterate.induct generalizing s with
  | case1 => exact runs_pure (Heap.hasAll_nil _)
  | case2 => exact runs s fit
  | case3 n action ih => exact (runs s fit).bind fit fun t _ _ fitT _ => ih fitT runs

theorem runs_rescue (fit : s.Fit raw) (runs : Runs raw s action Object.refs) :
    Runs raw s (rescue action) Object.refs := by
  apply runs.attempt.bind fit
  intro t result _ _ known
  cases result with
  | error failure => exact runs_pure (Heap.hasAll_nil _)
  | ok x => exact runs_pure known

theorem runs_underScope (fit : s.Fit raw) {x : Object} (known : s.heap.HasAll x.refs)
    (runs : ∀ t, t.Fit raw → Runs raw t action Object.refs) :
    Runs raw s (underScope x action) Object.refs := by
  apply runs_lift_bind
  intro scope read
  apply runs_holding fit known
  intro t fitT same
  have has := operand_has reads_asScope (hasAll_refsAll.2 (List.forall_mem_singleton.2 known)) read
  exact runs_withScope fitT (same ▸ has) fun u fitU _ => runs u fitU

theorem runs_underFrame (fit : s.Fit raw) {x : Object} (known : s.heap.HasAll x.refs)
    (runs : ∀ t, t.Fit raw → Runs raw t action Object.refs) :
    Runs raw s (underFrame x action) Object.refs := by
  apply runs_lift_bind
  intro frame read
  apply runs_holding fit known
  intro t fitT same
  have frameKnown := operand_known reads_asFrame
    (hasAll_refsAll.2 (List.forall_mem_singleton.2 known)) read
  exact runs_withFrame fitT (same ▸ frameKnown) fun u fitU _ => runs u fitU

theorem runs_insideFrame (fit : s.Fit raw) {x : Object} (known : s.heap.HasAll x.refs)
    (runs : ∀ t, t.Fit raw → Runs raw t action Object.refs) :
    Runs raw s (insideFrame x action) Object.refs := by
  apply runs_lift_bind
  intro frame read
  have frameKnown := operand_known reads_asFrame
    (hasAll_refsAll.2 (List.forall_mem_singleton.2 known)) read
  exact runs_enterFrame fit frameKnown fun t fitT _ => runs t fitT

theorem runs_underMachine (fit : s.Fit raw) {x : Object} (known : s.heap.HasAll x.refs)
    (runs : ∀ t, t.Fit raw → Runs raw t action Object.refs) :
    Runs raw s (underMachine x action) Object.refs :=
  runs_lift_bind fun _ _ => runs_holding fit known fun _ fitT _ =>
    runs_onMachine fitT fun u fitU _ => runs u fitU

/-! ## Evaluation -/

theorem runs_act (runs : run.Runs raw) (fit : s.Fit raw) (operation : Operation)
    {xs : List Object} (known : s.heap.HasAll (refsAll xs))
    (allowed : Allowed raw (!operation.handlesStacks)) :
    Runs raw s (operation.act run xs) Object.refs := by
  refine runs_holding fit known fun t fitT same => ?_
  have operandsKnown : t.heap.HasAll (refsAll xs) := same ▸ known
  cases operation with
  | query query =>
    exact runs_get_bind (leads_lift (.refl t) (gives_answer query fitT operandsKnown))
  | command command => exact runs_command runs fitT command operandsKnown allowed

mutual

/-- Evaluating an expression makes a run. -/
theorem runs_eval {s : Session} (runs : run.Runs raw) (fit : s.Fit raw) (e : Expr)
    (allowed : Allowed raw e.guarded) : Runs raw s (eval run e) Object.refs := by
  cases e with
  | void | bool | int | str => exact runs_pure (Heap.hasAll_nil _)
  | var name => exact runs_readVariable fit name
  | bind name value =>
    apply (runs_eval runs fit value allowed).bind fit
    intro t x _ fitT known
    exact (runs_setVariable name known).bind fitT fun _ _ ran _ _ =>
      runs_pure (ran.known fitT known)
  | drop name => exact (runs_dropVariable name).map fun _ => List.Subset.refl _
  | block body => exact runs_evalBody runs fit body allowed (Heap.hasAll_nil _)
  | cond test yes no =>
    obtain ⟨testAllowed, branches⟩ := allowed.and
    obtain ⟨yesAllowed, noAllowed⟩ := branches.and
    apply (runs_eval runs fit test testAllowed).bind fit
    intro t x _ fitT _
    split
    · exact runs_eval runs fitT yes yesAllowed
    · exact runs_eval runs fitT no noAllowed
    · exact runs_malformed _
  | iterate count body =>
    exact runs_iterate fit
      (fun t fitT => runs_evalBody runs fitT body allowed (Heap.hasAll_nil _)) count
  | log value =>
    apply (runs_eval runs fit value allowed).bind fit
    intro t x _ fitT known
    exact (runs_logObject fitT known).bind fitT fun _ _ ran _ _ => runs_pure (ran.known fitT known)
  | rescue body => exact runs_rescue fit (runs_evalBody runs fit body allowed (Heap.hasAll_nil _))
  | annotate note body =>
    exact (runs_evalBody runs fit body allowed (Heap.hasAll_nil _)).mapFailure _
  | callable name params body => exact runs_makeCallable fit name params allowed
  | nullary name body => exact runs_makeNullary name allowed
  | withScope scope body =>
    apply (runs_eval runs fit scope allowed.and.1).bind fit
    intro t x _ fitT known
    exact runs_underScope fitT known fun u fitU =>
      runs_evalBody runs fitU body allowed.and.2 (Heap.hasAll_nil _)
  | withFrame frame body =>
    apply (runs_eval runs fit frame allowed.and.1).bind fit
    intro t x _ fitT known
    exact runs_underFrame fitT known fun u fitU =>
      runs_evalBody runs fitU body allowed.and.2 (Heap.hasAll_nil _)
  | enterFrame frame body =>
    apply (runs_eval runs fit frame allowed.and.1).bind fit
    intro t x _ fitT known
    exact runs_insideFrame fitT known fun u fitU =>
      runs_evalBody runs fitU body allowed.and.2 (Heap.hasAll_nil _)
  | withMachine machine body =>
    apply (runs_eval runs fit machine allowed.and.1).bind fit
    intro t x _ fitT known
    exact runs_underMachine fitT known fun u fitU =>
      runs_evalBody runs fitU body allowed.and.2 (Heap.hasAll_nil _)
  | machine config =>
    exact (Registry.runs_ofConfig fit config).bind fit fun t registry _ fitT known =>
      runs_startMachine config known
  | machineOn config registry =>
    refine (runs_eval runs fit registry allowed).bind fit fun t x _ fitT known =>
      runs_lift_bind fun found read => runs_startMachine config ?_
    exact operand_known reads_asRegistry (hasAll_refsAll.2 (List.forall_mem_singleton.2 known)) read
  | install config =>
    have free : raw = true := allowed.elim id nofun
    exact (Registry.runs_ofConfig fit config).bind fit fun t registry _ fitT known =>
      runs_installMachine free config known
  | installOn config registry =>
    have free : raw = true := allowed.elim id nofun
    refine (runs_eval runs fit registry (.inl free)).bind fit fun t x _ fitT known =>
      runs_lift_bind fun found read => runs_installMachine free config ?_
    exact operand_known reads_asRegistry (hasAll_refsAll.2 (List.forall_mem_singleton.2 known)) read
  | apply operation operands =>
    apply (runs_evalOperands runs fit operands allowed.and.2).bind fit
    intro t xs _ fitT known
    exact runs_act runs fitT operation known allowed.and.1

theorem runs_evalBody {s : Session} (runs : run.Runs raw) (fit : s.Fit raw)
    (body : List Expr) (allowed : Allowed raw (Expr.guardedAll body)) {last : Object}
    (known : s.heap.HasAll last.refs) : Runs raw s (evalBody run body last) Object.refs := by
  cases body with
  | nil => exact runs_pure known
  | cons e rest =>
    have first : Runs raw s (holding last (eval run e)) Object.refs :=
      runs_holding fit known fun t fitT _ => runs_eval runs fitT e allowed.and.1
    exact first.bind fit fun t x _ fitT xKnown => runs_evalBody runs fitT rest allowed.and.2 xKnown

theorem runs_evalOperands {s : Session} (runs : run.Runs raw) (fit : s.Fit raw)
    (operands : List Expr) (allowed : Allowed raw (Expr.guardedAll operands)) :
    Runs raw s (evalOperands run operands) refsAll := by
  cases operands with
  | nil => exact runs_pure (Heap.hasAll_nil _)
  | cons e rest =>
    apply (runs_eval runs fit e allowed.and.1).bind fit
    intro t x _ fitT known
    have others : Runs raw t (holding x (evalOperands run rest)) refsAll :=
      runs_holding fitT known fun u fitU _ => runs_evalOperands runs fitU rest allowed.and.2
    exact others.bind fitT fun u xs ran _ xsKnown =>
      runs_pure (Heap.hasAll_append.2 ⟨ran.known fitT known, xsKnown⟩)

end

/-! ## Bodies and programs -/

theorem Session.Fit.script (fit : s.Fit raw) (address : Nat) :
    Allowed raw (Expr.guardedAll (s.code.getD address [])) := by
  rw [Array.getD_eq_getD_getElem?]
  cases found : s.code[address]? with
  | none => exact .inr rfl
  | some body => exact fit.allowed body (Array.mem_of_getElem? found)

theorem owned_toValue (x : Object) : x.toValue.owned ⊆ x.refs := by
  cases x <;> first | exact List.Subset.refl _ | exact List.nil_subset _

/-- Running a body makes a run, however deep bodies are followed. -/
theorem runs_runBody (nesting : Nat) : Runner.Runs raw (runBody nesting) := by
  induction nesting with
  | zero => exact fun s body _ => runs_throw _
  | succ nesting ih =>
    intro s body fit
    cases body with
    | script address =>
      exact runs_get_bind ((runs_evalBody ih fit _ (fit.script address) (Heap.hasAll_nil _)).map
        owned_toValue)
    | root method => exact runs_answer ih fit method

theorem runs_step (fit : s.Fit raw) {e : Expr} (allowed : Allowed raw e.guarded) :
    Runs raw s (Program.step e) fun _ => [] := by
  have cleared : Runs raw s (modify fun session => { session with log := [] }) fun _ => [] :=
    ⟨.report s _ _, Heap.hasAll_nil _⟩
  apply cleared.bind fit
  intro t _ _ fitT _
  have reported : Runs raw t (do reportObject (← eval (runBody nestingBound) e)) fun _ => [] :=
    (runs_eval (runs_runBody _) fitT e allowed).bind fitT fun u x _ fitU known =>
      runs_reportObject fitU known
  apply reported.attempt.bind fitT
  intro u result _ _ _
  split <;> exact runs_get_bind (runs_pure (Heap.hasAll_nil _))

theorem runs_runSteps (fit : s.Fit raw) {steps : List Expr}
    (allowed : Allowed raw (Expr.guardedAll steps)) :
    Runs raw s (Program.runSteps steps) fun _ => [] := by
  induction steps generalizing s with
  | nil => exact runs_pure (Heap.hasAll_nil _)
  | cons e rest ih =>
    exact (runs_step fit allowed.and.1).bind fit fun t _ _ fitT _ =>
      (ih fitT allowed.and.2).map fun _ => List.Subset.refl _

end Delegation
