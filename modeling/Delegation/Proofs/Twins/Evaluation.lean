import Delegation.Proofs.Run.Evaluation
import Delegation.Proofs.Twins.Commands

/-!
# Evaluation agrees

Blind expressions agree from twins, by induction on the expression, as long as bodies do that are
run on the way. So bodies agree, by induction on the depth to which they are followed, wherever the
runs are calm.
-/

namespace Delegation

open Delegation.Action

open Object (untraced untracedAll Alike refsAll)

variable {callers : Callers} {upper : List Frame} {start start' s t : Session} {run : Runner}
  {inside inside' : Body → Session → Prop}

/-! ## Root methods -/

namespace Paired

variable (paired : Paired callers start start' run inside inside')

include paired

theorem selfEntity (twins : FitTwins callers upper s t) (framed : upper ≠ [])
    (calm : Heeding.lookup (Calm start) inside "self" s)
    (calm' : Heeding.lookup (Calm start') inside' "self" t) :
    Agrees callers upper Eq s t (selfEntity run) (selfEntity run) := by
  apply (paired.lookup twins framed calm calm').bind twins
    (runs_lookup paired.runs twins.fit "self")
  intro v _ u w _ _ same _ twins' _
  subst same
  cases v with
  | entity e => exact agrees_pure twins'.toTwin rfl
  | void | bool | int | str | binding => exact agrees_fail twins'.toTwin _

theorem rootMethod (twins : FitTwins callers upper s t) (framed : upper ≠ []) (method : RootMethod)
    (calm : Heeding.rootMethod (Calm start) run inside method s)
    (calm' : Heeding.rootMethod (Calm start') run inside' method t) :
    Agrees callers upper Eq s t (method.answer run) (method.answer run) := by
  apply (paired.selfEntity twins framed calm.1 calm'.1).bind twins
    (runs_selfEntity paired.runs twins.fit)
  intro e _ u w gives gives' same _ twins' _
  subst same
  cases method with
  | id => exact agrees_pure twins'.toTwin rfl
  | type | super | text =>
    apply agrees_get_bind
    rw [twins'.heap]
    exact agrees_pure twins'.toTwin rfl
  | hasMember =>
    apply (paired.lookup twins' framed (calm.2 rfl _ _ gives) (calm'.2 rfl _ _ gives')).bind twins'
      (runs_lookup paired.runs twins'.fit "name")
    intro v _ u' w' _ _ same _ twins'' _
    subst same
    cases v with
    | str name =>
      apply agrees_get_bind
      rw [twins''.heap]
      exact agrees_pure twins''.toTwin rfl
    | void | bool | int | entity | binding => exact agrees_fail twins''.toTwin _

end Paired

/-! ## Variables and reports -/

theorem lookup_untracedVars (s : Session) (name : String) :
    s.untracedVars.lookup name = (s.vars.lookup name).map untraced := by
  unfold Session.untracedVars
  induction s.vars with
  | nil => rfl
  | cons entry rest ih =>
    obtain ⟨other, x⟩ := entry
    rw [List.map_cons, List.lookup_cons, List.lookup_cons, ih]
    cases name == other <;> rfl

theorem untracedVars_varsBut (s : Session) (name : String) :
    (s.varsBut name).map (fun (n, x) => (n, untraced x)) =
      s.untracedVars.filter fun (other, _) => other != name := by
  rw [Session.varsBut, Session.untracedVars, List.filter_map]
  rfl

theorem agrees_readVariable (twin : Twin callers upper s t) (name : String) :
    Agrees callers upper Alike s t (readVariable name) (readVariable name) := by
  have same : (s.vars.lookup name).map untraced = (t.vars.lookup name).map untraced := by
    rw [← lookup_untracedVars, ← lookup_untracedVars, twin.vars]
  apply agrees_get_bind
  cases found : s.vars.lookup name with
  | none =>
    cases found' : t.vars.lookup name with
    | none => exact agrees_malformed twin _
    | some x' => simp [found, found'] at same
  | some x =>
    cases found' : t.vars.lookup name with
    | none => simp [found, found'] at same
    | some x' =>
      rw [found, found'] at same
      exact agrees_pure twin (Option.some.inj same)

theorem Twin.withVars (twin : Twin callers upper s t) {vars vars' : List (String × Object)}
    (alike : vars.map (fun (n, x) => (n, untraced x)) =
      vars'.map (fun (n, x) => (n, untraced x))) :
    Twin callers upper { s with vars } { t with vars := vars' } := by
  obtain ⟨around, is⟩ : ∃ around, t = s.amid around := ⟨_, twin.around⟩
  refine { twin with around := ?_, vars := alike }
  rw [is]
  rfl

theorem agrees_setVariable (twin : Twin callers upper s t) (name : String) {x x' : Object}
    (alike : x.Alike x') :
    Agrees callers upper Eq s t (setVariable name x) (setVariable name x') := by
  refine .ok rfl rfl rfl { twin.withVars ?_ with back := rfl }
  rw [List.map_cons, List.map_cons, untracedVars_varsBut, untracedVars_varsBut, twin.vars]
  exact congrArg (fun x => (name, x) :: _) alike

theorem agrees_dropVariable (twin : Twin callers upper s t) (name : String) :
    Agrees callers upper Eq s t (dropVariable name) (dropVariable name) := by
  refine .ok rfl rfl rfl { twin.withVars ?_ with back := rfl }
  rw [untracedVars_varsBut, untracedVars_varsBut, twin.vars]

/-- What has been reported does not matter. -/
theorem Twin.report (twin : Twin callers upper s t) (reported reported' : List EntityId)
    (log log' : List Datum) :
    Twin callers upper { s with reported, log }
      { t with reported := reported', log := log' } := by
  obtain ⟨around, is⟩ : ∃ around, t = s.amid around := ⟨_, twin.around⟩
  refine { twin with around := ?_ }
  rw [is]
  rfl

theorem logObject_eq (x : Object) (s : Session) :
    ∃ reported log, logObject x s = .ok () { s with reported, log } := ⟨_, _, rfl⟩

theorem agrees_logObject (twin : Twin callers upper s t) (x x' : Object) :
    Agrees callers upper Eq s t (logObject x) (logObject x') := by
  obtain ⟨_, _, logs⟩ := logObject_eq x s
  obtain ⟨_, _, logs'⟩ := logObject_eq x' t
  exact .ok logs logs' rfl { twin.report _ _ _ _ with back := rfl }

/-! ## Forms -/

theorem agrees_startMachine (twin : Twin callers upper s t) (config : Config)
    (registry : Registry) :
    Agrees callers upper Alike s t (startMachine config registry)
      (startMachine config registry) := by
  refine .ok rfl rfl ?_ { twin.newMachine _ with back := rfl }
  show Object.machine ⟨s.machines.size⟩ = Object.machine ⟨t.machines.size⟩
  rw [twin.size]

theorem oblivious_makeCallable (name : String) (params : List String) (body : List Expr) :
    Oblivious (makeCallable name params body) :=
  (Oblivious.newScript body).bind fun address => by
    split
    · exact .pure _
    · exact .fail _

theorem oblivious_makeNullary (name : String) (body : List Expr) :
    Oblivious (makeNullary name body) := (Oblivious.newScript body).map _

variable {action action' : Action Object} {inner inner' : Session → Prop}

theorem agrees_iterate
    (runs : ∀ u, u.Fit true → Runs true u action Object.refs)
    (agrees : ∀ u v, FitTwins callers upper u v → inner u → inner' v →
      Agrees callers upper Alike u v action action') (count : Nat)
    (twins : FitTwins callers upper s t) (calm : Heeding.times action inner count s)
    (calm' : Heeding.times action' inner' count t) :
    Agrees callers upper Alike s t (iterate count action) (iterate count action') := by
  induction count generalizing s t with
  | zero => exact agrees_pure twins.toTwin rfl
  | succ n ih =>
    cases n with
    | zero => exact agrees _ _ twins calm.1 calm'.1
    | succ n =>
      apply (agrees _ _ twins calm.1 calm'.1).bind twins (runs s twins.fit)
      intro _ _ u v gives gives' _ _ twins' _
      exact ih twins' (calm.2 _ _ gives) (calm'.2 _ _ gives')

theorem rescue_of_ok {x : Object} (gives : action s = .ok x t) : rescue action s = .ok x t := by
  simp only [rescue, Bind.bind, EStateM.bind, attempt, gives]
  rfl

theorem rescue_of_failure {failure : Failure} (stops : action s = .error (.failure failure) t) :
    rescue action s = .ok (.failure failure) t := by
  simp only [rescue, Bind.bind, EStateM.bind, attempt, stops]
  rfl

theorem rescue_of_other {stop : Stop} (other : ∀ failure, stop ≠ .failure failure)
    (stops : action s = .error stop t) : rescue action s = .error stop t := by
  cases stop with
  | failure failure => exact absurd rfl (other failure)
  | malformed | exhausted => simp only [rescue, Bind.bind, EStateM.bind, attempt, stops]

theorem Agrees.rescue (agrees : Agrees callers upper Alike s t action action') :
    Agrees callers upper Alike s t (rescue action) (rescue action') := by
  cases agrees with
  | ok gives gives' same ends => exact .ok (rescue_of_ok gives) (rescue_of_ok gives') same ends
  | error stops stops' same ends =>
    rcases Stop.eq_or_failures same with ⟨_, _, rfl, rfl, failures⟩ | ⟨rfl, other⟩
    · exact .ok (rescue_of_failure stops) (rescue_of_failure stops')
        (congrArg Object.failure failures) ends
    · exact .error (rescue_of_other other stops) (rescue_of_other other stops') rfl ends

theorem Object.Alike.eq_or_not_values {x x' : Object} (alike : x.Alike x') :
    x' = x ∨ (∀ v, x ≠ .value v) ∧ ∀ v, x' ≠ .value v := by
  have same : x'.asValue? = x.asValue? := by
    rw [← traceless_asValue, ← traceless_asValue x, show x.untraced = x'.untraced from alike]
  have value {y : Object} {v : Value} (is : y.asValue? = some v) : y = .value v := by
    cases y <;> cases is
    rfl
  cases is : x.asValue? with
  | some v => exact .inl ((value (same.trans is)).trans (value is).symm)
  | none =>
    rw [is] at same
    refine .inr ⟨fun v there => ?_, fun v there => ?_⟩
    · rw [there] at is
      cases is
    · rw [there] at same
      cases same

section Operands

variable {x x' : Object} (alike : x.Alike x')

include alike

/-- Operands that are alike are read as the same. -/
theorem operand_alike {α : Type} {read : Object → Option α} (traceless : Traceless read) :
    operand [x'] 0 read = operand [x] 0 read := by
  have same : untracedAll [x'] = untracedAll [x] := congrArg (fun x => [x]) alike.symm
  rw [← operand_untracedAll traceless, same, operand_untracedAll traceless]

theorem agrees_operand_bind {α β : Type} {R : β → β → Prop} {read : Object → Option α}
    (traceless : Traceless read) (twin : Twin callers upper s t) {next next' : α → Action β}
    (agrees : ∀ a, operand [x] 0 read = .ok a → operand [x'] 0 read = .ok a →
      Agrees callers upper R s t (next a) (next' a)) :
    Agrees callers upper R s t ((liftM (operand [x] 0 read) : Action α) >>= next)
      ((liftM (operand [x'] 0 read) : Action α) >>= next') := by
  have same := operand_alike alike traceless
  rw [same] at agrees ⊢
  exact agrees_lift_bind twin fun a is => agrees a is is

variable (twins : FitTwins callers upper s t) (known : s.heap.HasAll x.refs)

include twins known

theorem agrees_underScope (framed : upper ≠ [])
    (calm : Heeding.given (operand [x] 0 Object.asScope?) fun id =>
      Heeding.keeping x (Heeding.inScope (Calm start) id inner) s)
    (calm' : Heeding.given (operand [x'] 0 Object.asScope?) fun id =>
      Heeding.keeping x' (Heeding.inScope (Calm start') id inner') t)
    (agrees : ∀ upper' u v, upper' ≠ [] → FitTwins callers upper' u v → inner u → inner' v →
      Agrees callers upper' Alike u v action action') :
    Agrees callers upper Alike s t (underScope x action) (underScope x' action') := by
  apply agrees_operand_bind alike traceless_asScope twins.toTwin
  intro id read read'
  apply agrees_keeping twins alike known (calm id read) (calm' id read')
  intro u v twins' _ heap calm calm'
  have has := operand_has reads_asScope (hasAll_refsAll.2 (List.forall_mem_singleton.2 known)) read
  exact agrees_withScope twins' framed (heap ▸ has) calm calm'
    fun upper' w w' framed' twins'' _ => agrees upper' w w' framed' twins''

theorem agrees_underFrame (framed : upper ≠ [])
    (calm : Heeding.given (operand [x] 0 Object.asFrame?) fun frame =>
      Heeding.keeping x (Heeding.inFrame (Calm start) frame inner) s)
    (calm' : Heeding.given (operand [x'] 0 Object.asFrame?) fun frame =>
      Heeding.keeping x' (Heeding.inFrame (Calm start') frame inner') t)
    (agrees : ∀ upper' u v, upper' ≠ [] → FitTwins callers upper' u v → inner u → inner' v →
      Agrees callers upper' Alike u v action action') :
    Agrees callers upper Alike s t (underFrame x action) (underFrame x' action') := by
  apply agrees_operand_bind alike traceless_asFrame twins.toTwin
  intro frame read read'
  apply agrees_keeping twins alike known (calm frame read) (calm' frame read')
  intro u v twins' _ heap calm calm'
  have frameKnown := operand_known reads_asFrame
    (hasAll_refsAll.2 (List.forall_mem_singleton.2 known)) read
  exact agrees_withFrame twins' (.inl framed) (heap ▸ frameKnown) calm calm'
    fun upper' w w' framed' twins'' _ => agrees upper' w w' framed' twins''

theorem agrees_insideFrame (framed : upper ≠ [])
    (calm : Heeding.given (operand [x] 0 Object.asFrame?) fun frame =>
      Heeding.inFrame (Calm start) frame inner s)
    (calm' : Heeding.given (operand [x'] 0 Object.asFrame?) fun frame =>
      Heeding.inFrame (Calm start') frame inner' t)
    (agrees : ∀ upper' u v, upper' ≠ [] → FitTwins callers upper' u v → inner u → inner' v →
      Agrees callers upper' Alike u v action action') :
    Agrees callers upper Alike s t (insideFrame x action) (insideFrame x' action') := by
  apply agrees_operand_bind alike traceless_asFrame twins.toTwin
  intro frame read read'
  have frameKnown := operand_known reads_asFrame
    (hasAll_refsAll.2 (List.forall_mem_singleton.2 known)) read
  exact agrees_enterFrame twins (.inl framed) frameKnown (calm frame read) (calm' frame read')
    fun upper' u v framed' twins' _ => agrees upper' u v framed' twins'

theorem agrees_underMachine
    (calm : Heeding.given (operand [x] 0 Object.asMachine?) fun m =>
      Heeding.keeping x (Heeding.onMachine m inner) s)
    (calm' : Heeding.given (operand [x'] 0 Object.asMachine?) fun m =>
      Heeding.keeping x' (Heeding.onMachine m inner') t)
    (agrees : ∀ u v, FitTwins callers upper u v → inner u → inner' v →
      Agrees callers upper Alike u v action action') :
    Agrees callers upper Alike s t (underMachine x action) (underMachine x' action') := by
  apply agrees_operand_bind alike traceless_asMachine twins.toTwin
  intro m read read'
  apply agrees_keeping twins alike known (calm m read) (calm' m read')
  intro u v twins' _ _ calm calm'
  exact agrees_onMachine twins' m calm calm' fun w w' twins'' _ => agrees w w' twins''

end Operands

theorem blind_and {a b : Bool} (both : (a && b) = true) : a = true ∧ b = true :=
  Bool.and_eq_true_iff.1 both

/-! ## Expressions -/

namespace Paired

mutual

/-- Blind expressions agree. -/
theorem eval {upper : List Frame} {s t : Session}
    (paired : Paired callers start start' run inside inside')
    (twins : FitTwins callers upper s t) (framed : upper ≠ []) (e : Expr) (blind : e.blind = true)
    (calm : Heeding.eval (Calm start) run inside e s)
    (calm' : Heeding.eval (Calm start') run inside' e t) :
    Agrees callers upper Alike s t (eval run e) (eval run e) := by
  cases e with
  | void | bool | int | str => exact agrees_pure twins.toTwin rfl
  | var name => exact agrees_readVariable twins.toTwin name
  | bind name value =>
    apply (paired.eval twins framed value blind calm calm').bind twins
      (runs_eval paired.runs twins.fit value (.inl rfl))
    intro x x' u v _ _ alike _ twins' known
    exact (agrees_setVariable twins'.toTwin name alike).map fun _ _ _ => alike
  | drop name => exact (agrees_dropVariable twins.toTwin name).map fun _ _ _ => rfl
  | block body => exact paired.evalBody twins framed body blind rfl (Heap.hasAll_nil _) calm calm'
  | cond test yes no =>
    obtain ⟨testBlind, branches⟩ := blind_and blind
    obtain ⟨yesBlind, noBlind⟩ := blind_and branches
    apply (paired.eval twins framed test testBlind calm.1 calm'.1).bind twins
      (runs_eval paired.runs twins.fit test (.inl rfl))
    intro x x' u v gives gives' alike _ twins' _
    replace calm := calm.2 _ _ gives
    replace calm' := calm'.2 _ _ gives'
    -- The tests are one value or none is a value, so both runs take the same branch.
    rcases alike.eq_or_not_values with rfl | ⟨other, other'⟩
    · split
      · exact paired.eval twins' framed yes yesBlind calm calm'
      · exact paired.eval twins' framed no noBlind calm calm'
      · exact agrees_malformed twins'.toTwin _
    · split
      · exact absurd rfl (other _)
      · exact absurd rfl (other _)
      · split
        · exact absurd rfl (other' _)
        · exact absurd rfl (other' _)
        · exact agrees_malformed twins'.toTwin _
  | iterate count body =>
    refine agrees_iterate (fun u fit => runs_evalBody paired.runs fit body (.inl rfl)
      (Heap.hasAll_nil _)) (fun u v twins' calm calm' => ?_) count twins calm calm'
    exact paired.evalBody twins' framed body blind rfl (Heap.hasAll_nil _) calm calm'
  | log value =>
    apply (paired.eval twins framed value blind calm calm').bind twins
      (runs_eval paired.runs twins.fit value (.inl rfl))
    intro x x' u v _ _ alike _ twins' known
    exact (agrees_logObject twins'.toTwin x x').map fun _ _ _ => alike
  | rescue body =>
    exact (paired.evalBody twins framed body blind rfl (Heap.hasAll_nil _) calm calm').rescue
  | annotate note body =>
    refine (paired.evalBody twins framed body blind rfl (Heap.hasAll_nil _) calm calm').mapFailure
      fun failure failure' same => ?_
    rw [Failure.untraced_withNote, Failure.untraced_withNote, same]
  | callable name params body => exact (oblivious_makeCallable name params body).alike twins
  | nullary name body => exact (oblivious_makeNullary name body).alike twins
  | withScope scope body =>
    obtain ⟨scopeBlind, bodyBlind⟩ := blind_and blind
    apply (paired.eval twins framed scope scopeBlind calm.1 calm'.1).bind twins
      (runs_eval paired.runs twins.fit scope (.inl rfl))
    intro x x' u v gives gives' alike _ twins' known
    apply agrees_underScope alike twins' known framed (calm.2 _ _ gives) (calm'.2 _ _ gives')
    intro upper' w w' framed' twins'' calm calm'
    exact paired.evalBody twins'' framed' body bodyBlind rfl (Heap.hasAll_nil _) calm calm'
  | withFrame frame body =>
    obtain ⟨frameBlind, bodyBlind⟩ := blind_and blind
    apply (paired.eval twins framed frame frameBlind calm.1 calm'.1).bind twins
      (runs_eval paired.runs twins.fit frame (.inl rfl))
    intro x x' u v gives gives' alike _ twins' known
    apply agrees_underFrame alike twins' known framed (calm.2 _ _ gives) (calm'.2 _ _ gives')
    intro upper' w w' framed' twins'' calm calm'
    exact paired.evalBody twins'' framed' body bodyBlind rfl (Heap.hasAll_nil _) calm calm'
  | enterFrame frame body =>
    obtain ⟨frameBlind, bodyBlind⟩ := blind_and blind
    apply (paired.eval twins framed frame frameBlind calm.1 calm'.1).bind twins
      (runs_eval paired.runs twins.fit frame (.inl rfl))
    intro x x' u v gives gives' alike _ twins' known
    apply agrees_insideFrame alike twins' known framed (calm.2 _ _ gives) (calm'.2 _ _ gives')
    intro upper' w w' framed' twins'' calm calm'
    exact paired.evalBody twins'' framed' body bodyBlind rfl (Heap.hasAll_nil _) calm calm'
  | withMachine machine body =>
    obtain ⟨machineBlind, bodyBlind⟩ := blind_and blind
    apply (paired.eval twins framed machine machineBlind calm.1 calm'.1).bind twins
      (runs_eval paired.runs twins.fit machine (.inl rfl))
    intro x x' u v gives gives' alike _ twins' known
    apply agrees_underMachine alike twins' known (calm.2 _ _ gives) (calm'.2 _ _ gives')
    intro w w' twins'' calm calm'
    exact paired.evalBody twins'' framed body bodyBlind rfl (Heap.hasAll_nil _) calm calm'
  | machine config =>
    apply ((Oblivious.ofConfig config).agrees twins.toTwin).bind twins
      (Registry.runs_ofConfig twins.fit config)
    intro registry _ u v _ _ same _ twins' _
    subst same
    exact agrees_startMachine twins'.toTwin config registry
  | machineOn config registry =>
    apply (paired.eval twins framed registry blind calm calm').bind twins
      (runs_eval paired.runs twins.fit registry (.inl rfl))
    intro x x' u v _ _ alike _ twins' _
    exact agrees_operand_bind alike traceless_asRegistry twins'.toTwin fun found _ _ =>
      agrees_startMachine twins'.toTwin config found
  | install | installOn => cases blind
  | apply operation operands =>
    obtain ⟨operationBlind, operandsBlind⟩ := blind_and blind
    apply (paired.evalOperands twins framed operands operandsBlind calm.1 calm'.1).bind twins
      (runs_evalOperands paired.runs twins.fit operands (.inl rfl))
    intro xs ys u v gives gives' alike _ twins' known
    exact paired.act twins' framed operation operationBlind known alike (calm.2 _ _ gives)
      (calm'.2 _ _ gives')

theorem evalBody {upper : List Frame} {s t : Session}
    (paired : Paired callers start start' run inside inside')
    (twins : FitTwins callers upper s t) (framed : upper ≠ []) (body : List Expr)
    (blind : Expr.blindAll body = true) {last last' : Object} (alike : last.Alike last')
    (known : s.heap.HasAll last.refs)
    (calm : Heeding.evalBody (Calm start) run inside body last s)
    (calm' : Heeding.evalBody (Calm start') run inside' body last' t) :
    Agrees callers upper Alike s t (evalBody run body last) (evalBody run body last') := by
  cases body with
  | nil => exact agrees_pure twins.toTwin alike
  | cons e rest =>
    obtain ⟨firstBlind, restBlind⟩ := blind_and blind
    have first : Agrees callers upper Alike s t (holding last (Delegation.eval run e))
        (holding last' (Delegation.eval run e)) :=
      agrees_keeping twins alike known calm.1 calm'.1 fun u v twins' _ _ calm calm' =>
        paired.eval twins' framed e firstBlind calm calm'
    have runs : Runs true s (holding last (Delegation.eval run e)) Object.refs :=
      runs_holding twins.fit known fun u fit _ => runs_eval paired.runs fit e (.inl rfl)
    apply first.bind twins runs
    intro x x' u v gives gives' alike' _ twins' xKnown
    exact paired.evalBody twins' framed rest restBlind alike' xKnown (calm.2 _ _ gives)
      (calm'.2 _ _ gives')

theorem evalOperands {upper : List Frame} {s t : Session}
    (paired : Paired callers start start' run inside inside')
    (twins : FitTwins callers upper s t) (framed : upper ≠ []) (operands : List Expr)
    (blind : Expr.blindAll operands = true)
    (calm : Heeding.evalOperands (Calm start) run inside operands s)
    (calm' : Heeding.evalOperands (Calm start') run inside' operands t) :
    Agrees callers upper (fun xs ys => untracedAll xs = untracedAll ys) s t
      (evalOperands run operands) (evalOperands run operands) := by
  cases operands with
  | nil => exact agrees_pure twins.toTwin rfl
  | cons e rest =>
    obtain ⟨firstBlind, restBlind⟩ := blind_and blind
    apply (paired.eval twins framed e firstBlind calm.1 calm'.1).bind twins
      (runs_eval paired.runs twins.fit e (.inl rfl))
    intro x x' u v gives gives' alike _ twins' known
    have others : Agrees callers upper (fun xs ys => untracedAll xs = untracedAll ys) u v
        (holding x (Delegation.evalOperands run rest))
        (holding x' (Delegation.evalOperands run rest)) :=
      agrees_keeping twins' alike known (calm.2 _ _ gives) (calm'.2 _ _ gives')
        fun u' v' twins'' _ _ calm calm' =>
          paired.evalOperands twins'' framed rest restBlind calm calm'
    refine others.map fun xs ys same => ?_
    show x.untraced :: untracedAll xs = x'.untraced :: untracedAll ys
    rw [show x.untraced = x'.untraced from alike, same]

end

/-! ## Bodies -/

/-- Bodies agree wherever they run calmly, to whatever depth they are followed. -/
theorem runBody (callers : Callers) (world : SameWorld start start') (nesting : Nat) :
    Paired callers start start' (runBody nesting) ((Calm start).heeded nesting)
      ((Calm start').heeded nesting) := by
  induction nesting with
  | zero =>
    refine ⟨world, runs_runBody 0, fun upper s t body _ twins _ _ => ?_⟩
    exact agrees_throw twins.toTwin rfl
  | succ nesting paired =>
    -- The bodies inside of this one agree, which is all that evaluation needs to know.
    refine ⟨world, runs_runBody (nesting + 1), fun upper s t body framed twins calm calm' => ?_⟩
    obtain ⟨blind, calm⟩ := calm
    obtain ⟨-, calm'⟩ := calm'
    cases body with
    | root method => exact paired.rootMethod twins framed method calm calm'
    | script address =>
      have code : t.code = s.code := by
        rw [twins.around]
        rfl
      dsimp only at calm calm'
      rw [code] at calm'
      apply agrees_get_bind
      dsimp only
      rw [code]
      exact (paired.evalBody twins framed _ blind rfl (Heap.hasAll_nil _) calm calm').map
        fun _ _ alike => alike.toValue

end Paired

end Delegation
