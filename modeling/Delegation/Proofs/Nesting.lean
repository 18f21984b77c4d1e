import Delegation.Proofs.Activation

/-!
# Nests of calls

In a nest every body but the innermost makes one further call and passes its failure on, and the
innermost makes none. With a limit on the depth and a budget the smaller one stops a nest that is
too deep, and the budget if they are equal: an attempt is counted before the budget is looked at,
and both are looked at before a frame is pushed. So the attempt that fails has been counted, one
more than there are frames; and as the trace is taken inside the innermost frame, it shows all the
frames there were, or is missing if there were none.
-/

namespace Delegation

namespace Session

variable {s t u : Session} {b : BindingId} {args : List Value} {body : Body} {run : Runner}
  {m n d c k : Nat}

/-! ## Nests -/

/-- No call has been made, and as many frames are on the stack as before. -/
structure Idles (s t : Session) : Prop where
  mode : t.machine.mode = s.machine.mode
  calls : t.machine.calls = s.machine.calls
  limit : t.machine.stack.limit = s.machine.stack.limit
  depth : t.machine.stack.depth = s.machine.stack.depth

/-- A body makes one further call. If the call succeeds the body goes on and succeeds, and if it
fails the body fails in the same way. -/
structure Relays (run : Runner) (body : Body) (u : Session) (inner : Runner) (b : BindingId)
    (args : List Value) (t : Session) : Prop where
  before : u.Idles t
  succeeds : ∀ v t', b.call inner args t = .ok v t' →
    ∃ w u', run body u = .ok w u' ∧ t'.Idles u'
  fails : ∀ failure t', b.call inner args t = .error (.failure failure) t' →
    ∃ u', run body u = .error (.failure failure) u' ∧ t'.Idles u'

/-- A nest of calls of some depth, whatever kinds of bindings are called. -/
inductive Nests : Nat → Runner → BindingId → List Value → Session → Prop
  | innermost {run : Runner} {b : BindingId} {args : List Value} {s t u : Session} {body : Body}
      {v : Value} (due : s.Due b args body u) (ends : run body u = .ok v t) (idles : u.Idles t) :
      Nests 1 run b args s
  | around {k : Nat} {run inner : Runner} {b b' : BindingId} {args args' : List Value}
      {s t u : Session} {body : Body} (due : s.Due b args body u)
      (relays : Relays run body u inner b' args' t) (deeper : Nests k inner b' args' t) :
      Nests (k + 1) run b args s

/-! ## Where a nest is stopped -/

/-- A machine with a limit of `m` and a budget of `n` has `d` frames and has counted `c` calls. -/
structure Within (s : Session) (m n d c : Nat) : Prop where
  mode : s.machine.mode = .bounded n
  limit : s.machine.stack.limit = some m
  depth : s.machine.stack.depth = d
  calls : s.machine.calls = c

/-- Why a nest is stopped that is deeper than a limit or a budget allows. -/
def stopping (limit budget : Nat) : Cause :=
  if budget ≤ limit then .budgetExceeded (budget + 1) budget else .depthExceeded limit

/-- What a nest of `k` calls comes to that is started inside `d` others. -/
inductive Fares (m n d k : Nat) : EStateM.Result Stop Session Value → Prop
  | through {v : Value} {t : Session} (enough : d + k ≤ min m n) (ends : t.Within m n d (d + k)) :
      Fares m n d k (.ok v t)
  | stopped {failure : Failure} {t : Session} (beyond : min m n < d + k)
      (cause : failure.cause = stopping m n) (notes : failure.notes = [])
      (trace : failure.trace.map List.length = if d < min m n then some (min m n) else none)
      (ends : t.Within m n d (min m n + 1)) : Fares m n d k (.error (.failure failure) t)

theorem Within.idles (within : s.Within m n d c) (idles : s.Idles t) : t.Within m n d c where
  mode := idles.mode.trans within.mode
  limit := idles.limit.trans within.limit
  depth := idles.depth.trans within.depth
  calls := idles.calls.trans within.calls

theorem Within.counted {kind : BindingKind} (within : s.Within m n d c)
    (small : c < Machine.maxCalls)
    (is : t.machine = s.machine.countCall kind) : t.Within m n d (c + 1) := by
  have calls := within.calls
  refine ⟨is ▸ within.mode, is ▸ within.limit, is ▸ within.depth, ?_⟩
  rw [is]
  show min (s.machine.calls + 1) Machine.maxCalls = c + 1
  omega

theorem Within.due (within : s.Within m n d c) (small : c < Machine.maxCalls)
    (due : s.Due b args body u) : u.Within m n (d + 1) (c + 1) := by
  obtain ⟨kind, frame, is⟩ := due.machine
  have counted : Within { s with machine := s.machine.countCall kind } m n d (c + 1) :=
    within.counted small rfl
  refine ⟨is ▸ counted.mode, is ▸ counted.limit, ?_, is ▸ counted.calls⟩
  rw [is]
  exact congrArg (· + 1) within.depth

theorem Within.leave (within : t.Within m n (d + 1) c) (s : Session) :
    (s.leave t).Within m n d c := by
  refine ⟨within.mode, within.limit, ?_, within.calls⟩
  have depth : (s.leave t).machine.stack.depth = t.machine.stack.depth - 1 := List.length_tail
  rw [depth, within.depth]
  rfl

theorem Within.overBudget? (within : s.Within m n d d) (small : d < Machine.maxCalls) :
    (s.machine.countCall .method).overBudget? =
      if n < d + 1 then some (.budgetExceeded (d + 1) n) else none := by
  have counted : Within { s with machine := s.machine.countCall .method } m n d (d + 1) :=
    within.counted small rfl
  have budget : (s.machine.countCall .method).mode.callBudget = some n := by
    rw [counted.mode]
    rfl
  rw [Machine.overBudget?, budget, counted.calls]

theorem Within.affords (within : s.Within m n d d) (small : d < Machine.maxCalls)
    (room : d < min m n) : s.Affords := by
  refine ⟨fun limit limited => ?_, ?_⟩
  · rw [within.limit, Option.some.injEq] at limited
    rw [within.depth]
    omega
  · rw [within.overBudget? small, if_neg (by omega)]

/-- Where the limit or the budget is reached the next call is refused. -/
theorem Within.rejects (within : s.Within m n d d) (small : d < Machine.maxCalls)
    (reached : d = min m n) (due : s.Due b args body u) :
    ∃ t, s.Rejects b args (stopping m n) t := by
  have budget := within.overBudget? small
  unfold stopping
  split
  · obtain rfl : d = n := by omega
    rw [if_pos (Nat.lt_succ_self d)] at budget
    exact rejects_of_over budget b args
  · rw [if_neg (by omega)] at budget
    have full : m ≤ s.machine.stack.depth := by
      rw [within.depth]
      omega
    exact due.rejects_of_full budget within.limit full

theorem length_trace_traced {failure : Failure} (within : t.Within m n (d + 1) c) :
    (t.traced failure).trace.map List.length =
      some ((failure.trace.map List.length).getD (d + 1)) := by
  have framed : t.machine.stack.frames.isEmpty = false := by
    rw [List.isEmpty_eq_false_iff, ← List.length_pos_iff]
    have depth : t.machine.stack.frames.length = d + 1 := within.depth
    omega
  unfold traced Heap.attachTrace
  cases is : failure.trace with
  | some trace => simp [is]
  | none =>
    have depth : t.machine.stack.frames.length = d + 1 := within.depth
    simp [framed, Failure.withTrace, Heap.trace, depth]

theorem Rejects.fares (rejects : s.Rejects b args (stopping m n) t) (within : s.Within m n d d)
    (small : d < Machine.maxCalls) (reached : d = min m n) (pos : 0 < k) (run : Runner) :
    Fares m n d k (b.call run args s) := by
  obtain ⟨kind, counted⟩ := rejects.counted
  rw [rejects.fails]
  refine .stopped (by omega) rfl rfl ?_ (reached ▸ within.counted small counted)
  rw [if_neg (by omega)]
  rfl

theorem Relays.fares {inner : Runner} (relays : Relays run body u inner b args t)
    (fares : Fares m n d k (b.call inner args t)) : Fares m n d k (run body u) := by
  generalize is : b.call inner args t = result at fares
  cases fares with
  | through enough ends =>
    obtain ⟨w, u', gives, idles⟩ := relays.succeeds _ _ is
    rw [gives]
    exact .through enough (ends.idles idles)
  | stopped beyond cause notes trace ends =>
    obtain ⟨u', gives, idles⟩ := relays.fails _ _ is
    rw [gives]
    exact .stopped beyond cause notes trace (ends.idles idles)

theorem Fares.leave {result : EStateM.Result Stop Session Value}
    (fares : Fares m n (d + 1) k result) (room : d < min m n) (s : Session) :
    Fares m n d (k + 1) (unwind s.leave traced result) := by
  have deeper : d + 1 + k = d + (k + 1) := by omega
  cases fares with
  | through enough ends => exact .through (deeper ▸ enough) (deeper ▸ ends.leave s)
  | stopped beyond cause notes trace ends =>
    refine .stopped (deeper ▸ beyond) ?_ ?_ ?_ (ends.leave s)
    · exact (Heap.cause_attachTrace _ _ _).trans cause
    · exact (Heap.notes_attachTrace _ _ _).trans notes
    · rw [length_trace_traced ends, trace, if_pos room]
      split
      · rfl
      · -- this is the innermost frame, and the failure takes its trace here
        have last : d + 1 = min m n := by omega
        rw [← last]
        rfl

/-- A nest comes to its end or is stopped where the smaller of limit and budget is reached. The
induction goes inwards, with one call more around what is left of the nest. -/
theorem Nests.fares (nests : Nests k run b args s) (within : s.Within m n d d)
    (small : min (d + k) (min m n + 1) ≤ Machine.maxCalls) (room : d ≤ min m n) :
    Fares m n d k (b.call run args s) := by
  induction nests generalizing d with
  | innermost due ends idles =>
    have small : d < Machine.maxCalls := by omega
    rcases Nat.lt_or_eq_of_le room with room | reached
    · rw [(due.surrounds (within.affords small room)).runs, ends]
      have inside := (within.due small due).idles idles
      exact Fares.leave (.through (k := 0) (by omega) inside) room _
    · obtain ⟨t, rejects⟩ := within.rejects small reached due
      exact rejects.fares within small reached Nat.one_pos _
  | @around k _ _ _ _ _ _ _ _ _ _ due relays deeper ih =>
    have further : min (d + 1 + k) (min m n + 1) ≤ Machine.maxCalls := by omega
    have small : d < Machine.maxCalls := by omega
    rcases Nat.lt_or_eq_of_le room with room | reached
    · rw [(due.surrounds (within.affords small room)).runs]
      have inside := (within.due small due).idles relays.before
      exact (relays.fares (ih inside further room)).leave room _
    · obtain ⟨t, rejects⟩ := within.rejects small reached due
      exact rejects.fares within small reached (Nat.succ_pos _) _

/-! ## Nests on a fresh machine -/

/-- A nest that is started on a fresh machine with a limit on the depth and a budget succeeds if and
only if neither is smaller than the nest is deep. Otherwise it fails for the smaller of the two, for
the budget if they are equal, with one more call counted than there were frames, and with a trace of
all those frames. The stack is empty afterwards. All this holds as long as the calls that are made
can be counted. -/
theorem nested_calls {config : Config} {registry : Registry}
    (fresh : s.machine = .fresh config registry) (mode : config.mode = .bounded n)
    (limit : config.stackLimit = some m) (small : min k (min m n + 1) ≤ Machine.maxCalls)
    (nests : Nests k run b args s) :
    ((b.call run args).succeeds s = true ↔ k ≤ m ∧ k ≤ n) ∧
    (k ≤ m → k ≤ n → ((b.call run args).after s).machine.calls = k) ∧
    (n ≤ m → n < k → ∃ failure t, b.call run args s = .error (.failure failure) t ∧
      failure.cause = .budgetExceeded (n + 1) n ∧ failure.notes = [] ∧
      failure.trace.map List.length = (if 0 < n then some n else none) ∧
      t.machine.calls = n + 1) ∧
    (m < n → m < k → ∃ failure t, b.call run args s = .error (.failure failure) t ∧
      failure.cause = .depthExceeded m ∧ failure.notes = [] ∧
      failure.trace.map List.length = (if 0 < m then some m else none) ∧
      t.machine.calls = m + 1) ∧
    ((b.call run args).after s).machine.stack.frames = [] := by
  have within : s.Within m n 0 0 :=
    ⟨fresh ▸ mode, fresh ▸ limit, fresh ▸ rfl, fresh ▸ rfl⟩
  have fares := nests.fares within ((Nat.zero_add k).symm ▸ small) (Nat.zero_le _)
  generalize is : b.call run args s = result at fares
  simp only [Action.succeeds, Action.after, is]
  cases fares with
  | through enough ends =>
    rw [Nat.zero_add] at enough ends
    refine ⟨iff_of_true rfl (by omega), fun _ _ => ends.calls, fun _ _ => by omega,
      fun _ _ => by omega, List.length_eq_zero_iff.1 ends.depth⟩
  | stopped beyond cause notes trace ends =>
    rw [Nat.zero_add] at beyond
    refine ⟨iff_of_false Bool.false_ne_true (by omega), fun _ _ => by omega, fun least _ => ?_,
      fun least _ => ?_, List.length_eq_zero_iff.1 ends.depth⟩
    · rw [Nat.min_eq_right least] at trace ends
      exact ⟨_, _, rfl, cause.trans (if_pos least), notes, trace, ends.calls⟩
    · rw [Nat.min_eq_left (Nat.le_of_lt least)] at trace ends
      exact ⟨_, _, rfl, cause.trans (if_neg (Nat.not_le_of_lt least)), notes, trace, ends.calls⟩

/-! ## A nest of scripts -/

theorem relays_of_script {address : Nat} (name : String) (nesting : Nat)
    (code : u.code.getD address [] = [.apply (.command (.call .callBinding)) [.var name]])
    (var : u.vars.lookup name = some (.value (.binding b))) :
    Relays (runBody (nesting + 1)) (.script address) u (runBody nesting) b []
      { u with held := .list [.value (.binding b)] :: .void :: u.held } := by
  have gives : runBody (nesting + 1) (.script address) u =
      match b.call (runBody nesting) []
        { u with held := .list [.value (.binding b)] :: .void :: u.held } with
      | .ok v t => .ok v { t with held := u.held }
      | .error stop t => .error stop { t with held := u.held } := by
    have callee (t : Session) : (liftM (operand [Object.value (.binding b)] 0 Object.asBinding?) :
        Action BindingId) t = .ok b t := rfl
    have nothing (t : Session) : (liftM (operandsFrom [Object.value (.binding b)] 1
        Object.asValue?) : Action (List Value)) t = .ok [] t := rfl
    simp only [runBody, bind, EStateM.bind, Action.get_eq_ok, code, evalBody, holding, eval,
      evalOperands, readVariable, var, pure, EStateM.pure, Operation.act, Command.act,
      CallCommand.act, callee, nothing]
    cases b.call (runBody nesting) []
        { u with held := .list [.value (.binding b)] :: .void :: u.held } with
    | ok v t => rfl
    | error stop t => rfl
  refine ⟨⟨rfl, rfl, rfl, rfl⟩, fun v t' is => ?_, fun failure t' is => ?_⟩
  · rw [gives, is]
    exact ⟨v, _, rfl, rfl, rfl, rfl, rfl⟩
  · rw [gives, is]
    exact ⟨_, rfl, rfl, rfl, rfl, rfl⟩

/-- The variable of the binding that a script calls, if it does nothing else. -/
def callee? : List Expr → Option String
  | [.apply (.command (.call .callBinding)) [.var name]] => some name
  | _ => none

theorem relays_of_callee {address : Nat} {name : String} (nesting : Nat)
    (calls : callee? (u.code.getD address []) = some name)
    (var : (u.vars.lookup name).bind Object.asBinding? = some b) :
    Relays (runBody (nesting + 1)) (.script address) u (runBody nesting) b []
      { u with held := .list [.value (.binding b)] :: .void :: u.held } := by
  obtain ⟨callee, found, is⟩ := Option.bind_eq_some_iff.1 var
  unfold Object.asBinding? at is
  split at is
  · cases is
    unfold callee? at calls
    split at calls
    · next code =>
      cases calls
      exact relays_of_script name nesting code found
    · cases calls
  · cases is

theorem runBody_nil {address : Nat} (nesting : Nat)
    (code : (u.code.getD address []).isEmpty = true) :
    runBody (nesting + 1) (.script address) u = .ok .void u := by
  simp only [runBody, bind, EStateM.bind, Action.get_eq_ok, List.isEmpty_iff.1 code, evalBody, pure,
    EStateM.pure]
  rfl

/-- A function that calls a method that calls a closure, on a machine with a budget of two. -/
theorem nested_calls_of_three :
    let call (name : String) : Expr := .apply (.command (.call .callBinding)) [.var name]
    let s := (Program.runSteps
      [.bind "e" (.apply (.command (.entity .entity)) [.str "E"]),
        .bind "c" (.apply (.command (.call .closure)) [.nullary "c" []]),
        .bind "m" (.apply (.command (.call .bound)) [.nullary "m" [call "c"], .var "e"]),
        .bind "f" (.apply (.command (.call .function)) [.nullary "f" [call "m"], .void])]).after
          (Program.ready { mode := .bounded 2, depthLimit := some (some 5) })
    Nests 3 (runBody 3) ⟨2⟩ [] s ∧
      ∃ failure t, BindingId.call (runBody 3) ⟨2⟩ [] s = .error (.failure failure) t ∧
        failure.cause = .budgetExceeded 3 2 ∧ failure.trace.map List.length = some 2 ∧
        t.machine.calls = 3 ∧ t.machine.stack.frames = [] := by
  intro call s
  have fresh : s.machine =
      .fresh { mode := .bounded 2, depthLimit := some (some 5) } s.machine.registry := by
    decide +kernel
  obtain ⟨closure, method, function⟩ :
      s.heap.binding ⟨0⟩ = ⟨.nullary "c" (.script 0), .closure s.machine.toplevelFrame⟩ ∧
      s.heap.binding ⟨1⟩ = ⟨.nullary "m" (.script 1), .method ⟨0⟩⟩ ∧
      s.heap.binding ⟨2⟩ = ⟨.nullary "f" (.script 2), .function none⟩ := by decide +kernel
  obtain ⟨innermost, middle, outermost⟩ : (s.code.getD 0 []).isEmpty = true ∧
      callee? (s.code.getD 1 []) = some "c" ∧ callee? (s.code.getD 2 []) = some "m" := by
    decide +kernel
  obtain ⟨closureVar, methodVar⟩ : (s.vars.lookup "c").bind Object.asBinding? = some ⟨0⟩ ∧
      (s.vars.lookup "m").bind Object.asBinding? = some ⟨1⟩ := by decide +kernel
  clear_value s
  have nests : Nests 3 (runBody 3) ⟨2⟩ [] s :=
    .around (.function function rfl) (relays_of_callee 2 outermost methodVar)
      (.around (.method (.inl method) rfl) (relays_of_callee 1 middle closureVar)
        (.innermost (.closure closure rfl) (runBody_nil 0 innermost) ⟨rfl, rfl, rfl, rfl⟩))
  obtain ⟨-, -, stopped, -, empty⟩ := nested_calls fresh rfl rfl (by decide) nests
  obtain ⟨failure, t, fails, cause, -, trace, calls⟩ := stopped (by decide) (by decide)
  rw [Action.after, fails] at empty
  exact ⟨nests, failure, t, fails, cause, trace, calls, empty⟩

end Session

end Delegation
