import Delegation.Proofs.Budget

/-!
# Calls that come to a body

Which body a call is due to run, and in which session the body would begin, is settled by the
binding and the arguments. The limit on the depth and the budget decide no more than whether it
comes to that. If it does, the body is run once, and all that the call does around it is alike for
all bindings: a frame is pushed and taken away again, and a failure that leaves the frame takes the
trace of the stack along. If it does not, the call has been counted and nothing has been run.
-/

namespace Delegation

variable {s t u : Session} {b : BindingId} {args : List Value} {body : Body} {callable : Callable}
  {owner : EntityId} {frame : Frame} {x : ScopeId} {kind : BindingKind}

/-! ## Around a body -/

theorem unwind_unwind (leave leave' : Session → Session)
    (report report' : Session → Failure → Failure) (result : EStateM.Result Stop Session Value) :
    unwind leave report (unwind leave' report' result) =
      unwind (fun t => leave (leave' t))
        (fun t failure => report (leave' t) (report' t failure)) result := by
  cases result with
  | ok v t => rfl
  | error stop t => cases stop <;> rfl

namespace Session

/-- A failure as it leaves the frame that is current. -/
def traced (t : Session) (failure : Failure) : Failure :=
  t.heap.attachTrace t.machine.stack failure

/-- The session without what has been taken in hand since another one. -/
def putDown (s t : Session) : Session := { t with held := s.held }

/-- The session that a call leaves behind which was made in one session and whose body ended in
another. -/
def leave (s t : Session) : Session := s.putDown t.popFrame

/-- Scopes in front of a chain do not show in a trace. -/
theorem traced_mapFrame_popInner (t : Session) (failure : Failure) :
    (t.mapFrame Frame.popInner).traced failure = t.traced failure := by
  obtain ⟨heap, code, ⟨⟨frames, limit⟩, registry, mode, calls, counters⟩⟩ := t
  cases frames <;> rfl

theorem popFrame_mapFrame_popInner (t : Session) :
    (t.mapFrame Frame.popInner).popFrame = t.popFrame := by
  obtain ⟨heap, code, ⟨⟨frames, limit⟩, registry, mode, calls, counters⟩⟩ := t
  cases frames <;> rfl

end Session

theorem holding_eq_unwind (y : Object) (action : Action Value) (s : Session) :
    holding y action s =
      unwind s.putDown (fun _ failure => failure) (action { s with held := y :: s.held }) := by
  simp only [holding]
  cases action { s with held := y :: s.held } with
  | ok v t => rfl
  | error stop t => cases stop <;> rfl

theorem withFrame_eq_unwind {stack : CallStack} (fits : s.machine.stack.push frame = .ok stack)
    (action : Action Value) : withFrame frame action s =
      unwind Session.popFrame Session.traced (action (s.withStack stack)) := by
  simp only [withFrame, enterFrame, pushFrame, fits, tracing, Session.withStack]
  cases action { s with machine := { s.machine with stack } } with
  | ok v t => rfl
  | error stop t => cases stop <;> rfl

theorem withScope_eq_unwind (framed : s.machine.stack.frames ≠ []) (action : Action Value) :
    withScope x action s = unwind (·.mapFrame Frame.popInner) (fun _ failure => failure)
      (action (s.mapFrame (·.pushInner x))) := by
  rw [withScope, if_neg (by simpa using framed)]
  simp only [shadowing]
  cases action (s.mapFrame (·.pushInner x)) with
  | ok v t => rfl
  | error stop t => cases stop <;> rfl

theorem Chronicle.inScope_eq (framed : s.machine.stack.frames ≠ []) (action : Action Value)
    (inner : Session → Chronicle) :
    Chronicle.inScope x action inner s = inner (s.mapFrame (·.pushInner x)) := by
  rw [Chronicle.inScope, if_neg (by simpa using framed)]
  rfl

/-- The session in which the body of a callable begins that is invoked inside a frame. -/
def Session.passing (s : Session) (callable : Callable) (args : List Value) : Session :=
  let made := s.heap.addScope (callable.parameters args)
  { s with heap := made.2 }.mapFrame (·.pushInner made.1)

theorem Callable.invoke_eq_unwind (run : Runner) (enough : args.length = callable.arity)
    (framed : s.machine.stack.frames ≠ []) : callable.invoke run args s =
      unwind (·.mapFrame Frame.popInner) (fun _ failure => failure)
        (run callable.body (s.passing callable args)) := by
  rw [callable.invoke_eq run enough]
  exact withScope_eq_unwind (s := { s with heap := (s.heap.addScope _).2 }) framed _

theorem Chronicle.invoke_eq (run : Runner) (bodies : Body → Session → Chronicle)
    (enough : args.length = callable.arity) (framed : s.machine.stack.frames ≠ []) :
    Chronicle.invoke run bodies callable args s =
      bodies callable.body (s.passing callable args) := by
  simp only [Chronicle.invoke, if_neg (not_not_intro enough), Callable.bindParameters_eq_ok enough]
  exact Chronicle.inScope_eq (s := { s with heap := (s.heap.addScope _).2 }) framed _ _

/-! ## Calls that are due to run a body -/

namespace Session

/-- The session in which a call has been counted and it is looked at whether it goes on. -/
def counting (s : Session) (kind : BindingKind) (b : BindingId) : Session :=
  { s with machine := s.machine.countCall kind, held := .value (.binding b) :: s.held }

/-- A call is due to run a body, which is to begin in a given session: there are as many arguments
as parameters, and the entity of a method is alive when the call looks at it. -/
inductive Due (s : Session) (b : BindingId) (args : List Value) : Body → Session → Prop
  | function {callable : Callable} {enclosing : Option ScopeId}
      (is : s.heap.binding b = ⟨callable, .function enclosing⟩)
      (enough : args.length = callable.arity) :
      Due s b args callable.body (s.framing .function b callable
        ⟨.binding b, callable.name, enclosing.toList ++ [s.machine.globals]⟩ args)
  | closure {callable : Callable} {frame : Frame}
      (is : s.heap.binding b = ⟨callable, .closure frame⟩)
      (enough : args.length = callable.arity) :
      Due s b args callable.body (s.framing .closure b callable frame args)
  | method {callable : Callable} {owner : EntityId}
      (is : s.heap.binding b = ⟨callable, .method owner⟩ ∨
        s.heap.binding b = ⟨callable, .declared owner⟩ ∧
          (s.counting .method b).isLive owner = true)
      (enough : args.length = callable.arity) :
      Due s b args callable.body
        ((s.calling b owner).serving callable owner ((s.calling b owner).receiver owner) args)

/-- A body that is due begins with one frame more, on a machine that has counted one call more. -/
theorem Due.machine (due : s.Due b args body u) : ∃ kind frame,
    u.machine = { s.machine.countCall kind with
      stack := { s.machine.stack with frames := frame :: s.machine.stack.frames } } := by
  cases due with
  | function => exact ⟨.function, _, rfl⟩
  | closure => exact ⟨.closure, _, rfl⟩
  | method => exact ⟨.method, _, rfl⟩

/-- How a call comes to its body. It pushes a frame in a session in which it has been counted, and
inside the frame it does something that runs the body. -/
structure Framed (s : Session) (b : BindingId) (args : List Value) (body : Body) (u : Session)
    (frame : Frame) (gate : Session) (inner : Runner → Action Value)
    (course : Runner → (Body → Session → Chronicle) → Session → Chronicle) : Prop where
  counted : ∃ kind, gate.machine = s.machine.countCall kind
  calls : ∀ run, b.call run args s =
    unwind s.putDown (fun _ failure => failure) (withFrame frame (inner run) gate)
  told : ∀ run bodies, Chronicle.call run bodies b args s =
    ⟨.call b args, s⟩ :: Chronicle.inFrame true frame (inner run) (course run bodies) gate
  runs : ∀ stack, gate.machine.stack.push frame = .ok stack → ∃ bare : Session → Session,
    (∀ t, (bare t).popFrame = t.popFrame) ∧
    (∀ t failure, (bare t).traced failure = t.traced failure) ∧
    ∀ run, inner run (gate.withStack stack) =
      unwind bare (fun _ failure => failure) (run body u)
  begins : ∀ stack, gate.machine.stack.push frame = .ok stack → ∀ run bodies,
    course run bodies (gate.withStack stack) = ⟨.serve b, u⟩ :: bodies body u

/-- A call that does nothing in its frame but to invoke a callable. -/
theorem Framed.invoke (enough : args.length = callable.arity)
    (calls : ∀ run, b.call run args s = unwind s.putDown (fun _ failure => failure)
      (withFrame frame (callable.invoke run args) (s.counting kind b)))
    (told : ∀ run bodies, Chronicle.call run bodies b args s =
      ⟨.call b args, s⟩ :: Chronicle.inFrame true frame (callable.invoke run args)
        (Chronicle.invoke run (Chronicle.serving bodies b) callable args) (s.counting kind b)) :
    s.Framed b args callable.body (s.framing kind b callable frame args) frame (s.counting kind b)
      (fun run => callable.invoke run args)
      fun run bodies => Chronicle.invoke run (Chronicle.serving bodies b) callable args where
  counted := ⟨kind, rfl⟩
  calls := calls
  told := told
  runs stack fits := by
    obtain rfl := CallStack.eq_of_push fits
    exact ⟨_, popFrame_mapFrame_popInner, traced_mapFrame_popInner,
      fun run => Callable.invoke_eq_unwind run enough (List.cons_ne_nil _ _)⟩
  begins stack fits run bodies := by
    obtain rfl := CallStack.eq_of_push fits
    exact Chronicle.invoke_eq run _ enough (List.cons_ne_nil _ _)

theorem framed_of_callMethod (enough : args.length = callable.arity)
    (calls : ∀ run, b.call run args s = unwind s.putDown (fun _ failure => failure)
      (callMethod run callable owner args (s.counting .method b)))
    (told : ∀ run bodies, Chronicle.call run bodies b args s = ⟨.call b args, s⟩ ::
      Chronicle.callMethod run (Chronicle.serving bodies b) callable owner args
        (s.counting .method b)) :
    ∃ frame gate inner course, s.Framed b args callable.body
      ((s.calling b owner).serving callable owner ((s.calling b owner).receiver owner) args)
      frame gate inner course := by
  let calling := s.calling b owner
  let receiver := calling.receiver owner
  let identity := s.heap.addScope (identityScope s.heap owner receiver)
  let gate : Session := { calling with heap := identity.2 }
  have holds (run : Runner) : callMethod run callable owner args (s.counting .method b) =
      unwind (s.counting .method b).putDown (fun _ failure => failure)
        (withFrame ⟨.entity receiver, callable.name, methodChain calling owner⟩
          (withScope identity.1 (callable.invoke run args)) gate) :=
    holding_eq_unwind _ _ _
  refine ⟨⟨.entity receiver, callable.name, methodChain calling owner⟩, gate,
    fun run => withScope identity.1 (callable.invoke run args),
    fun run bodies => Chronicle.inScope identity.1 (callable.invoke run args)
      (Chronicle.invoke run (Chronicle.serving bodies b) callable args), ⟨.method, rfl⟩,
    fun run => ?_, fun run bodies => told run bodies, fun stack fits => ?_,
    fun stack fits run bodies => ?_⟩
  · rw [calls, holds, unwind_unwind]
    rfl
  · refine ⟨fun t => (t.mapFrame Frame.popInner).mapFrame Frame.popInner, fun t => ?_,
      fun t failure => ?_, fun run => ?_⟩
    · rw [popFrame_mapFrame_popInner, popFrame_mapFrame_popInner]
    · rw [traced_mapFrame_popInner, traced_mapFrame_popInner]
    · obtain rfl := CallStack.eq_of_push fits
      rw [withScope_eq_unwind (List.cons_ne_nil _ _),
        Callable.invoke_eq_unwind run enough (List.cons_ne_nil _ _), unwind_unwind]
      rfl
  · obtain rfl := CallStack.eq_of_push fits
    rw [Chronicle.inScope_eq (List.cons_ne_nil _ _),
      Chronicle.invoke_eq run _ enough (List.cons_ne_nil _ _)]
    rfl

theorem Due.framed (due : s.Due b args body u)
    (within : (s.machine.countCall .method).overBudget? = none) :
    ∃ frame gate inner course, s.Framed b args body u frame gate inner course := by
  have counts (kind : BindingKind) :
      countCall kind { s with held := .value (.binding b) :: s.held } =
        .ok () (s.counting kind b) :=
    countCall_within ((s.machine.overBudget?_countCall kind).trans within)
  cases due with
  | function is enough =>
    refine ⟨_, _, _, _, .invoke enough (fun run => ?_) fun run bodies => ?_⟩
    · refine (holding_eq_unwind _ _ s).trans ?_
      simp only [bind, EStateM.bind, Action.get_eq_ok, is, Strategy.kind, counts]
      rfl
    · simp only [Chronicle.call, Chronicle.keeping, Chronicle.step, is, Strategy.kind, counts]
      rfl
  | closure is enough =>
    refine ⟨_, _, _, _, .invoke enough (fun run => ?_) fun run bodies => ?_⟩
    · refine (holding_eq_unwind _ _ s).trans ?_
      simp only [bind, EStateM.bind, Action.get_eq_ok, is, Strategy.kind, counts]
    · simp only [Chronicle.call, Chronicle.keeping, Chronicle.step, is, Strategy.kind, counts]
  | method is enough =>
    refine framed_of_callMethod enough (fun run => ?_) fun run bodies => ?_
    · refine (holding_eq_unwind _ _ s).trans ?_
      rcases is with is | ⟨is, live⟩
      · simp only [bind, EStateM.bind, Action.get_eq_ok, is, Strategy.kind, counts]
      · simp only [bind, EStateM.bind, Action.get_eq_ok, is, Strategy.kind, counts, live, if_true]
    · rcases is with is | ⟨is, live⟩
      · simp only [Chronicle.call, Chronicle.keeping, Chronicle.step, is, Strategy.kind, counts]
      · simp only [Chronicle.call, Chronicle.keeping, Chronicle.step, is, Strategy.kind, counts,
          live, if_true]

/-! ## Calls that are let through -/

/-- However bodies are run, a call runs one, once and from a given session, in a frame that it takes
away again. -/
structure Surrounds (s : Session) (b : BindingId) (args : List Value) (body : Body) (u : Session) :
    Prop where
  runs : ∀ run, b.call run args s = unwind s.leave Session.traced (run body u)
  /-- Nothing happens but that the call is counted, the frame is entered, the body runs and the
  frame is left. -/
  told : ∃ frame entered, ∀ run bodies, ∃ left, Chronicle.call run bodies b args s =
    [⟨.call b args, s⟩, ⟨.enterFrame true frame, entered⟩, ⟨.serve b, u⟩] ++ bodies body u ++
      [⟨.leaveFrame, left⟩]

theorem Due.surrounds (due : s.Due b args body u) (affords : s.Affords) :
    s.Surrounds b args body u := by
  obtain ⟨frame, gate, inner, course, framed⟩ := due.framed affords.budget
  obtain ⟨kind, counted⟩ := framed.counted
  obtain ⟨pushed, fits⟩ : ∃ pushed, gate.machine.stack.push frame = .ok pushed := by
    refine ⟨_, CallStack.push_of_room frame ?_⟩
    rw [counted]
    exact affords.depth
  obtain ⟨bare, pops, traces, ends⟩ := framed.runs _ fits
  refine ⟨fun run => ?_, frame, gate.withStack pushed, fun run bodies =>
    ⟨(inner run).after (gate.withStack pushed), ?_⟩⟩
  · rw [framed.calls, withFrame_eq_unwind fits, ends, unwind_unwind, unwind_unwind]
    simp only [pops, traces]
    rfl
  · simp only [framed.told, Chronicle.inFrame, Chronicle.step, pushFrame, fits]
    exact congrArg (fun c => _ :: _ :: (c ++ _)) (framed.begins _ fits run bodies)

theorem Surrounds.enters (surrounds : s.Surrounds b args body u) :
    Enters (fun run => b.call run args) s body u :=
  ⟨s.leave, Session.traced, fun _ => rfl, fun _ _ => Heap.cause_attachTrace _ _ _, surrounds.runs⟩

/-! ## Calls that are refused -/

/-- A call is refused before a body begins, and has only been counted. -/
structure Rejects (s : Session) (b : BindingId) (args : List Value) (cause : Cause) (t : Session) :
    Prop where
  fails : ∀ run, b.call run args s = .error (.failure (.ofCause cause)) t
  counted : ∃ kind, t.machine = s.machine.countCall kind

theorem rejects_of_over {cause : Cause}
    (exceeded : (s.machine.countCall .method).overBudget? = some cause) (b : BindingId)
    (args : List Value) : ∃ t, s.Rejects b args cause t :=
  ⟨_, fun run => BindingId.call_of_over ((s.machine.overBudget?_countCall _).trans exceeded) run,
    _, rfl⟩

theorem Due.rejects_of_full {limit : Nat} (due : s.Due b args body u)
    (within : (s.machine.countCall .method).overBudget? = none)
    (limited : s.machine.stack.limit = some limit) (full : limit ≤ s.machine.stack.depth) :
    ∃ t, s.Rejects b args (.depthExceeded limit) t := by
  obtain ⟨frame, gate, inner, course, framed⟩ := due.framed within
  obtain ⟨kind, counted⟩ := framed.counted
  have deep : gate.machine.stack.push frame = .error (.depthExceeded limit) := by
    refine CallStack.push_eq_error_iff.2 ⟨limit, ?_, ?_, rfl⟩
    · rw [counted]
      exact limited
    · rw [counted]
      exact full
  refine ⟨s.putDown gate, fun run => ?_, kind, counted⟩
  rw [framed.calls, withFrame, enterFrame, pushFrame, deep]
  rfl

end Session

end Delegation
