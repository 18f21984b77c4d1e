import Delegation.Registry.Protocol
import Delegation.Proofs.Heap.Step
import Delegation.Proofs.Outcome
import Delegation.Proofs.Parameters

/-!
# Entering a body

What a call does before the body runs does not depend on how bodies are run, and what it does
afterwards takes frames and scopes away and may give a failure a trace. `Enters` says that a call is
of this kind, which body it runs and from which session. A call of a method that nothing stands in
the way of enters the body of the method, in a frame of the receiver in which `self` and `super` are
found behind the parameters.
-/

namespace Delegation

variable {α : Type} {s u : Session} {body : Body}

/-! ## Calls that run one body -/

/-- What is done to the outcome of a body on the way out. -/
def unwind (leave : Session → Session) (report : Session → Failure → Failure) :
    EStateM.Result Stop Session Value → EStateM.Result Stop Session Value
  | .ok v t => .ok v (leave t)
  | .error (.failure failure) t => .error (.failure (report t failure)) (leave t)
  | .error stop t => .error stop (leave t)

/-- However bodies are run, the call runs one body once, from a given session. It ends the way the
body does, with its result or with the cause of its failure, and leaves the heap to it. -/
def Enters (call : Runner → Action Value) (s : Session) (body : Body) (u : Session) : Prop :=
  ∃ leave report, (∀ t, (leave t).heap = t.heap) ∧
    (∀ t failure, (report t failure).cause = failure.cause) ∧
    ∀ run, call run s = unwind leave report (run body u)

namespace Enters

variable {inner outer : Runner → Action Value} {inside : Session}

theorem here (body : Body) (s : Session) : Enters (fun run => run body) s body s := by
  refine ⟨id, fun _ failure => failure, fun _ => rfl, fun _ _ => rfl, fun run => ?_⟩
  dsimp only
  cases run body s with
  | ok => rfl
  | error stop => cases stop <;> rfl

theorem of_eq (enters : Enters inner s body u) (is : ∀ run, outer run s = inner run s) :
    Enters outer s body u := by
  obtain ⟨leave, report, same, cause, ends⟩ := enters
  exact ⟨leave, report, same, cause, fun run => (is run).trans (ends run)⟩

theorem bracket (leave : Session → Session) (enters : Enters inner inside body u)
    (is : ∀ run, outer run s = Action.bracket inside leave (inner run))
    (same : ∀ t, (leave t).heap = t.heap) : Enters outer s body u := by
  obtain ⟨leave', report, same', cause, ends⟩ := enters
  refine ⟨fun t => leave (leave' t), report, fun t => (same _).trans (same' t), cause,
    fun run => ?_⟩
  rw [is, Action.bracket, ends]
  cases run body u with
  | ok => rfl
  | error stop => cases stop <;> rfl

theorem tracing (enters : Enters inner s body u) :
    Enters (fun run => tracing (inner run)) s body u := by
  obtain ⟨leave, report, same, cause, ends⟩ := enters
  refine ⟨leave, fun t failure => (leave t).heap.attachTrace (leave t).machine.stack
    (report t failure), same, fun t failure => ?_, fun run => ?_⟩
  · rw [Heap.cause_attachTrace, cause]
  · dsimp only
    rw [Delegation.tracing, ends]
    cases run body u with
    | ok => rfl
    | error stop => cases stop <;> rfl

theorem holding {x : Object} (enters : Enters inner { s with held := x :: s.held } body u) :
    Enters (fun run => holding x (inner run)) s body u :=
  bracket (fun t => { t with held := s.held }) enters (fun _ => rfl) fun _ => rfl

theorem withFrame {frame : Frame} {stack : CallStack}
    (fits : s.machine.stack.push frame = .ok stack)
    (enters : Enters inner { s with machine := { s.machine with stack } } body u) :
    Enters (fun run => withFrame frame (inner run)) s body u := by
  refine bracket Session.popFrame enters.tracing (fun run => ?_) fun _ => rfl
  simp only [Delegation.withFrame, enterFrame, pushFrame, fits]
  rfl

theorem withScope {x : ScopeId} (framed : s.machine.stack.frames ≠ [])
    (enters : Enters inner (s.mapFrame (·.pushInner x)) body u) :
    Enters (fun run => withScope x (inner run)) s body u := by
  refine bracket (·.mapFrame Frame.popInner) enters (fun run => ?_) fun _ => rfl
  rw [Delegation.withScope, if_neg (by simpa using framed)]
  rfl

/-- What comes before may run bodies too, as long as its result does not depend on how. -/
theorem after {f : Runner → Action α} {g : Runner → α → Action Value} {a : α} {t : Session}
    (ends : ∀ run, f run s = .ok a t) (enters : Enters (fun run => g run a) t body u) :
    Enters (fun run => f run >>= g run) s body u := by
  obtain ⟨leave, report, same, cause, rest⟩ := enters
  refine ⟨leave, report, same, cause, fun run => ?_⟩
  simp only [bind, EStateM.bind, ends]
  exact rest run

end Enters

/-! ## Calls of methods -/

theorem CallStack.push_of_room {stack : CallStack} (frame : Frame)
    (room : ∀ limit, stack.limit = some limit → stack.depth < limit) :
    stack.push frame = .ok { stack with frames := frame :: stack.frames } := by
  unfold push
  cases is : stack.limit with
  | none => rfl
  | some limit => exact if_neg (Nat.not_le.2 (room limit is))

namespace Session

/-- The limit on the depth and the budget leave room to call a method. -/
structure Affords (s : Session) : Prop where
  depth : ∀ limit, s.machine.stack.limit = some limit → s.machine.stack.depth < limit
  budget : (s.machine.countCall .method).overBudget? = none

/-- The session in which it is decided who receives a call of a method. -/
def calling (s : Session) (b : BindingId) (owner : EntityId) : Session :=
  { s with
    machine := s.machine.countCall .method
    held := .value (.entity owner) :: .value (.binding b) :: s.held }

/-- The session in which the body of a method begins. -/
def serving (s : Session) (callable : Callable) (owner receiver : EntityId) (args : List Value) :
    Session :=
  let (identity, heap) := s.heap.addScope (identityScope s.heap owner receiver)
  let (parameters, heap) := heap.addScope (callable.parameters args)
  let frame : Frame :=
    ⟨.entity receiver, callable.name, parameters :: identity :: methodChain s owner⟩
  { s with
    heap
    machine := { s.machine with
      stack := { s.machine.stack with frames := frame :: s.machine.stack.frames } } }

end Session

variable {callable : Callable} {owner : EntityId} {args : List Value}

theorem Callable.enters_invoke (enough : args.length = callable.arity)
    (framed : s.machine.stack.frames ≠ []) :
    Enters (fun run => callable.invoke run args) s callable.body
      ({ s with heap := (s.heap.addScope (callable.parameters args)).2 }.mapFrame
        (·.pushInner (s.heap.addScope (callable.parameters args)).1)) := by
  simp only [callable.invoke_eq _ enough]
  exact .after (fun _ => rfl) (.withScope framed (.here _ _))

theorem enters_callMethod (enough : args.length = callable.arity)
    (room : ∀ limit, s.machine.stack.limit = some limit → s.machine.stack.depth < limit) :
    Enters (fun run => callMethod run callable owner args) s callable.body
      (let inside := { s with held := .value (.entity owner) :: s.held }
      inside.serving callable owner (inside.receiver owner) args) := by
  refine .holding (.after (fun _ => rfl) (.after (fun _ => rfl) ?_))
  refine .withFrame (CallStack.push_of_room _ room) (.withScope nofun ?_)
  exact callable.enters_invoke enough nofun

theorem countCall_within {kind : BindingKind}
    (within : (s.machine.countCall kind).overBudget? = none) :
    countCall kind s = .ok () { s with machine := s.machine.countCall kind } := by
  simp only [countCall, bind, EStateM.bind, Action.get_eq_ok, modifyMachine, within]
  rfl

theorem countCall_over {kind : BindingKind} {cause : Cause}
    (exceeded : (s.machine.countCall kind).overBudget? = some cause) :
    countCall kind s =
      .error (.failure (.ofCause cause)) { s with machine := s.machine.countCall kind } := by
  simp only [countCall, bind, EStateM.bind, Action.get_eq_ok, modifyMachine, exceeded]
  rfl

/-- Counting a call changes nothing but the machine, whether the call is allowed or not. -/
theorem after_countCall (kind : BindingKind) (s : Session) :
    (countCall kind).after s = { s with machine := s.machine.countCall kind } := by
  cases budget : (s.machine.countCall kind).overBudget? with
  | none => simp only [Action.after, countCall_within budget]
  | some cause => simp only [Action.after, countCall_over budget]

theorem heap_of_countCall {kind : BindingKind} {t : Session}
    (counts : countCall kind s = .ok () t) : t.heap = s.heap := by
  have after : t = { s with machine := s.machine.countCall kind } := by
    rw [← after_countCall, Action.after, counts]
  rw [after]

/-- Calling a method whose entity is alive enters its body, in a frame of the receiver. -/
theorem BindingId.enters_call {b : BindingId}
    (method : s.heap.binding b = ⟨callable, .method owner⟩ ∨
      s.heap.binding b = ⟨callable, .declared owner⟩ ∧
        { s with
          machine := s.machine.countCall .method
          held := .value (.binding b) :: s.held }.isLive owner = true)
    (affords : s.Affords) (enough : args.length = callable.arity) :
    Enters (fun run => b.call run args) s callable.body
      ((s.calling b owner).serving callable owner ((s.calling b owner).receiver owner) args) := by
  have counts : countCall .method { s with held := .value (.binding b) :: s.held } =
      .ok () { s with
        machine := s.machine.countCall .method
        held := .value (.binding b) :: s.held } := countCall_within affords.budget
  refine .holding (.after (fun _ => rfl) ?_)
  dsimp only
  rcases method with is | ⟨is, live⟩
  · simp only [is]
    refine .after (fun _ => counts) ?_
    exact enters_callMethod enough affords.depth
  · simp only [is]
    refine .after (fun _ => counts) (.after (fun _ => rfl) ?_)
    simp only [live, if_true]
    exact enters_callMethod enough affords.depth

/-! ## What a method finds -/

theorem Heap.resolve_of_cell? {heap : Heap} {x : ScopeId} {name : String} {cell : Cell}
    (found : (heap.scope x).cell? name = some cell) : heap.resolve x name = some (x, cell) := by
  rw [resolve, path, List.findSome?_cons, found]
  rfl

theorem Heap.resolve_of_parent {heap : Heap} {x : ScopeId} {name : String}
    (absent : (heap.scope x).cell? name = none) :
    heap.resolve x name = (heap.scope x).lineage.findSome? fun t =>
      ((heap.scope t).cell? name).map (t, ·) := by
  rw [resolve, path, List.findSome?_cons, absent]
  rfl

theorem ScopeId.get_of_constant {x t : ScopeId} {name : String} {v : Value}
    (found : s.heap.resolve x name = some (t, .constant v)) (run : Runner) :
    x.get run name s = .ok v s := by
  simp only [ScopeId.get, bind, EStateM.bind, Action.getThe_eq_ok, found]
  rfl

theorem Heap.findScope_behind {heap : Heap} {x y : ScopeId} {rest : Chain} {name : String}
    {found : ScopeId × Cell} (passed : heap.resolve x name = none)
    (there : heap.resolve y name = some found) :
    heap.findScope (x :: y :: rest) name = some y := by
  have notHere : heap.contains x name = false := by
    rw [contains_eq_isSome_resolve, passed]
    rfl
  have known : heap.contains y name = true := by
    rw [contains_eq_isSome_resolve, there]
    rfl
  rw [findScope, List.find?_cons_of_neg (by simp [notHere])]
  exact List.find?_cons_of_pos known

theorem lookup_behind {x y : ScopeId} {rest : Chain} {name : String} {v : Value}
    (chain : s.machine.currentChain = x :: y :: rest) (passed : s.heap.resolve x name = none)
    (found : s.heap.resolve y name = some (y, .constant v)) (run : Runner) :
    lookup run name s = .ok v s := by
  have first : s.heap.findScope (x :: y :: rest) name = some y :=
    Heap.findScope_behind passed found
  have value :=
    ScopeId.get_of_constant (s := { s with held := .ofScopes (x :: y :: rest) :: s.held }) found run
  simp only [lookup, Chain.get, holding, bind, EStateM.bind, Action.get_eq_ok,
    Action.getThe_eq_ok, chain, first, value]

namespace Session

/-- A body runs on behalf of an entity: the frame is the entity's, and `self` stands for it. -/
structure Serves (s : Session) (self : EntityId) : Prop where
  owner : s.machine.currentFrame.owner = .entity self
  self : ∀ run, lookup run "self" s = .ok (.entity self) s

variable {receiver : EntityId}

theorem heap_serving (s : Session) (callable : Callable) (owner receiver : EntityId)
    (args : List Value) : (s.serving callable owner receiver args).heap =
      ((s.heap.addScope (identityScope s.heap owner receiver)).2.addScope
        (callable.parameters args)).2 := rfl

theorem scope_serving {x : ScopeId} (has : s.heap.Has (.scope x)) :
    (s.serving callable owner receiver args).heap.scope x = s.heap.scope x := by
  have still : (s.heap.addScope (identityScope s.heap owner receiver)).2.Has (.scope x) := by
    simp only [Heap.Has, Heap.addScope, Array.size_push]
    exact Nat.lt_succ_of_lt has
  rw [heap_serving, Heap.scope_addScope_of_lt _ still, Heap.scope_addScope_of_lt _ has]

/-- What no parameter hides is found in the scope with `self` and `super`, which is the second in
the chain. -/
theorem found_serving {name : String} {v : Value} (enough : args.length = callable.arity)
    (unhidden : name ∉ callable.params)
    (is : (identityScope s.heap owner receiver).cell? name = some (.constant v)) :
    ∃ x y rest, (s.serving callable owner receiver args).machine.currentChain = x :: y :: rest ∧
      (s.serving callable owner receiver args).heap.resolve x name = none ∧
      (s.serving callable owner receiver args).heap.resolve y name = some (y, .constant v) := by
  let identity := s.heap.addScope (identityScope s.heap owner receiver)
  let parameters := identity.2.addScope (callable.parameters args)
  have identityIs : parameters.2.scope identity.1 = identityScope s.heap owner receiver := by
    rw [Heap.scope_addScope_of_lt _ (by simp [identity, Heap.addScope]), Heap.scope_addScope]
  refine ⟨parameters.1, identity.1, _, rfl, ?_, ?_⟩
  · have undeclared : (callable.parameters args).cell? name = none := by
      refine Option.not_isSome_iff_eq_none.1 (mt Scope.declares_iff.1 ?_)
      rw [Callable.symbols_parameters enough]
      exact unhidden
    have parametersIs : parameters.2.scope parameters.1 = callable.parameters args :=
      Heap.scope_addScope _ _
    rw [heap_serving, Heap.resolve_of_parent (by rw [parametersIs, undeclared]), parametersIs]
    rfl
  · rw [heap_serving]
    exact Heap.resolve_of_cell? (by rw [identityIs, is])

theorem lookup_serving {name : String} {v : Value} (enough : args.length = callable.arity)
    (unhidden : name ∉ callable.params)
    (is : (identityScope s.heap owner receiver).cell? name = some (.constant v)) (run : Runner) :
    lookup run name (s.serving callable owner receiver args) =
      .ok v (s.serving callable owner receiver args) := by
  obtain ⟨x, y, rest, chain, passed, found⟩ := found_serving enough unhidden is
  exact lookup_behind chain passed found run

/-- The body of a method serves the receiver, unless a parameter takes the place of `self`. -/
theorem serves_serving (enough : args.length = callable.arity)
    (unhidden : "self" ∉ callable.params) :
    (s.serving callable owner receiver args).Serves receiver :=
  ⟨rfl, lookup_serving enough unhidden rfl⟩

theorem lookup_super_serving (enough : args.length = callable.arity)
    (unhidden : "super" ∉ callable.params) (run : Runner) :
    lookup run "super" (s.serving callable owner receiver args) =
      .ok (.ofEntity? (s.heap.entity owner).super) (s.serving callable owner receiver args) := by
  refine lookup_serving enough unhidden ?_ run
  unfold identityScope
  cases (s.heap.entity owner).super <;> rfl

end Session

end Delegation
