import Delegation.Proofs.Answering
import Delegation.Proofs.Routes

/-!
# Closures

A closure keeps the frame that was current when it was made, or that of code outside any call: its
owner, its name and the scopes of its chain. Whatever happens to that frame afterwards, every call
of the closure runs in a copy of the frame as it was, with a fresh scope for the parameters in front
of the chain. The scopes themselves are shared, so what is assigned through one holder of a scope is
found by all others; but the scope with the parameters of one call is in the chain of that call only
and an ancestor of no other scope there.

A call that the limit on the depth or the budget does not allow fails before the frame is pushed.
-/

namespace Delegation

variable {s t u : Session} {b : BindingId} {callable : Callable} {frame : Frame}
  {args : List Value} {run : Runner} {p : ScopeId}

/-! ## Calls of closures -/

theorem Machine.overBudget?_countCall (machine : Machine) (kind : BindingKind) :
    (machine.countCall kind).overBudget? = (machine.countCall .method).overBudget? := rfl

namespace Session

/-- The session in which a body begins that a binding is called to run in a frame. -/
def framing (s : Session) (kind : BindingKind) (b : BindingId) (callable : Callable)
    (frame : Frame) (args : List Value) : Session :=
  let (parameters, heap) := s.heap.addScope (callable.parameters args)
  let machine := s.machine.countCall kind
  let frames := frame.pushInner parameters :: machine.stack.frames
  { s with
    heap
    machine := { machine with stack := { machine.stack with frames } }
    held := .value (.binding b) :: s.held }

/-- A call of a closure has begun: its body runs in a copy of the frame, with the scope of the
parameters in front of the chain. -/
structure Activates (t : Session) (b : BindingId) (callable : Callable) (frame : Frame)
    (args : List Value) (p : ScopeId) (u : Session) : Prop where
  enters : Enters (fun run => b.call run args) t callable.body u
  frames : u.machine.stack.frames = frame.pushInner p :: t.machine.stack.frames
  fresh : ¬t.heap.Has (.scope p)
  parameters : u.heap.scope p = callable.parameters args
  has : u.heap.Has (.scope p)
  later : t.Later u

/-- A call is refused before anything has been run or changed: the stack is full, or the budget does
not cover the call. -/
structure Refuses (t : Session) (b : BindingId) (args : List Value) : Prop where
  fails : ∀ run, ∃ cause, b.call run args t =
      .error (.failure (.ofCause cause)) { t with machine := t.machine.countCall .closure } ∧
    ((∃ limit, t.machine.stack.limit = some limit ∧ limit ≤ t.machine.stack.depth ∧
        cause = .depthExceeded limit) ∨
      (t.machine.countCall .closure).overBudget? = some cause)

theorem enters_closure (closure : t.heap.binding b = ⟨callable, .closure frame⟩)
    (affords : t.Affords) (enough : args.length = callable.arity) :
    Enters (fun run => b.call run args) t callable.body
      (t.framing .closure b callable frame args) := by
  refine .holding (.after (fun _ => rfl) ?_)
  dsimp only
  simp only [closure]
  have within := (t.machine.overBudget?_countCall .closure).trans affords.budget
  refine .after (fun _ => countCall_within within) ?_
  exact .withFrame (CallStack.push_of_room _ affords.depth) (callable.enters_invoke enough nofun)

/-- If it is not the budget that stands in the way of a call, the stack is full. -/
theorem deep_of_not_affords (full : ¬t.Affords)
    (within : (t.machine.countCall .method).overBudget? = none) :
    ∃ limit, t.machine.stack.limit = some limit ∧ limit ≤ t.machine.stack.depth := by
  by_contra room
  exact full ⟨fun limit is => Nat.lt_of_not_le fun reached => room ⟨limit, is, reached⟩, within⟩

theorem refuses_closure (closure : t.heap.binding b = ⟨callable, .closure frame⟩)
    (full : ¬t.Affords) (args : List Value) : t.Refuses b args := by
  refine ⟨fun run => ?_⟩
  cases budget : (t.machine.countCall .closure).overBudget? with
  | some cause =>
    refine ⟨cause, ?_, .inr rfl⟩
    simp only [BindingId.call, holding, bind, EStateM.bind, Action.get_eq_ok, closure,
      Strategy.kind, countCall, modifyMachine, budget]
    rfl
  | none =>
    have within := (t.machine.overBudget?_countCall .closure).symm.trans budget
    obtain ⟨limit, limited, reached⟩ := deep_of_not_affords full within
    refine ⟨.depthExceeded limit, ?_, .inl ⟨limit, limited, reached, rfl⟩⟩
    have fails : (t.machine.countCall .closure).stack.push frame =
        .error (.depthExceeded limit) :=
      CallStack.push_eq_error_iff.2 ⟨limit, limited, reached, rfl⟩
    simp only [BindingId.call, holding, bind, EStateM.bind, Action.get_eq_ok, closure,
      Strategy.kind, countCall, modifyMachine, budget, pure, EStateM.pure, withFrame, enterFrame,
      pushFrame, fails]

theorem Sound.later_framing (sound : t.Sound) (has : t.heap.Has (.binding b))
    (kind : BindingKind) (frameKnown : t.heap.HasAll frame.owned)
    (known : ∀ v ∈ args, t.heap.HasAll v.owned) (enough : args.length = callable.arity) :
    t.Later (t.framing kind b callable frame args) := by
  let made := t.heap.addScope (callable.parameters args)
  have step : Heap.Step (fun frame => frame = t.machine.currentFrame) t.heap made.2 :=
    .addScope (Callable.admits_parameters known enough)
  have fit : Session.Fit true { t with heap := made.2 } := sound.fit.step step
  have madeHas : made.2.Has (.scope made.1) := by simp [made, Heap.Has, Heap.addScope]
  have framed : made.2.HasAll (frame.pushInner made.1).owned :=
    (Heap.hasAll_cons.2 ⟨madeHas, step.grows.hasAll frameKnown⟩).subset
      (frame.owned_pushInner_subset made.1)
  have held : made.2.HasAll (Object.value (.binding b)).refs :=
    Heap.hasAll_cons.2 ⟨step.grows.has _ has, Heap.hasAll_nil _⟩
  have grounded : (t.framing kind b callable frame args).Grounded :=
    { fit with
      held := List.forall_mem_cons.2 ⟨held, fit.held⟩
      machine := Heap.hasAll_append.2 ⟨Heap.hasAll_append.2 ⟨framed, fit.stack⟩,
        (Heap.hasAll_append.1 fit.machine).2⟩ }
  exact .single ⟨.inr step, grounded⟩

theorem Sound.activates (sound : t.Sound) (has : t.heap.Has (.binding b))
    (closure : t.heap.binding b = ⟨callable, .closure frame⟩) (affords : t.Affords)
    (known : ∀ v ∈ args, t.heap.HasAll v.owned) (enough : args.length = callable.arity) :
    ∃ p u, t.Activates b callable frame args p u := by
  have frameKnown : t.heap.HasAll frame.owned := by
    have refs := sound.heap.has_binding has
    rwa [closure] at refs
  let parameters := callable.parameters args
  exact ⟨_, _, enters_closure closure affords enough, rfl, t.heap.not_has_addScope parameters,
    Heap.scope_addScope _ _, t.heap.has_addScope parameters,
    sound.later_framing has .closure frameKnown known enough⟩

/-! ## What closures keep -/

/-- How a closure stands in a session: it has the frame it was made in, and its calls run there. -/
structure Keeps (t : Session) (b : BindingId) (callable : Callable) (frame : Frame) : Prop where
  captured : BindingQuery.captured.answer t [.value (.binding b)] = .ok (.frame frame)
  runs : ∀ args, t.Affords → args.length = callable.arity → (∀ v ∈ args, t.heap.HasAll v.owned) →
    ∃ p u, t.Activates b callable frame args p u
  refuses : ¬t.Affords → ∀ args, t.Refuses b args

theorem Sound.keeps (sound : t.Sound) (has : t.heap.Has (.binding b))
    (closure : t.heap.binding b = ⟨callable, .closure frame⟩) : t.Keeps b callable frame where
  captured := by
    have strategy : (t.heap.binding b).strategy = .closure frame := by rw [closure]
    simp only [BindingQuery.answer, operand, List.getD_cons_zero, Object.asBinding?, bind,
      Except.bind, strategy]
    rfl
  runs args affords enough known := sound.activates has closure affords known enough
  refuses full args := refuses_closure closure full args

/-- The scope with the parameters of a call is none that a later call finds names in, and the other
way round. -/
structure Apart (u : Session) (p : ScopeId) (u' : Session) (p' : ScopeId) : Prop where
  distinct : p' ≠ p
  later : ∀ y ∈ u'.machine.currentChain, p ∉ u'.heap.path y
  earlier : ∀ y ∈ u.machine.currentChain, p' ∉ u.heap.path y

theorem Activates.chain (activates : t.Activates b callable frame args p u) :
    u.machine.currentChain = p :: frame.chain := by
  simp only [Machine.currentChain, CallStack.current, activates.frames, List.head?_cons]
  rfl

theorem Activates.apart {t' u' : Session} {args' : List Value} {p' : ScopeId} (sound : s.Sound)
    (known : s.heap.HasAll frame.owned) (made : s.Later t)
    (first : t.Activates b callable frame args p u) (between : u.Later t')
    (second : t'.Activates b callable frame args' p' u') : u.Apart p u' p' := by
  have scopes := hasAll_chain.1 (Heap.hasAll_append.1 known).2
  have after : s.Later u := made.trans first.later
  have after' : s.Later u' := (after.trans between).trans second.later
  have distinct : p' ≠ p := by
    rintro rfl
    exact second.fresh (between.heap.grows.has _ first.has)
  refine ⟨distinct, fun y place => ?_, fun y place within => ?_⟩
  · rw [second.chain] at place
    rcases List.mem_cons.1 place with rfl | captured
    · rw [Heap.path, second.parameters]
      simp [Callable.parameters, Scope.root, distinct.symm]
    · intro within
      rw [after'.heap.grows.path (scopes y captured)] at within
      exact first.fresh (made.heap.grows.has _ (sound.heap.has_path (scopes y captured) within))
  · have yHas : u.heap.Has (.scope y) := by
      rw [first.chain] at place
      rcases List.mem_cons.1 place with rfl | captured
      · exact first.has
      · exact after.heap.grows.has _ (scopes y captured)
    have old := (after.sound sound).heap.has_path yHas within
    exact second.fresh (between.heap.grows.has _ old)

/-- A closure is a snapshot of the frame that was current when it was made. It keeps the frame, and
the calls that the limit on the depth and the budget allow run in it, each with parameters that no
other call sees; the others are refused. What is assigned to a mutable cell is found there by
everyone else who gets at the cell. -/
theorem closure_snapshot (reachable : s.Reachable) (callable : Callable) :
    ∃ b after,
      (∀ run, CallCommand.closure.act run [.callable callable] s =
        .ok (.value (.binding b)) after) ∧
      s.Later after ∧
      (∀ t, after.Later t → t.Keeps b callable s.machine.currentFrame) ∧
      (∀ t args p u t' args' p' u', after.Later t →
        t.Activates b callable s.machine.currentFrame args p u → u.Later t' →
        t'.Activates b callable s.machine.currentFrame args' p' u' → u.Apart p u' p') ∧
      ∀ t, after.Later t → ∀ x name v w, t.heap.Has (.scope x) → t.heap.HasAll w.owned →
        ∀ (route : Route) run, route.resolve t name = some (x, .mutable v) →
        ∃ t', route.set run name w t = .ok () t' ∧ t.Later t' ∧
          ∀ (other : Route) cell, other.resolve t name = some (x, cell) →
            ∀ run, other.get run name t' = .ok w t' := by
  have sound := reachable.sound
  have captured : s.heap.HasAll s.machine.currentFrame.owned := sound.fit.currentFrame
  let made := s.heap.addBinding ⟨callable, .closure s.machine.currentFrame⟩
  have step : Heap.Step (fun frame => frame = s.machine.currentFrame) s.heap made.2 :=
    .addBinding captured fun frame is => by cases is; rfl
  have fit : Session.Fit true { s with heap := made.2 } := sound.fit.step step
  have madeHas : made.2.Has (.binding made.1) := by simp [made, Heap.Has, Heap.addBinding]
  refine ⟨made.1, { s with heap := made.2 }, fun run => rfl, .single ⟨.inr step, fit.toGrounded⟩,
    fun t later => ?_, ?_, fun t later x name v w has known route run leads => ?_⟩
  · have closure : t.heap.binding made.1 = ⟨callable, .closure s.machine.currentFrame⟩ :=
      (later.heap.grows.binding _ madeHas).trans (Heap.binding_addBinding _ _)
    exact (later.sound fit.toSound).keeps (later.heap.grows.has _ madeHas) closure
  · intro t args p u t' args' p' u' later first between second
    exact first.apart fit.toSound (step.grows.hasAll captured) later between second
  · have found := route.cell?_of_resolve leads
    have stored : Heap.Step (fun frame => frame = t.machine.currentFrame) t.heap
        (t.heap.modifyScope x (·.store name w)) := .store has known found
    have fitAfter := (later.sound fit.toSound).fit.step stored
    exact ⟨_, route.set_of_mutable leads run w, .single ⟨.inr stored, fitAfter.toGrounded⟩,
      fun other cell leads' run => other.get_of_store has leads' w run⟩

/-- A closure made in a frame. -/
theorem closure_snapshot_of_frame :
    let s := (Program.runSteps
      [.apply (.command (.stack .push)) [.void,
        .apply (.query (.stack .frame)) [.void, .str "g",
          .apply (.command (.table .chain)) []]]]).after (Program.ready {})
    s.Reachable ∧ s.machine.currentFrame = ⟨.void, "g", []⟩ ∧
      ∃ b after, s.Later after ∧
        ∀ t, after.Later t → t.Keeps b (.nullary "f" (.script 0)) ⟨.void, "g", []⟩ := by
  let steps : List Expr :=
    [.apply (.command (.stack .push)) [.void,
      .apply (.query (.stack .frame)) [.void, .str "g", .apply (.command (.table .chain)) []]]]
  have reachable : ((Program.runSteps steps).after (Program.ready {})).Reachable :=
    Program.reachable_runSteps {} steps
  have current : ((Program.runSteps steps).after (Program.ready {})).machine.currentFrame =
      ⟨.void, "g", []⟩ := by decide +kernel
  obtain ⟨b, after, -, later, keeps, -⟩ := closure_snapshot reachable (.nullary "f" (.script 0))
  exact ⟨reachable, current, b, after, later, current ▸ keeps⟩

/-- A closure that is called when the stack has no room for a further frame: whatever its body does,
the call does not run it. -/
theorem closure_not_entered :
    let s := (Program.runSteps
      [.bind "c" (.apply (.command (.call .closure)) [.nullary "f" [.str "ran"]]),
        .apply (.command (.stack .push)) [.void,
          .apply (.query (.stack .frame)) [.void, .str "g",
            .apply (.command (.table .chain)) []]]]).after
              (Program.ready { depthLimit := some (some 1) })
    s.heap.binding ⟨0⟩ = ⟨.nullary "f" (.script 0), .closure s.machine.toplevelFrame⟩ ∧
      ¬∃ u, Enters (fun run => BindingId.call run ⟨0⟩ []) s (.script 0) u := by
  intro s
  have closure : s.heap.binding ⟨0⟩ =
      ⟨.nullary "f" (.script 0), .closure s.machine.toplevelFrame⟩ := by decide +kernel
  have limited : s.machine.stack.limit = some 1 ∧ s.machine.stack.depth = 1 := by decide +kernel
  have full : ¬s.Affords := by
    intro affords
    have room := affords.depth 1 limited.1
    rw [limited.2] at room
    exact Nat.lt_irrefl 1 room
  refine ⟨closure, ?_⟩
  rintro ⟨u, leave, report, -, -, ends⟩
  obtain ⟨cause, fails, -⟩ := (refuses_closure closure full []).fails fun _ => pure .void
  have gives := (ends fun _ => pure .void).symm.trans fails
  cases gives

end Session

end Delegation
