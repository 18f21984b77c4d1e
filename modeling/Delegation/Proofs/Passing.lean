import Delegation.Proofs.Sight

/-!
# Passing arguments

Names of parameters are checked twice: when a callable is made, name by name from the left, and when
it is invoked, as they are declared in a new scope one after the other. The first check finds the
first name that is not an identifier or repeats an earlier one, and what it lets pass the second one
never refuses.

So an invocation with the right number of arguments always comes to its body, unless there is no
frame and no room for one. Throughout the body the new scope stands where it was put, and the
parameters are constants in it. Calls that the body makes, of the callable itself as well, put
scopes of their own in front and take them away again.
-/

namespace Delegation

namespace Callable

variable {name : String} {seen params : List String} {body : Body} {cause : Cause}

/-! ## Names -/

/-- A place in a list of names where it goes wrong for the first time, and why. -/
structure Offends (params : List String) (i : Nat) (cause : Cause) : Prop where
  identifiers : ∀ param ∈ params.take i, isIdentifier param = true
  distinct : (params.take i).Nodup
  offence : ∃ param, params[i]? = some param ∧
    (isIdentifier param = false ∧ cause = .invalidSymbol param .identifier ∨
      isIdentifier param = true ∧ param ∈ params.take i ∧ cause = .duplicateSymbol param)

/-- The check fails at a name if it passes those before and this one is no identifier, or else has
been seen. -/
theorem checkParams_eq_error_iff :
    checkParams seen params = .error cause ↔
      ∃ i param, checkParams seen (params.take i) = .ok () ∧ params[i]? = some param ∧
        (isIdentifier param = false ∧ cause = .invalidSymbol param .identifier ∨
          isIdentifier param = true ∧ (param ∈ seen ∨ param ∈ params.take i) ∧
            cause = .duplicateSymbol param) := by
  induction params generalizing seen with
  | nil => simp [checkParams]
  | cons first rest ih =>
    -- Either the first name is at fault, or a later one is, by when the first one has been seen.
    rw [← Nat.or_exists_add_one]
    by_cases identifier : isIdentifier first = true
    · by_cases repeated : first ∈ seen
      · have refused (names : List String) :
            checkParams seen (first :: names) = .error (.duplicateSymbol first) := by
          simp [checkParams, identifier, repeated]
        simp [refused, checkParams.eq_1, identifier, repeated, @eq_comm _ cause]
      · have passed (names : List String) :
            checkParams seen (first :: names) = checkParams (first :: seen) names := by
          simp [checkParams, identifier, repeated]
        simp [passed, ih, identifier, repeated, or_assoc, or_left_comm]
    · have refused (names : List String) :
          checkParams seen (first :: names) = .error (.invalidSymbol first .identifier) := by
        simp [checkParams, identifier]
      simp [refused, checkParams.eq_1, identifier, @eq_comm _ cause]

theorem create_eq_ok {callable : Callable} (made : create name params body = .ok callable) :
    callable.name = name ∧ callable.params = params ∧ callable.body = body := by
  unfold create at made
  split at made
  · cases made
    exact ⟨rfl, rfl, rfl⟩
  · cases made

theorem create_fails_iff :
    create name params body = .error cause ↔ checkParams [] params = .error cause := by
  unfold create
  split <;> simp [*]

theorem exists_create_iff :
    (∃ callable, create name params body = .ok callable) ↔
      (∀ param ∈ params, isIdentifier param = true) ∧ params.Nodup := by
  constructor
  · rintro ⟨callable, made⟩
    obtain ⟨-, rfl, -⟩ := create_eq_ok made
    exact ⟨callable.identifiers, callable.distinct⟩
  · rintro ⟨identifiers, distinct⟩
    have checked : checkParams [] params = .ok () := checkParams_eq_ok_iff.2
      ⟨fun param place => ⟨identifiers param place, List.not_mem_nil⟩, distinct⟩
    cases made : create name params body with
    | ok callable => exact ⟨callable, rfl⟩
    | error cause => exact absurd (checked.symm.trans (create_fails_iff.1 made)) nofun

theorem create_eq_error_iff :
    create name params body = .error cause ↔ ∃ i, Offends params i cause := by
  rw [create_fails_iff, checkParams_eq_error_iff]
  constructor
  · rintro ⟨i, param, before, place, offence⟩
    obtain ⟨identifiers, distinct⟩ := checkParams_eq_ok_iff.1 before
    refine ⟨i, fun param place => (identifiers param place).1, distinct, param, place, ?_⟩
    simpa using offence
  · rintro ⟨i, identifiers, distinct, param, place, offence⟩
    refine ⟨i, param, checkParams_eq_ok_iff.2 ⟨fun param place =>
      ⟨identifiers param place, List.not_mem_nil⟩, distinct⟩, place, ?_⟩
    simpa using offence

theorem invoke_of_mismatch {callable : Callable} {args : List Value} {s : Session}
    (other : args.length ≠ callable.arity) (run : Runner) :
    callable.invoke run args s = .error (.failure (.ofCause
      (.arityMismatch callable.name callable.arity args.length))) s := by
  simp only [invoke, if_pos other]
  rfl

end Callable

/-! ## Arguments -/

theorem Heap.resolveIn_behind {heap : Heap} {front rest : Chain} {x : ScopeId} {name : String}
    {cell : Cell} (unshadowed : ∀ y ∈ front, heap.contains y name = false)
    (found : (heap.scope x).cell? name = some cell) :
    heap.resolveIn (front ++ x :: rest) name = some (x, cell) := by
  have here : heap.resolve x name = some (x, cell) := resolve_of_cell? found
  have contains : heap.contains x name = true := by
    rw [contains_eq_isSome_resolve, here]
    rfl
  have passed : front.find? (heap.contains · name) = none :=
    List.find?_eq_none.2 fun y place => Bool.eq_false_iff.1 (unshadowed y place)
  rw [resolveIn, findScope, List.find?_append, passed, Option.none_or, List.find?_cons, contains,
    Option.bind_some, here]

namespace Enters

variable {inner : Runner → Action Value} {s u : Session} {body : Body}

/-- Outside any frame a scope is put in front of the chain of a new frame that sees the globals. -/
theorem withScope_outside {x : ScopeId} {stack : CallStack}
    (outside : s.machine.stack.frames = [])
    (fits : s.machine.stack.push s.machine.toplevelFrame = .ok stack)
    (enters : Enters inner
      ({ s with machine := { s.machine with stack } }.mapFrame (·.pushInner x)) body u) :
    Enters (fun run => Delegation.withScope x (inner run)) s body u := by
  have shadowed : Enters (fun run => shadowing x (inner run))
      { s with machine := { s.machine with stack } } body u :=
    bracket (·.mapFrame Frame.popInner) enters (fun _ => rfl) fun _ => rfl
  refine (withFrame fits shadowed).of_eq fun run => ?_
  rw [Delegation.withScope, if_pos (by rw [outside]; rfl)]

end Enters

namespace Session

variable {s t u : Session} {callable : Callable} {args : List Value} {p : ScopeId}

/-- An invocation comes to the body, which begins with a new scope in front of the frame that is
current. As often as that frame is current in the course of the body, with any further scopes in
front, a parameter that none of them contains is read as its argument, and assigning to it fails and
changes nothing. What guarded code evaluates or invokes in between, the callable itself included,
leaves the frame as it was. -/
structure Binds (s : Session) (callable : Callable) (args : List Value) (p : ScopeId)
    (u : Session) : Prop where
  enters : Enters (fun run => callable.invoke run args) s callable.body u
  later : s.Sound → (∀ v ∈ args, s.heap.HasAll v.owned) → s.Later u
  fresh : ¬s.heap.Has (.scope p)
  current : u.machine.stack.current = some (s.machine.currentFrame.pushInner p)
  reads : ∀ t, u.During callable.body t → ∀ front,
    t.machine.currentChain = front ++ p :: s.machine.currentFrame.chain →
    ∀ (i : Nat) name v, callable.params[i]? = some name → args[i]? = some v →
      (∀ x ∈ front, t.heap.contains x name = false) → ∀ run,
        lookup run name t = .ok v t ∧ ∀ w, assign run name w t =
          .error (.failure (.ofCause (.constantAssignment name))) t
  again : ∀ t, u.During callable.body t → t.Sound → t.running.index < t.machines.size →
    (∀ body ∈ t.code, Expr.guardedAll body = true) → ∀ nesting,
      (∀ e, e.guarded = true →
        let after := (eval (runBody nesting) e).after t
        u.During callable.body after ∧ after.machine.stack = t.machine.stack) ∧
      ∀ (other : Callable) others, (∀ v ∈ others, t.heap.HasAll v.owned) →
        let after := (other.invoke (runBody nesting) others).after t
        u.During callable.body after ∧ after.machine.stack = t.machine.stack

theorem again_of_guarded (during : u.During callable.body t) (sound : t.Sound)
    (present : t.running.index < t.machines.size)
    (code : ∀ body ∈ t.code, Expr.guardedAll body = true) (nesting : Nat) :
    (∀ e, e.guarded = true →
      let after := (eval (runBody nesting) e).after t
      u.During callable.body after ∧ after.machine.stack = t.machine.stack) ∧
    ∀ (other : Callable) others, (∀ v ∈ others, t.heap.HasAll v.owned) →
      let after := (other.invoke (runBody nesting) others).after t
      u.During callable.body after ∧ after.machine.stack = t.machine.stack := by
  have fit : t.Fit false := { sound with allowed := fun body place => .inr (code body place) }
  refine ⟨fun e guarded => ?_, fun other others known => ?_⟩
  · exact ⟨during.after nesting e, (stack_after_eval nesting sound present code guarded).1⟩
  · have run : Run false t ((other.invoke (runBody nesting) others).after t) :=
      (runs_invoke (runs_runBody nesting) fit known).after
    exact ⟨during.later (run.steps fit), run.balanced.stack_eq present⟩

theorem reads_of_passes (passes : s.Passes u callable args p) (during : u.During callable.body t)
    {front rest : Chain} (chain : t.machine.currentChain = front ++ p :: rest) {i : Nat}
    {name : String} {v : Value} (param : callable.params[i]? = some name)
    (arg : args[i]? = some v) (unshadowed : ∀ x ∈ front, t.heap.contains x name = false)
    (run : Runner) :
    lookup run name t = .ok v t ∧ ∀ w, assign run name w t =
      .error (.failure (.ofCause (.constantAssignment name))) t := by
  have leads : Route.free.resolve t name = some (p, .constant v) := by
    rw [Route.resolve, chain]
    exact Heap.resolveIn_behind unshadowed (passes.values t during i name v param arg)
  exact ⟨Route.free.get_of_constant leads run, Route.free.set_of_constant leads run⟩

/-- The session in which the body of an invocation begins. -/
def opening (s : Session) (callable : Callable) (args : List Value) : Session :=
  let (parameters, heap) := s.heap.addScope (callable.parameters args)
  let frame := s.machine.currentFrame.pushInner parameters
  { s with
    heap
    machine := { s.machine with
      stack := { s.machine.stack with frames := frame :: s.machine.stack.frames.tail } } }

theorem enters_opening (enough : args.length = callable.arity)
    (room : s.machine.stack.frames = [] → s.machine.stack.limit ≠ some 0) :
    Enters (fun run => callable.invoke run args) s callable.body (s.opening callable args) := by
  simp only [callable.invoke_eq _ enough]
  cases frames : s.machine.stack.frames with
  | nil =>
    let t : Session := { s with heap := (s.heap.addScope (callable.parameters args)).2 }
    have fits : t.machine.stack.push t.machine.toplevelFrame = .ok
        { t.machine.stack with frames := [t.machine.toplevelFrame] } := by
      rw [CallStack.push_of_room _ fun limit is => ?_, frames]
      rw [CallStack.depth, frames]
      exact Nat.pos_of_ne_zero fun zero => room frames (zero ▸ is)
    have enters := Enters.withScope_outside (s := t)
      (x := (s.heap.addScope (callable.parameters args)).1) frames fits (.here callable.body _)
    have same : s.opening callable args = ({ t with machine := { t.machine with
        stack := { t.machine.stack with frames := [t.machine.toplevelFrame] } } }.mapFrame
          (·.pushInner (s.heap.addScope (callable.parameters args)).1)) := by
      simp only [opening, Machine.currentFrame, CallStack.current, frames]
      rfl
    rw [same]
    exact .after (fun _ => rfl) enters
  | cons frame rest =>
    have enters := callable.enters_invoke (s := s) enough (frames ▸ List.cons_ne_nil _ _)
    simp only [callable.invoke_eq _ enough] at enters
    have same : s.opening callable args =
        ({ s with heap := (s.heap.addScope (callable.parameters args)).2 }.mapFrame
          (·.pushInner (s.heap.addScope (callable.parameters args)).1)) := by
      simp only [opening, Machine.currentFrame, CallStack.current, frames, mapFrame,
        CallStack.mapCurrent]
      rfl
    rw [same]
    exact enters

theorem later_opening (sound : s.Sound) (enough : args.length = callable.arity)
    (known : ∀ v ∈ args, s.heap.HasAll v.owned) : s.Later (s.opening callable args) := by
  let t : Session := { s with heap := (s.heap.addScope (callable.parameters args)).2 }
  have made : s.Later t := later_newScope sound (Callable.admits_parameters known enough)
  have fit := (made.sound sound).fit
  have parametersHas : t.heap.Has (.scope (s.heap.addScope (callable.parameters args)).1) :=
    s.heap.has_addScope _
  have framesKnown : t.heap.HasAll
      (t.machine.currentFrame :: t.machine.stack.frames.tail |>.flatMap Frame.owned) := by
    rw [List.flatMap_cons]
    exact Heap.hasAll_append.2
      ⟨fit.currentFrame, fit.stack.subset (CallStack.owned_pop_subset _)⟩
  let stack : CallStack :=
    { t.machine.stack with frames := t.machine.currentFrame :: t.machine.stack.frames.tail }
  have framed : (t.withStack stack).Fit true := fit.withStack framesKnown
  exact made.tail ⟨.inl rfl, (framed.pushInner parametersHas).toGrounded⟩

theorem binds_opening (enough : args.length = callable.arity)
    (room : s.machine.stack.frames = [] → s.machine.stack.limit ≠ some 0) :
    s.Binds callable args (s.heap.addScope (callable.parameters args)).1
      (s.opening callable args) where
  enters := enters_opening enough room
  later sound known := later_opening sound enough known
  fresh := s.heap.not_has_addScope _
  current := rfl
  reads t during front chain i name v param arg unshadowed run := by
    have passes : s.Passes (s.opening callable args) callable args
        (s.heap.addScope (callable.parameters args)).1 :=
      passes_of_made (s.heap.not_has_addScope _) (s.heap.has_addScope _) (Heap.scope_addScope _ _)
        enough
    exact reads_of_passes passes during chain param arg unshadowed run
  again t during sound present code nesting := again_of_guarded during sound present code nesting

theorem invoke_of_full (enough : args.length = callable.arity)
    (outside : s.machine.stack.frames = []) (full : s.machine.stack.limit = some 0) (run : Runner) :
    callable.invoke run args s = .error (.failure (.ofCause (.depthExceeded 0)))
      { s with heap := (s.heap.addScope (callable.parameters args)).2 } := by
  have refused (frame : Frame) : s.machine.stack.push frame = .error (.depthExceeded 0) :=
    CallStack.push_eq_error_iff.2 ⟨0, full, Nat.zero_le _, rfl⟩
  rw [callable.invoke_eq run enough]
  simp only [newScope, onHeap, bind, EStateM.bind, withScope, outside, List.isEmpty_nil, if_true,
    withFrame, enterFrame, pushFrame, refused]

/-- Parameters are bound without exception. A callable is made of any identifiers without
repetition, and otherwise the first name that goes wrong is to blame. An invocation with the wrong
number of arguments fails and changes nothing; with the right number it binds the parameters to the
arguments, unless it is the first and no frame is allowed. -/
theorem argument_passing :
    (∀ name params body,
      ((∃ callable, Callable.create name params body = .ok callable) ↔
        (∀ param ∈ params, isIdentifier param = true) ∧ params.Nodup) ∧
      (∀ callable, Callable.create name params body = .ok callable →
        callable.name = name ∧ callable.params = params ∧ callable.body = body) ∧
      ∀ cause, Callable.create name params body = .error cause ↔
        ∃ i, Callable.Offends params i cause) ∧
    ∀ (callable : Callable) (args : List Value) (s : Session),
      (args.length ≠ callable.arity → ∀ run, callable.invoke run args s =
        .error (.failure (.ofCause
          (.arityMismatch callable.name callable.arity args.length))) s) ∧
      (args.length = callable.arity →
        (s.machine.stack.frames = [] → s.machine.stack.limit = some 0 →
          ∀ run, callable.invoke run args s = .error (.failure (.ofCause (.depthExceeded 0)))
            { s with heap := (s.heap.addScope (callable.parameters args)).2 }) ∧
        ((s.machine.stack.frames = [] → s.machine.stack.limit ≠ some 0) →
          ∃ p, s.Binds callable args p (s.opening callable args))) :=
  ⟨fun _ _ _ => ⟨Callable.exists_create_iff, fun _ => Callable.create_eq_ok,
      fun _ => Callable.create_eq_error_iff⟩,
    fun _ _ _ => ⟨fun other run => Callable.invoke_of_mismatch other run, fun enough =>
      ⟨fun outside full run => invoke_of_full enough outside full run,
        fun room => ⟨_, binds_opening enough room⟩⟩⟩⟩

/-- A parameter after the body has invoked its own callable with another argument. -/
theorem argument_passing_again :
    let s := (Program.runSteps
      [.callable "f" ["x"] [.apply (.command (.call .lookup)) [.str "x"]]]).after (Program.ready {})
    ∃ callable, Callable.create "f" ["x"] (.script 0) = .ok callable ∧
      let u := s.opening callable [.int 1]
      Enters (fun run => callable.invoke run [.int 1]) s (.script 0) u ∧
      ∀ nesting run, let t := (callable.invoke (runBody nesting) [.int 2]).after u
        lookup run "x" t = .ok (.int 1) t := by
  intro s
  obtain ⟨creates, invokes⟩ := argument_passing
  obtain ⟨callable, made⟩ := (creates "f" ["x"] (.script 0)).1.2 ⟨by decide +kernel, by decide⟩
  obtain ⟨-, params, body⟩ := (creates "f" ["x"] (.script 0)).2.1 callable made
  have enough : [Value.int 1].length = callable.arity := by rw [Callable.arity, params]; rfl
  have reachable : s.Reachable := Program.reachable_runSteps {} _
  have facts : s.running.index < s.machines.size ∧ s.machine.stack.frames = [] ∧
      s.machine.stack.limit = none ∧ ∀ body ∈ s.code, Expr.guardedAll body = true := by
    decide +kernel
  obtain ⟨present, outside, unlimited, guarded⟩ := facts
  obtain ⟨p, binds⟩ := ((invokes callable [.int 1] s).2 enough).2 fun _ => by rw [unlimited]; nofun
  have sound := (binds.later reachable.sound (by simp [Value.owned, Heap.HasAll])).sound
    reachable.sound
  refine ⟨callable, made, body ▸ binds.enters, fun nesting run => ?_⟩
  obtain ⟨during, same⟩ := (binds.again _ .start sound present guarded nesting).2 callable [.int 2]
    (by simp [Value.owned, Heap.HasAll])
  refine (binds.reads _ during [] ?_ 0 "x" (.int 1) (by rw [params]; rfl) rfl (by simp) run).1
  rw [Machine.currentChain, CallStack.current, same, ← CallStack.current, binds.current]
  rfl

end Session

end Delegation
