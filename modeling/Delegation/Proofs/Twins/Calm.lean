import Delegation.Proofs.Heeding
import Delegation.Proofs.Liveness.Receiver
import Delegation.Proofs.Twins.Agreement

/-!
# Calm runs

A run is calm if every frame that is pushed finds room, no entity dies on the way, and the bodies
that it runs look neither at stacks nor at the traces of failures. That no entity dies is asked for
where it can matter, at the moments when a run asks who is alive.

In calm runs from twins the same entities are alive and the same ones receive. Frames fit on both
stacks, and what a frame, a scope in front of the current chain or another machine is in place for
may be run on both sides.
-/

namespace Delegation

open Delegation.Action

/-! ## Blindness -/

/-- Whether an operation looks neither at a stack nor at the trace of a failure, and changes no
stack. -/
def Operation.blind : Operation → Bool
  | .query q => q.blind
  | .command c => !(Operation.command c).handlesStacks

mutual

/-- Whether an expression looks neither at stacks nor at traces and leaves stacks to the forms that
put back what they change. What is in the body of a callable matters when it is run. -/
def Expr.blind : Expr → Bool
  | .void | .bool _ | .int _ | .str _ | .var _ | .drop _ | .machine _ | .callable _ _ _
  | .nullary _ _ => true
  | .bind _ value | .log value | .machineOn _ value => value.blind
  | .block body | .iterate _ body | .rescue body | .annotate _ body => blindAll body
  | .cond test yes no => test.blind && (yes.blind && no.blind)
  | .withScope x body | .withFrame x body | .enterFrame x body | .withMachine x body =>
      x.blind && blindAll body
  | .install _ | .installOn _ _ => false
  | .apply operation operands => operation.blind && blindAll operands

def Expr.blindAll : List Expr → Bool
  | [] => true
  | e :: rest => e.blind && blindAll rest

end

/-! ## Calm -/

namespace Session

/-- Whether a body looks neither at stacks nor at traces. -/
def blind (s : Session) : Body → Prop
  | .script address => Expr.blindAll (s.code.getD address []) = true
  | .root _ => True

/-- No entity has died since, nor come back: those are alive that were alive, and those that have
been made. -/
def Undying (start s : Session) : Prop :=
  ∀ e, s.isLive e = true ↔
    start.isLive e = true ∨ s.heap.Has (.entity e) ∧ ¬start.heap.Has (.entity e)

end Session

/-- What may happen in a calm run that starts from a session. -/
def Calm (start : Session) : Rule
  | .push frame, s => ∃ stack, s.machine.stack.push frame = .ok stack
  | .ask, s => start.Undying s
  | .body body, s => s.blind body

/-- Two sessions with the same heap, in which the same entities are alive. -/
structure SameWorld (start start' : Session) : Prop where
  heap : start'.heap = start.heap
  alive : ∀ e, start'.isLive e = start.isLive e

variable {α : Type} {callers : Callers} {upper : List Frame} {start start' s t : Session}
  {R : α → α → Prop} {action action' : Action α}

/-! ## Who is alive -/

theorem Twin.isLive (twin : Twin callers upper s t) (world : SameWorld start start')
    (calm : Calm start .ask s) (calm' : Calm start' .ask t) (e : EntityId) :
    t.isLive e = s.isLive e := by
  rw [Bool.eq_iff_iff, calm e, calm' e, world.alive, world.heap, twin.heap]

theorem FitTwins.receiver (twins : FitTwins callers upper s t) (world : SameWorld start start')
    (calm : Calm start .ask s) (calm' : Calm start' .ask t) {e : EntityId}
    (has : s.heap.Has (.entity e)) : t.receiver e = s.receiver e :=
  twins.fit.toSound.receiver_congr twins.sound' (congrArg Heap.entities twins.heap)
    (fun e _ => twins.isLive world calm calm' e) has

/-! ## Frames -/

theorem pushFrame_eq {frame : Frame} {stack : CallStack}
    (fits : s.machine.stack.push frame = .ok stack) :
    pushFrame frame s = .ok () (s.mapFrames (frame :: ·)) := by
  simp only [pushFrame, fits, CallStack.eq_of_push fits]
  rfl

theorem enterFrame_eq {frame : Frame} {stack : CallStack}
    (fits : s.machine.stack.push frame = .ok stack) :
    enterFrame frame action s =
      bracket (s.mapFrames (frame :: ·)) (·.mapFrames List.tail) action := by
  simp only [enterFrame, pushFrame_eq fits]
  rfl

theorem mapFrame_eq (s : Session) (f : Frame → Frame) :
    s.mapFrame f = s.mapFrames (List.modifyHead f) := by
  obtain ⟨heap, code, ⟨⟨frames, limit⟩, registry, mode, calls, counters⟩⟩ := s
  cases frames <;> rfl

/-- What is done to the frames pushed since is undone on both sides. -/
theorem Ends.undo {f g : List Frame → List Frame} {u v : Session}
    (ends : Ends callers (callers.above s.running f upper) (s.mapFrames f) u v)
    (undoes : s.running = callers.home → ∀ lower, g (f upper ++ lower) = upper ++ lower) :
    Ends callers upper s (u.mapFrames g) (v.mapFrames g) := by
  have back : u.running = s.running := ends.back
  have through : u.running = callers.home → ∀ lower,
      g (callers.above s.running f upper ++ lower) = upper ++ lower := by
    intro at_home lower
    rw [back] at at_home
    rw [Callers.above, if_pos at_home, undoes at_home]
  have twin := ends.toTwin.mapFrames (f := g) fun at_home lower => by
    rw [through at_home, ← List.append_nil (callers.above _ f upper), through at_home,
      List.append_nil]
  have same : callers.above u.running g (callers.above s.running f upper) = upper := by
    by_cases at_home : u.running = callers.home
    · rw [Callers.above, if_pos at_home, ← List.append_nil (callers.above _ f upper),
        through at_home, List.append_nil]
    · rw [Callers.above, Callers.above, if_neg at_home, if_neg (back ▸ at_home)]
  rw [same] at twin
  exact { twin with back := back }

theorem agrees_enterFrame (twins : FitTwins callers upper s t)
    (framed : upper ≠ [] ∨ s.running = callers.home) {frame : Frame}
    (known : s.heap.HasAll frame.owned) {inner inner' : Session → Prop}
    (calm : Heeding.inFrame (Calm start) frame inner s)
    (calm' : Heeding.inFrame (Calm start') frame inner' t)
    (agrees : ∀ upper' u v, upper' ≠ [] → FitTwins callers upper' u v → u.heap = s.heap →
      inner u → inner' v → Agrees callers upper' R u v action action') :
    Agrees callers upper R s t (enterFrame frame action) (enterFrame frame action') := by
  obtain ⟨⟨stack, fits⟩, calm⟩ := calm
  obtain ⟨⟨stack', fits'⟩, calm'⟩ := calm'
  have pushed : FitTwins callers (callers.above s.running (frame :: ·) upper)
      (s.mapFrames (frame :: ·)) (t.mapFrames (frame :: ·)) :=
    { twins.toTwin.mapFrames fun _ _ => rfl with
      fit := twins.fit.withStack (Heap.hasAll_append.2 ⟨known, twins.fit.stack⟩)
      known := twins.known }
  have framed' : callers.above s.running (frame :: ·) upper ≠ [] := by
    unfold Callers.above
    split
    · exact List.cons_ne_nil _ _
    · next away => exact framed.resolve_right away
  exact (agrees _ _ _ framed' pushed rfl (calm _ _ (pushFrame_eq fits))
    (calm' _ _ (pushFrame_eq fits'))).bracket (enterFrame_eq fits) (enterFrame_eq fits')
    fun u v ends => ends.undo fun _ _ => rfl

theorem agrees_withFrame (twins : FitTwins callers upper s t)
    (framed : upper ≠ [] ∨ s.running = callers.home) {frame : Frame}
    (known : s.heap.HasAll frame.owned) {inner inner' : Session → Prop}
    (calm : Heeding.inFrame (Calm start) frame inner s)
    (calm' : Heeding.inFrame (Calm start') frame inner' t)
    (agrees : ∀ upper' u v, upper' ≠ [] → FitTwins callers upper' u v → u.heap = s.heap →
      inner u → inner' v → Agrees callers upper' R u v action action') :
    Agrees callers upper R s t (withFrame frame action) (withFrame frame action') :=
  agrees_enterFrame twins framed known calm calm' fun upper' u v framed' twins' same here here' =>
    (agrees upper' u v framed' twins' same here here').tracing

/-! ## Scopes in front of the current chain -/

theorem agrees_shadowing (twins : FitTwins callers upper s t) (framed : upper ≠ []) {x : ScopeId}
    (known : s.heap.Has (.scope x))
    (agrees : ∀ upper', upper' ≠ [] →
      FitTwins callers upper' (s.mapFrame (·.pushInner x)) (t.mapFrame (·.pushInner x)) →
      Agrees callers upper' R (s.mapFrame (·.pushInner x)) (t.mapFrame (·.pushInner x))
        action action') :
    Agrees callers upper R s t (shadowing x action) (shadowing x action') := by
  obtain ⟨frame, rest, rfl⟩ := List.exists_cons_of_ne_nil framed
  have fit := twins.fit.pushInner known
  simp only [mapFrame_eq] at agrees fit
  have shadowed : FitTwins callers
      (callers.above s.running (List.modifyHead (·.pushInner x)) (frame :: rest))
      (s.mapFrames (List.modifyHead (·.pushInner x)))
      (t.mapFrames (List.modifyHead (·.pushInner x))) :=
    { twins.toTwin.mapFrames fun _ _ => rfl with fit, known := twins.known }
  have framed' :
      callers.above s.running (List.modifyHead (·.pushInner x)) (frame :: rest) ≠ [] := by
    unfold Callers.above
    split <;> exact List.cons_ne_nil _ _
  have is (action : Action α) (s : Session) : shadowing x action s =
      bracket (s.mapFrames (List.modifyHead (·.pushInner x)))
        (·.mapFrames (List.modifyHead Frame.popInner)) action := by
    simp only [shadowing, mapFrame_eq]
    rfl
  exact (agrees _ framed' shadowed).bracket (is _ _) (is _ _) fun u v ends =>
    ends.undo fun _ _ => rfl

theorem agrees_withScope (twins : FitTwins callers upper s t) (framed : upper ≠ []) {x : ScopeId}
    (known : s.heap.Has (.scope x)) {inner inner' : Session → Prop}
    (calm : Heeding.inScope (Calm start) x inner s)
    (calm' : Heeding.inScope (Calm start') x inner' t)
    (agrees : ∀ upper' u v, upper' ≠ [] → FitTwins callers upper' u v → u.heap = s.heap →
      inner u → inner' v → Agrees callers upper' R u v action action') :
    Agrees callers upper R s t (withScope x action) (withScope x action') := by
  have empty := twins.frames_isEmpty framed
  have toplevel : s.heap.HasAll s.machine.toplevelFrame.owned :=
    Heap.hasAll_cons.2 ⟨twins.fit.globals, Heap.hasAll_nil _⟩
  unfold Heeding.inScope at calm calm'
  rw [empty, twins.toplevelFrame] at calm'
  -- Something has been pushed, but on another machine the stack may be empty on both sides.
  by_cases outside : s.machine.stack.frames.isEmpty
  · rw [if_pos outside] at calm calm'
    have entered := agrees_withFrame twins (.inl framed) toplevel calm calm'
      fun _ u v framed' twins' same here here' =>
        agrees_shadowing (x := x) twins' framed' (same ▸ known) fun upper'' framed'' twins'' =>
          agrees upper'' _ _ framed'' twins'' same here here'
    refine entered.of_eq ?_ ?_
    · rw [withScope, if_pos outside]
    · rw [withScope, empty, if_pos outside, twins.toplevelFrame]
  · rw [if_neg outside] at calm calm'
    have shadowed := agrees_shadowing (x := x) twins framed known fun upper' framed' twins' =>
      agrees upper' _ _ framed' twins' rfl calm calm'
    refine shadowed.of_eq ?_ ?_
    · rw [withScope, if_neg outside]
    · rw [withScope, empty, if_neg outside]

/-! ## Other machines -/

theorem agrees_onMachine (twins : FitTwins callers upper s t) (m : MachineId)
    {inner inner' : Session → Prop} (calm : Heeding.onMachine m inner s)
    (calm' : Heeding.onMachine m inner' t)
    (agrees : ∀ u v, FitTwins callers upper u v → u.heap = s.heap → inner u → inner' v →
      Agrees callers upper R u v action action') :
    Agrees callers upper R s t (onMachine m action) (onMachine m action') := by
  have switched : FitTwins callers upper (s.switch m) (t.switch m) :=
    { twins.toTwin.switch m with
      fit := twins.fit.switch m
      known := by rw [Session.heap_switch]; exact twins.known }
  have same : (Object.machine s.running).Alike (.machine t.running) := by rw [twins.running]; rfl
  have kept := agrees_holding switched same (Heap.hasAll_nil _) fun held =>
    agrees _ _ held (s.heap_switch m) calm calm'
  have back (u v : Session)
      (ends : Ends callers upper (s.switch m) u v) :
      Ends callers upper s (u.switch s.running) (v.switch t.running) := by
    rw [twins.running]
    exact { ends.toTwin.switch s.running with back := Session.running_switch u s.running }
  exact kept.bracket rfl rfl back

end Delegation
