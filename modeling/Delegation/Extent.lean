import Delegation.Action

/-!
# Frames and scopes for the time of an action

An action may run inside a frame, pushed for the time of the action and popped again however it
ends, or with a scope in front of the chain of the current frame, put there and taken away again in
the same manner. A failure that leaves a frame takes the trace of the stack along, unless it has one
from a frame further in.

What is taken away is whatever is foremost when the action ends: the most recent frame of the
running machine, or the foremost scope of its current frame.
-/

namespace Delegation

/-- Pushes a frame on the stack of the running machine. -/
def pushFrame (frame : Frame) : Action Unit := fun session =>
  match session.machine.stack.push frame with
  | .ok stack => .ok () { session with machine := { session.machine with stack } }
  | .error cause => .error (.failure (.ofCause cause)) session

/-- The session without the most recent frame of its running machine. -/
def Session.popFrame (session : Session) : Session :=
  { session with machine := { session.machine with stack := session.machine.stack.pop } }

/-- The session with its current frame changed, if there is one. -/
def Session.mapFrame (session : Session) (f : Frame → Frame) : Session :=
  { session with machine := { session.machine with stack := session.machine.stack.mapCurrent f } }

/-- Taking a frame away undoes pushing it. -/
theorem popFrame_of_pushFrame {frame : Frame} {session pushed : Session}
    (ok : pushFrame frame session = .ok () pushed) : pushed.popFrame = session := by
  unfold pushFrame at ok
  split at ok
  · next stack fits =>
    cases ok
    simp only [Session.popFrame, CallStack.pop_of_push fits]
  · cases ok

theorem mapFrame_popInner_pushInner (session : Session) (s : ScopeId) :
    (session.mapFrame (·.pushInner s)).mapFrame Frame.popInner = session := by
  simp only [Session.mapFrame, CallStack.mapCurrent_mapCurrent, Frame.popInner_pushInner,
    CallStack.mapCurrent_self]

/-- Gives a failure of the action the trace of the stack it left, unless it has one. -/
@[inline] def tracing {α : Type} (action : Action α) : Action α := fun session =>
  match action session with
  | .error (.failure failure) session =>
      .error (.failure (session.heap.attachTrace session.machine.stack failure)) session
  | result => result

/-- Runs an action inside a frame; its failures pass as they are. -/
@[inline] def enterFrame {α : Type} (frame : Frame) (action : Action α) : Action α := fun session =>
  match pushFrame frame session with
  | .error stop session => .error stop session
  | .ok () session =>
      match action session with
      | .ok a session => .ok a session.popFrame
      | .error stop session => .error stop session.popFrame

/-- Runs an action inside a frame; a failure that leaves the frame gains a trace. -/
@[inline] def withFrame {α : Type} (frame : Frame) (action : Action α) : Action α :=
  enterFrame frame (tracing action)

/-- Runs an action with a scope in front of the chain of the current frame. -/
@[inline] def shadowing {α : Type} (s : ScopeId) (action : Action α) : Action α := fun session =>
  match action (session.mapFrame (·.pushInner s)) with
  | .ok a session => .ok a (session.mapFrame Frame.popInner)
  | .error stop session => .error stop (session.mapFrame Frame.popInner)

/-- Runs an action with a scope in front of the current chain; outside any frame, in a frame that
sees the globals. -/
def withScope {α : Type} (s : ScopeId) (action : Action α) : Action α := fun session =>
  if session.machine.stack.frames.isEmpty then
    withFrame session.machine.toplevelFrame (shadowing s action) session
  else shadowing s action session

end Delegation
