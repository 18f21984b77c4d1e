import Delegation.Failure
import Delegation.Value

/-!
# Frames and stacks

A frame is the environment of one activation: who runs, under which name, and the chain in which
free names are looked for. The frames of a run form a stack, which may have a limit on its depth.
Pushing on a full stack fails and leaves it as it was.
-/

namespace Delegation

/-- The environment of an activation. -/
structure Frame where
  owner : Value
  name : String
  chain : Chain
  deriving DecidableEq

namespace Frame

/-- The frame with a scope in front of its chain. -/
def pushInner (frame : Frame) (scope : ScopeId) : Frame :=
  { frame with chain := scope :: frame.chain }

/-- The frame without the foremost scope of its chain. -/
def popInner (frame : Frame) : Frame := { frame with chain := frame.chain.tail }

@[simp] theorem popInner_pushInner (frame : Frame) (scope : ScopeId) :
    (frame.pushInner scope).popInner = frame := rfl

end Frame

/-- A stack of frames with a limit on its depth. -/
structure CallStack where
  /-- The frames, most recent first. -/
  frames : List Frame := []
  limit : Option Nat := none
  deriving DecidableEq

namespace CallStack

instance : Inhabited CallStack := ⟨{}⟩

def depth (stack : CallStack) : Nat := stack.frames.length

def current (stack : CallStack) : Option Frame := stack.frames.head?

/-- The stack with a further frame, unless it is full. -/
def push (stack : CallStack) (frame : Frame) : Except Cause CallStack :=
  match stack.limit with
  | none => .ok { stack with frames := frame :: stack.frames }
  | some limit =>
      if limit ≤ stack.frames.length then .error (.depthExceeded limit)
      else .ok { stack with frames := frame :: stack.frames }

def pop (stack : CallStack) : CallStack := { stack with frames := stack.frames.tail }

/-- Changes the most recent frame, if there is one. -/
def mapCurrent (stack : CallStack) (f : Frame → Frame) : CallStack :=
  match stack.frames with
  | [] => stack
  | frame :: rest => { stack with frames := f frame :: rest }

theorem pop_of_push {stack pushed : CallStack} {frame : Frame}
    (ok : stack.push frame = .ok pushed) : pushed.pop = stack := by
  unfold push at ok
  split at ok
  · cases ok
    rfl
  · split at ok
    · cases ok
    · cases ok
      rfl

/-- Pushing fails exactly on a full stack, with the limit as the cause. -/
theorem push_eq_error_iff {stack : CallStack} {frame : Frame} {cause : Cause} :
    stack.push frame = .error cause ↔
      ∃ limit, stack.limit = some limit ∧ limit ≤ stack.depth ∧ cause = .depthExceeded limit := by
  unfold push depth
  cases stack.limit with
  | none => simp
  | some limit => by_cases full : limit ≤ stack.frames.length <;> simp [full, eq_comm]

@[simp] theorem limit_pop (stack : CallStack) : stack.pop.limit = stack.limit := rfl

@[simp] theorem limit_mapCurrent (stack : CallStack) (f : Frame → Frame) :
    (stack.mapCurrent f).limit = stack.limit := by
  unfold mapCurrent
  split <;> rfl

@[simp] theorem depth_mapCurrent (stack : CallStack) (f : Frame → Frame) :
    (stack.mapCurrent f).depth = stack.depth := by
  obtain ⟨frames, limit⟩ := stack
  cases frames <;> rfl

theorem mapCurrent_mapCurrent (stack : CallStack) (f g : Frame → Frame) :
    (stack.mapCurrent f).mapCurrent g = stack.mapCurrent fun frame => g (f frame) := by
  obtain ⟨frames, limit⟩ := stack
  cases frames <;> rfl

theorem mapCurrent_self (stack : CallStack) : (stack.mapCurrent fun frame => frame) = stack := by
  obtain ⟨frames, limit⟩ := stack
  cases frames <;> rfl

end CallStack

end Delegation
