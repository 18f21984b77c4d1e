import Delegation.Operand

/-!
# Commands on stacks

Stacks can be handled by hand, the stack of the running machine too. Suspending a machine takes its
whole stack away and leaves an empty one with the same limit; resuming puts a stack in place and
gives the one it replaces.
-/

namespace Delegation

/-- Replaces a stack that programs share, or that of the running machine. -/
def setStack (target : Option StackId) (stack : CallStack) : Action Unit := fun session =>
  match target with
  | some s =>
      let sharedStacks := session.sharedStacks.setIfInBounds s.index stack
      .ok () { session with sharedStacks }
  | none => .ok () { session with machine := { session.machine with stack } }

namespace StackCommand

/-- The stack that the first operand names; void names that of the running machine. -/
def stackAt (xs : List Object) : Except Stop (Option StackId) :=
  operand xs 0 (Object.orVoid? Object.asStack?)

def act (command : StackCommand) (xs : List Object) : Action Object :=
  match command with
  | .stack => do
      let limit ← operand xs 0 (Object.orVoid? Object.asNat?)
      return .stack (← newStack { limit })
  | .push => do
      let at? ← stackAt xs
      let frame ← operand xs 1 Object.asFrame?
      match ((← get).stackOr at?).push frame with
      | .ok pushed => setStack at? pushed
      | .error cause => fail cause
      return .void
  | .pop => do
      let at? ← stackAt xs
      let before := (← get).stackOr at?
      setStack at? before.pop
      return .ofOption .frame before.current
  | .pushInner => do
      let at? ← stackAt xs
      let s ← operand xs 1 Object.asScope?
      let before := (← get).stackOr at?
      setStack at? (before.mapCurrent (·.pushInner s))
      return .ofBool !before.frames.isEmpty
  | .popInner => do
      let at? ← stackAt xs
      let before := (← get).stackOr at?
      setStack at? (before.mapCurrent Frame.popInner)
      return .ofOption .scope (before.current.bind fun frame => frame.chain.head?)
  | .suspend => do
      let live := (← get).machine.stack
      setStack none { limit := live.limit }
      return .stack (← newStack live)
  | .resume => do
      let s ← operand xs 0 Object.asStack?
      let session ← get
      setStack none (session.stack s)
      setStack (some s) {}
      return .stack (← newStack session.machine.stack)

end StackCommand

end Delegation
