import Delegation.Dispatch
import Delegation.Operand

/-!
# Commands that call

Bindings are made here and called, callables are invoked without one, and free names are read and
written on behalf of the code that runs.
-/

namespace Delegation

namespace CallCommand

def act (run : Runner) (command : CallCommand) (xs : List Object) : Action Object :=
  match command with
  | .invoke => do
      let callable ← operand xs 0 Object.asCallable?
      let args ← operandsFrom xs 1 Object.asValue?
      return .value (← callable.invoke run args)
  | .function => do
      let callable ← operand xs 0 Object.asCallable?
      let enclosing ← operand xs 1 (Object.orVoid? Object.asScope?)
      return .value (.binding (← newBinding ⟨callable, .function enclosing⟩))
  | .bound => do
      let callable ← operand xs 0 Object.asCallable?
      let owner ← operand xs 1 Object.asEntity?
      return .value (.binding (← newBinding ⟨callable, .method owner⟩))
  | .closure => do
      let callable ← operand xs 0 Object.asCallable?
      let captured := (← get).machine.currentFrame
      return .value (.binding (← newBinding ⟨callable, .closure captured⟩))
  | .callBinding => do
      let b ← operand xs 0 Object.asBinding?
      let args ← operandsFrom xs 1 Object.asValue?
      return .value (← b.call run args)
  | .lookup => do
      let name ← operand xs 0 Object.asText?
      return .value (← Delegation.lookup run name)
  | .assign => do
      let name ← operand xs 0 Object.asText?
      let v ← operand xs 1 Object.asValue?
      Delegation.assign run name v
      return .void
  | .call => do
      let callee ← operand xs 0 Object.asValue?
      let args ← operandsFrom xs 1 Object.asValue?
      return .value (← callValue run callee args)

end CallCommand

end Delegation
