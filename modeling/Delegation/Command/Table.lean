import Delegation.Query.Table
import Delegation.Access

/-!
# Commands on tables

Scopes and chains are made and changed here, and read and written where that may run a getter or a
setter. A chain is shared by all who hold it; putting it into a frame, or reading through it, takes
the scopes it has at that moment.
-/

namespace Delegation

def modifyChain (c : ChainId) (f : Chain → Chain) : Action Unit := fun session =>
  .ok () { session with sharedChains := session.sharedChains.modify c.index f }

namespace TableCommand

def act (run : Runner) (command : TableCommand) (xs : List Object) : Action Object :=
  match command with
  | .scope => do
      let policy ← operand xs 0 Object.asPolicy?
      return .scope (← newScope (.root policy))
  | .child => do
      let parent ← operand xs 0 Object.asScope?
      let policy ← operand xs 1 Object.asPolicy?
      return .scope (← newScope ((← getThe Session).heap.emptyScope (some parent) policy))
  | .declare => do
      let s ← operand xs 0 Object.asScope?
      let name ← operand xs 1 Object.asText?
      let cell ← operand xs 2 Object.asCell?
      Delegation.declare s name cell
      return .void
  | .seal => do
      let s ← operand xs 0 Object.asScope?
      onHeap fun heap => ((), heap.modifyScope s Scope.close)
      return .void
  | .get => do
      let table ← operand xs 0 Object.asTable?
      let name ← operand xs 1 Object.asText?
      match table with
      | .inl s => return .value (← s.get run name)
      | .inr c => return .value (← Chain.get run ((← getThe Session).chain c) name)
  | .set => do
      let table ← operand xs 0 Object.asTable?
      let name ← operand xs 1 Object.asText?
      let v ← operand xs 2 Object.asValue?
      match table with
      | .inl s => s.set run name v
      | .inr c => Chain.set run ((← getThe Session).chain c) name v
      return .void
  | .chain => do
      let scopes ← operandsFrom xs 0 Object.asScope?
      return .chain (← newChain scopes)
  | .copyChain => do
      let c ← operand xs 0 Object.asChain?
      return .chain (← newChain ((← getThe Session).chain c))
  | .frameChain => do
      let frame ← operand xs 0 Object.asFrame?
      return .chain (← newChain frame.chain)
  | .currentChain => do
      return .chain (← newChain (← getThe Session).machine.currentChain)
  | .privateView => do
      let e ← operand xs 0 Object.asEntity?
      return .chain (← newChain ((← getThe Session).heap.privateView e))
  | .pushInner => do
      let c ← operand xs 0 Object.asChain?
      let s ← operand xs 1 Object.asScope?
      modifyChain c (s :: ·)
      return .void
  | .pushOuter => do
      let c ← operand xs 0 Object.asChain?
      let s ← operand xs 1 Object.asScope?
      modifyChain c (· ++ [s])
      return .void
  | .popInner => do
      let c ← operand xs 0 Object.asChain?
      let innermost := ((← getThe Session).chain c).head?
      modifyChain c List.tail
      return .ofOption .scope innermost

end TableCommand

end Delegation
