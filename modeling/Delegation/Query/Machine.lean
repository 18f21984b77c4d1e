import Delegation.Registry.Construction
import Delegation.Query.Data

/-!
# Queries on stacks and machines

A stack is named by an object, or is that of the running machine. Queries on a machine are about the
running one.
-/

namespace Delegation

namespace StackQuery

/-- The stack that an operand names; void names that of the running machine. -/
def stackAt (session : Session) (xs : List Object) (i : Nat) : Except Stop CallStack :=
  return session.stackOr (← operand xs i (Object.orVoid? Object.asStack?))

def answer (query : StackQuery) (session : Session) (xs : List Object) : Except Stop Object :=
  match query with
  | .frame => do
      let owner ← operand xs 0 Object.asValue?
      let name ← operand xs 1 Object.asText?
      return .frame ⟨owner, name, session.chain (← operand xs 2 Object.asChain?)⟩
  | .frameOwner => return .value (← operand xs 0 Object.asFrame?).owner
  | .current => return .ofOption .frame (← stackAt session xs 0).current
  | .frames => return .list ((← stackAt session xs 0).frames.reverse.map .frame)
  | .depth => return .ofNat (← stackAt session xs 0).depth
  | .isEmpty => return .ofBool (← stackAt session xs 0).frames.isEmpty
  | .limit => return .ofOption .ofNat (← stackAt session xs 0).limit
  | .capture => return .ofText (Trace.text (session.heap.trace (← stackAt session xs 0)))
  | .attach => do
      let stack ← stackAt session xs 0
      return .failure (session.heap.attachTrace stack (← operand xs 1 Object.asFailure?))

end StackQuery

def Object.asMode? : Object → Option Mode
  | .value (.str "interpret") => some .interpret
  | .value (.str "test") => some .test
  | x => x.asNat?.map .bounded

def Object.ofMode : Mode → Object
  | .interpret => .ofText "interpret"
  | .test => .ofText "test"
  | .bounded budget => .ofNat budget

namespace MachineQuery

def answer (query : MachineQuery) (session : Session) (xs : List Object) : Except Stop Object :=
  match query with
  | .registry => return .registry session.machine.registry
  | .coreTypes => return .ofTexts Registry.coreTypes
  | .registryScope => return .scope (← operand xs 0 Object.asRegistry?).scope
  | .registryType => do
      let registry ← operand xs 0 Object.asRegistry?
      let type := registry.type? (← operand xs 1 Object.asText?)
      return .ofOption (fun e => .value (.entity e)) type
  | .globals => return .scope session.machine.globals
  | .callCount => return .ofNat session.machine.calls
  | .mode => return .ofMode session.machine.mode
  | .modeLimits => do
      let mode ← operand xs 0 Object.asMode?
      return .list [.ofOption .ofNat mode.depthLimit, .ofOption .ofNat mode.callBudget]
  | .counters =>
      return .ofOption
        (fun counters =>
          .list [.ofNat counters.function.toNat, .ofNat counters.method.toNat,
            .ofNat counters.closure.toNat])
        session.machine.counters
  | .report => return .ofOption (fun counters => .ofText counters.report) session.machine.counters
  | .toplevelFrame => return .frame session.machine.toplevelFrame

end MachineQuery

end Delegation
