import Delegation.Action
import Delegation.Ownership.Census

/-!
# Reports

How objects and failures look from outside. Scopes, chains and stacks are reported by what is in
them at that moment, bindings and callables by their names, and a weak reference by whether the
entity it names is alive. Entities are numbered in the order in which they are first reported, and
keep their numbers.
-/

namespace Delegation

namespace Cause

def sort : Cause → String
  | .invalidSymbol .. => "InvalidSymbol"
  | .duplicateSymbol _ => "DuplicateSymbol"
  | .unknownSymbol _ => "UnknownSymbol"
  | .constantAssignment _ => "ConstantAssignment"
  | .sealedScope _ => "SealedScope"
  | .arityMismatch .. => "ArityMismatch"
  | .notCallable _ => "NotCallable"
  | .depthExceeded _ => "StackOverflow"
  | .budgetExceeded .. => "BudgetExceeded"
  | .unsupportedHook .. => "UnsupportedHook"
  | .unknownMember .. => "UnknownMember"
  | .alreadyDerived _ => "AlreadyDerived"
  | .detachedReceiver _ => "DetachedReceiver"
  | .custom _ => "Custom"

/-- What a cause is about, field by field. -/
def fields : Cause → List (String × Datum)
  | .invalidSymbol symbol policy => [("symbol", .text symbol), ("policy", .text policy.text)]
  | .duplicateSymbol symbol | .unknownSymbol symbol | .constantAssignment symbol
  | .sealedScope symbol => [("symbol", .text symbol)]
  | .arityMismatch name expected got =>
      [("name", .text name), ("expected", .ofNat expected), ("got", .ofNat got)]
  | .notCallable typeName => [("type_name", .text typeName)]
  | .depthExceeded limit => [("depth", .ofNat limit)]
  | .budgetExceeded calls budget => [("calls", .ofNat calls), ("budget", .ofNat budget)]
  | .unsupportedHook hook entity => [("hook", .text hook), ("entity", .text entity)]
  | .unknownMember member entity => [("member", .text member), ("entity", .text entity)]
  | .alreadyDerived entity => [("entity", .text entity)]
  | .detachedReceiver method => [("method", .text method)]
  | .custom message => [("message", .text message)]

end Cause

/-- The report of a failure, field by field. -/
def Failure.report (failure : Failure) : List (String × Datum) :=
  [("error", .text failure.cause.sort),
    ("message", .text failure.cause.message),
    ("fields", .record failure.cause.fields),
    ("backtrace", .ofOption
      (fun trace => .list (trace.map fun live => .ofTexts [live.name, live.owner])) failure.trace),
    ("notes", .ofTexts failure.notes)]

/-- The report of a chain: the symbols of its scopes, each on its own. -/
def Heap.reportChain (heap : Heap) (chain : Chain) : Datum :=
  .list (chain.map fun s => .ofTexts (heap.scope s).symbols)

/-- The number of an entity in a list, from one, and the list with the entity in it. -/
def numberOf (e : EntityId) (reported : List EntityId) : Nat × List EntityId :=
  match reported.idxOf? e with
  | some i => (i + 1, reported)
  | none => (reported.length + 1, reported ++ [e])

namespace Session

/-- The report of a value, given the entities reported before. -/
def reportValue (session : Session) (v : Value) (reported : List EntityId) :
    Datum × List EntityId :=
  match v with
  | .void => (.null, reported)
  | .bool b => (.bool b, reported)
  | .int n => (.int n.toInt, reported)
  | .str s => (.text s, reported)
  | .entity e =>
      let (n, reported) := numberOf e reported
      (.record [("entity", .text (session.heap.entity e).name), ("n", .ofNat n)], reported)
  | .binding b =>
      let binding := session.heap.binding b
      (.record [("binding", .text binding.strategy.kind.text),
        ("name", .text binding.callable.name), ("arity", .ofNat binding.callable.arity)], reported)

mutual

/-- The report of an object, given the entities reported before. -/
def report (session : Session) : Object → List EntityId → Datum × List EntityId
  | .value v, reported => session.reportValue v reported
  | .scope s, reported =>
      let scope := session.heap.scope s
      (.record [("scope", .ofTexts scope.symbols), ("policy", .text scope.policy.text),
        ("sealed", .bool scope.isSealed), ("parent", .bool scope.parent.isSome)], reported)
  | .cell cell, reported => (.record [("cell", .text cell.kind.text)], reported)
  | .chain c, reported =>
      (.record [("chain", session.heap.reportChain (session.chain c))], reported)
  | .callable callable, reported =>
      (.record [("callable", .text callable.name), ("params", .ofTexts callable.params)], reported)
  | .frame frame, reported =>
      let (owner, reported) := session.reportValue frame.owner reported
      (.record [("frame", .text frame.name), ("owner", owner),
        ("chain", session.heap.reportChain frame.chain)], reported)
  | .stack s, reported =>
      let stack := session.stack s
      (.record [("stack", .ofTexts (stack.frames.reverse.map Frame.name)),
        ("max", .ofOption .ofNat stack.limit)], reported)
  | .weak e, reported => (.record [("weak", .bool (session.isLive e))], reported)
  | .failure failure, reported => (.record failure.report, reported)
  | .builder b, reported =>
      (.record [("builder", .bool (session.builders.getD b.index none).isSome)], reported)
  | .registry registry, reported =>
      (.record [("builtins", .ofTexts (session.heap.scope registry.scope).symbols)], reported)
  | .machine m, reported =>
      let machine := session.machineAt m
      (.record [("runtime", .ofNat machine.stack.depth), ("calls", .ofNat machine.calls)], reported)
  | .list items, reported =>
      let (items, reported) := session.reportAll items reported
      (.list items, reported)

/-- The reports of the objects in a list, from left to right. -/
def reportAll (session : Session) : List Object → List EntityId → List Datum × List EntityId
  | [], reported => ([], reported)
  | x :: xs, reported =>
      let (first, reported) := session.report x reported
      let (rest, reported) := session.reportAll xs reported
      (first :: rest, reported)

end

end Session

/-- Reports an object, which stays owned meanwhile. -/
def reportObject (x : Object) : Action Datum :=
  holding x fun session =>
    let (datum, reported) := session.report x session.reported
    .ok datum { session with reported }

/-- Reports an object in the log of the step. -/
def logObject (x : Object) : Action Unit := do
  let datum ← reportObject x
  modify fun session => { session with log := session.log ++ [datum] }

end Delegation
