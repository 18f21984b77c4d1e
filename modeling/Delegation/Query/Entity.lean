import Delegation.Ownership.Census
import Delegation.Query.Data

/-!
# Queries on entities, callables and bindings

Whether an entity is still alive shows in three places: a weak reference to it, the owner of a
method declared on it, and the receiver of the chain of entities it belongs to.
-/

namespace Delegation

namespace EntityQuery

def answer (query : EntityQuery) (session : Session) (xs : List Object) : Except Stop Object :=
  match query with
  | .entityName => return .ofText (session.heap.entity (← operand xs 0 Object.asEntity?)).name
  | .typeDef =>
      return .ofOption .ofEntity (session.heap.entity (← operand xs 0 Object.asEntity?)).type
  | .typeName => return .ofText (session.heap.typeName (← operand xs 0 Object.asEntity?))
  | .superEntity =>
      return .ofOption .ofEntity (session.heap.entity (← operand xs 0 Object.asEntity?)).super
  | .receiver => return .ofEntity (session.receiver (← operand xs 0 Object.asEntity?))
  | .isMostDerived => do
      let e ← operand xs 0 Object.asEntity?
      return .ofBool (session.receiver e = e)
  | .weak => return .weak (← operand xs 0 Object.asEntity?)
  | .upgrade => do
      let e ← operand xs 0 Object.asWeak?
      return if session.isLive e then .ofEntity e else .void
  | .fields => return .scope (session.heap.entity (← operand xs 0 Object.asEntity?)).fields
  | .hooks => return .scope (session.heap.entity (← operand xs 0 Object.asEntity?)).hooks
  | .members | .publicView =>
      return .scope (session.heap.entity (← operand xs 0 Object.asEntity?)).members
  | .hasMember => do
      let e ← operand xs 0 Object.asEntity?
      return .ofBool (session.heap.hasMember e (← operand xs 1 Object.asText?))
  | .supportsHook => do
      let e ← operand xs 0 Object.asEntity?
      return .ofBool (session.heap.supportsHook e (← operand xs 1 Object.asText?))

end EntityQuery

namespace Session

/-- The entity that a method is declared on, if it is alive. -/
def owner? (session : Session) (b : BindingId) : Option EntityId :=
  match (session.heap.binding b).strategy with
  | .method owner => some owner
  | .declared owner => if session.isLive owner then some owner else none
  | .function _ | .closure _ => none

/-- The callable of an object that is a callable or a binding. -/
def callableOf? (session : Session) : Object → Option Callable
  | .callable callable => some callable
  | .value (.binding b) => some (session.heap.binding b).callable
  | _ => none

end Session

namespace BindingQuery

def answer (query : BindingQuery) (session : Session) (xs : List Object) : Except Stop Object :=
  match query with
  | .kind =>
      return .ofText (session.heap.binding (← operand xs 0 Object.asBinding?)).strategy.kind.text
  | .name => return .ofText (session.heap.binding (← operand xs 0 Object.asBinding?)).callable.name
  | .arity => return .ofNat (← operand xs 0 session.callableOf?).arity
  | .owner => return .ofOption .ofEntity (session.owner? (← operand xs 0 Object.asBinding?))
  | .captured => do
      match (session.heap.binding (← operand xs 0 Object.asBinding?)).strategy with
      | .closure environment => return .frame environment
      | _ => return .void
  | .callable => return .callable (session.heap.binding (← operand xs 0 Object.asBinding?)).callable

end BindingQuery

end Delegation
