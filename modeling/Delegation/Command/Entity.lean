import Delegation.Registry.Protocol
import Delegation.Query.Entity

/-!
# Commands on entities

Entities are built here, hooks, members and fields are declared on them, and messages are sent.
-/

namespace Delegation

namespace EntityCommand

/-- The cell of a field, from its value and the word that says whether it may be replaced. -/
def fieldCell? (v : Value) : Object → Option Cell
  | .value (.str "mut") => some (.mutable v)
  | .value (.str "const") => some (.constant v)
  | _ => none

/-- A property, from the word for its sort and what it is made of. -/
def readProperty (xs : List Object) : Except Stop Property := do
  match ← operand xs 2 Object.asText? with
  | "stored" => return .stored (← operand xs 3 Object.asValue?)
  | "get" => return .getter (← operand xs 3 Object.asCallable?)
  | "getset" =>
      return .accessors (← operand xs 3 Object.asCallable?) (← operand xs 4 Object.asCallable?)
  | _ => .error (.malformed "no sort of property has this name")

def act (run : Runner) (command : EntityCommand) (xs : List Object) : Action Object :=
  match command with
  | .entity => do
      let name ← operand xs 0 Object.asText?
      let super ← operand xs 1 (Object.orVoid? Object.asEntity?)
      let type ← operand xs 2 (Object.orVoid? Object.asEntity?)
      return .ofEntity (← buildEntity super type name)
  | .selfScope => do
      let e ← operand xs 0 Object.asEntity?
      let session ← get
      return .scope (← newScope (identityScope session.heap e (session.receiver e)))
  | .hook => do
      let e ← operand xs 0 Object.asEntity?
      let name ← operand xs 1 Object.asText?
      declareHook e name (← operand xs 2 Object.asCallable?)
      return .void
  | .method => do
      let e ← operand xs 0 Object.asEntity?
      let name ← operand xs 1 Object.asText?
      declareMethod e name (← operand xs 2 Object.asCallable?)
      return .void
  | .field => do
      let e ← operand xs 0 Object.asEntity?
      let name ← operand xs 1 Object.asText?
      let v ← operand xs 2 Object.asValue?
      declareField e name (← operand xs 3 (fieldCell? v))
      return .void
  | .property => do
      let e ← operand xs 0 Object.asEntity?
      let name ← operand xs 1 Object.asText?
      declareProperty e name (← readProperty xs)
      return .void
  | .getMember => do
      let e ← operand xs 0 Object.asEntity?
      let name ← operand xs 1 Object.asText?
      return .value (← Delegation.getMember run e name)
  | .setMember => do
      let e ← operand xs 0 Object.asEntity?
      let name ← operand xs 1 Object.asText?
      let v ← operand xs 2 Object.asValue?
      Delegation.setMember run e name v
      return .void
  | .send => do
      let e ← operand xs 0 Object.asEntity?
      let name ← operand xs 1 Object.asText?
      let args ← operandsFrom xs 2 Object.asValue?
      return .value (← invokeMember run e name args)
  | .sendHook => do
      let e ← operand xs 0 Object.asEntity?
      let name ← operand xs 1 Object.asText?
      let args ← operandsFrom xs 2 Object.asValue?
      return .value (← invokeHook run e name args)
  | .idMatches => do
      let e ← operand xs 0 Object.asEntity?
      let other ← operand xs 1 Object.asEntity?
      let identity ← invokeMember run e "id" []
      return .ofBool (identity = other.identity)

end EntityCommand

end Delegation
