import Delegation.Dispatch

/-!
# The root protocol

Root objects of the core registry carry five methods. These run for the receiver and find it under
the name `self`, like any method, so they give the same answer through every layer on top of the
root.
-/

namespace Delegation

/-- The receiver of the running method. -/
def selfEntity (run : Runner) : Action EntityId := do
  match ← lookup run "self" with
  | .entity e => pure e
  | v => fail (.custom ("expected an entity receiver, got " ++ v.typeName))

/-- A number that tells entities apart. -/
def EntityId.identity (e : EntityId) : Value := .int (Int64.ofNat (e.index + 1))

/-- The entity as a value, or void. -/
def Value.ofEntity? : Option EntityId → Value
  | some e => .entity e
  | none => .void

def RootMethod.answer (run : Runner) (method : RootMethod) : Action Value := do
  let self ← selfEntity run
  match method with
  | .id => return self.identity
  | .type => return .ofEntity? ((← get).heap.entity self).type
  | .super => return .ofEntity? ((← get).heap.entity self).super
  | .text => return .str ("<" ++ (← get).heap.typeName self ++ ">")
  | .hasMember =>
      match ← lookup run "name" with
      | .str name => return .bool ((← get).heap.hasMember self name)
      | v => fail (.custom ("has_member expects a str argument, got " ++ v.typeName))

def rootProtocol : List (String × Callable) :=
  [("id", .nullary "id" (.root .id)),
    ("type", .nullary "type" (.root .type)),
    ("super", .nullary "super" (.root .super)),
    ("to_string", .nullary "to_string" (.root .text)),
    ("has_member", ⟨"has_member", ["name"], .root .hasMember, by decide, by decide⟩)]

end Delegation
