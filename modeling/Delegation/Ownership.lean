import Delegation.Session

/-!
# Ownership

A scope, an entity or a binding lives as long as something owns it. Variables own what they hold,
and so do the objects that evaluation has in hand and the running machine; these are the roots. Past
them ownership follows the heap: an entity owns its super-entity, its type and its tables, a scope
owns its parent and what its cells hold, a binding owns the scopes and the entity it needs to run.
Two links do not own what they name: the one from an entity to the entity derived from it, and the
one from a method in a table to the entity whose table it is.

An object is released when its last owner lets go of it or is itself released. So what stays alive
is all that is reached from the roots, and all that is reached from a cycle of owners: a cycle never
loses its last owner.
-/

namespace Delegation

/-- What can be owned. -/
inductive Node where
  | scope (s : ScopeId)
  | entity (e : EntityId)
  | binding (b : BindingId)
  deriving DecidableEq

/-! ## What owns what -/

/-- What a value owns. -/
def Value.owned : Value → List Node
  | .entity e => [.entity e]
  | .binding b => [.binding b]
  | _ => []

def Cell.owned : Cell → List Node
  | .mutable v | .constant v => v.owned
  | .computed getter setter => .binding getter :: setter.toList.map .binding

def Chain.owned (chain : Chain) : List Node := chain.map .scope

def Frame.owned (frame : Frame) : List Node := frame.owner.owned ++ Chain.owned frame.chain

def CallStack.owned (stack : CallStack) : List Node := stack.frames.flatMap Frame.owned

def Cell.ownedByAll : List (String × Cell) → List Node
  | [] => []
  | (_, cell) :: rest => cell.owned ++ ownedByAll rest

/-- What a scope owns: its parent, and what its cells hold. -/
def Scope.owned (scope : Scope) : List Node :=
  match scope.parent with
  | some parent => .scope parent :: Cell.ownedByAll scope.cells
  | none => Cell.ownedByAll scope.cells

/-- What an entity owns: its super-entity, its type and its tables. -/
def Entity.owned (record : Entity) : List Node :=
  record.super.toList.map .entity ++ record.type.toList.map .entity ++
    [.scope record.fields, .scope record.hooks, .scope record.members]

/-- What a binding owns beside its callable, which owns nothing. -/
def Strategy.owned : Strategy → List Node
  | .function enclosing => enclosing.toList.map .scope
  | .method owner => [.entity owner]
  | .declared _ => []
  | .closure captured => captured.owned

def Registry.owned (registry : Registry) : List Node :=
  .scope registry.scope :: registry.types.map fun (_, type) => .entity type

def Machine.owned (machine : Machine) : List Node :=
  machine.stack.owned ++ machine.registry.owned

namespace Heap

/-- What an object of the heap owns. -/
def owned (heap : Heap) : Node → List Node
  | .scope s => (heap.scope s).owned
  | .entity e => (heap.entity e).owned
  | .binding b => (heap.binding b).strategy.owned

def nodes (heap : Heap) : List Node :=
  (List.range heap.scopes.size).map (fun i => .scope ⟨i⟩) ++
    (List.range heap.entities.size).map (fun i => .entity ⟨i⟩) ++
    (List.range heap.bindings.size).map (fun i => .binding ⟨i⟩)

end Heap

namespace Session

mutual

/-- What an object owns while somebody holds it. -/
def ownedBy (session : Session) : Object → List Node
  | .value v => v.owned
  | .scope s => [.scope s]
  | .cell cell => cell.owned
  | .chain c => Chain.owned (session.chain c)
  | .callable _ => []
  | .frame frame => frame.owned
  | .stack s => (session.stack s).owned
  | .weak _ => []
  | .failure _ => []
  | .builder b => ((session.builders.getD b.index none).map Registry.owned).getD []
  | .registry registry => registry.owned
  | .machine m => (session.machineAt m).owned
  | .list items => session.ownedByAll items

def ownedByAll (session : Session) : List Object → List Node
  | [] => []
  | x :: xs => session.ownedBy x ++ session.ownedByAll xs

end

/-- What is owned from outside the heap. -/
def roots (session : Session) : List Node :=
  session.vars.flatMap (fun (_, x) => session.ownedBy x) ++
    session.held.flatMap session.ownedBy ++ session.machine.owned

/-- An object is released when nothing outside the heap owns it and all its owners in the heap are
released. Cycles of owners are never released. -/
inductive Released (session : Session) : Node → Prop where
  | intro (x : Node) (unrooted : x ∉ session.roots)
      (owners : ∀ y, x ∈ session.heap.owned y → Released session y) : Released session x

end Session

end Delegation
