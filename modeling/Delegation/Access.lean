import Delegation.Invocation

/-!
# Reading and writing names

A name resolves to the cell in the nearest scope that declares it, along the line of ancestors of a
scope, or in the first scope of a chain that knows the name at all. Reading a mutable cell or a
constant gives its value and reading a computed cell calls its getter. Writing to a mutable cell
replaces its value, writing to a computed cell calls its setter if it has one, and any other writing
fails.

Code that runs looks its free names up in the chain of the current frame, or outside any frame in
the globals.
-/

namespace Delegation

variable (run : Runner)

/-- The value under a name in a scope or its ancestors. -/
def ScopeId.get (s : ScopeId) (name : String) : Action Value := do
  match (← getThe Session).heap.resolve s name with
  | some (_, .mutable v) | some (_, .constant v) => pure v
  | some (_, .computed getter _) => getter.call run []
  | none => fail (.unknownSymbol name)

/-- Assigns to a name in a scope or its ancestors. -/
def ScopeId.set (s : ScopeId) (name : String) (v : Value) : Action Unit := do
  match (← getThe Session).heap.resolve s name with
  | some (t, .mutable _) => onHeap fun heap => ((), heap.modifyScope t (·.store name v))
  | some (_, .constant _) | some (_, .computed _ none) => fail (.constantAssignment name)
  | some (_, .computed _ (some setter)) => do
      let _ ← setter.call run [v]
  | none => fail (.unknownSymbol name)

/-- The value under a name in the first scope of a chain that contains it. -/
def Chain.get (chain : Chain) (name : String) : Action Value :=
  holding (.ofScopes chain) do
    match (← getThe Session).heap.findScope chain name with
    | some s => s.get run name
    | none => fail (.unknownSymbol name)

/-- Assigns to a name in the first scope of a chain that contains it. -/
def Chain.set (chain : Chain) (name : String) (v : Value) : Action Unit :=
  holding (.ofScopes chain) do
    match (← getThe Session).heap.findScope chain name with
    | some s => s.set run name v
    | none => fail (.unknownSymbol name)

/-- The value of a free name in the code that runs. -/
def lookup (name : String) : Action Value := do
  Chain.get run (← get).machine.currentChain name

/-- Assigns to a free name in the code that runs. -/
def assign (name : String) (v : Value) : Action Unit := do
  Chain.set run (← get).machine.currentChain name v

end Delegation
