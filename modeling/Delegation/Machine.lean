import Delegation.Registry
import Delegation.Counters
import Delegation.Mode

/-!
# Machines

A machine runs programs. It has a stack of activations, the registry whose scope closes every chain,
the mode it was set up in, and a count of the calls of bindings attempted so far. The count goes up
before anything else is checked, so an attempt that fails is counted as well, and once the budget is
used up every further attempt fails.
-/

namespace Delegation

/-- What runs programs. -/
structure Machine where
  stack : CallStack
  registry : Registry
  mode : Mode
  /-- The calls of bindings attempted so far, up to the largest count. -/
  calls : Nat
  counters : Option Counters
  deriving DecidableEq

namespace Machine

/-- The count of calls stays at this number once it is reached. -/
def maxCalls : Nat := UInt64.size - 1

def fresh (config : Config) (registry : Registry) : Machine where
  stack := { limit := config.stackLimit }
  registry := registry
  mode := config.mode
  calls := 0
  counters := if config.profile then some {} else none

instance : Inhabited Machine := ⟨fresh {} default⟩

/-- Counts an attempt to call a binding. -/
def countCall (machine : Machine) (kind : BindingKind) : Machine :=
  { machine with
    calls := min (machine.calls + 1) maxCalls
    counters := machine.counters.map (·.count kind) }

/-- The reason to refuse the call counted last, if the budget does not cover it. -/
def overBudget? (machine : Machine) : Option Cause :=
  match machine.mode.callBudget with
  | none => none
  | some budget =>
      if budget < machine.calls then some (.budgetExceeded machine.calls budget) else none

/-- The scope of the registry, outermost in every chain. -/
def globals (machine : Machine) : ScopeId := machine.registry.scope

/-- The frame of code that runs outside any call. -/
def toplevelFrame (machine : Machine) : Frame := ⟨.void, "<toplevel>", [machine.globals]⟩

/-- The frame that is current, or that of code outside any call. -/
def currentFrame (machine : Machine) : Frame :=
  machine.stack.current.getD machine.toplevelFrame

/-- The chain in which free names are looked for. -/
def currentChain (machine : Machine) : Chain :=
  match machine.stack.current with
  | some frame => frame.chain
  | none => [machine.globals]

end Machine

end Delegation
