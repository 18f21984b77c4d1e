import Delegation.Datum
import Delegation.Heap
import Delegation.Object
import Delegation.Script

/-!
# Sessions

A session is everything a program can touch: the heap, the code of the bodies it has brought along,
the machine it runs on and those it does not run on at the moment, the chains, stacks and registries
it handles by name, and its variables.

Objects that evaluation has in hand and no variable holds are kept in `held` for as long as they are
needed: they count as owned.
-/

namespace Delegation

/-- Everything a program can touch. -/
structure Session where
  heap : Heap := {}
  /-- The scripts of the bodies made so far. -/
  code : Array (List Expr) := #[]
  /-- The machine that bodies run on. -/
  machine : Machine
  /-- The name of the machine that bodies run on. -/
  running : MachineId := ⟨0⟩
  /-- The machines by name. The entry of the running one is out of date. -/
  machines : Array Machine := #[]
  sharedChains : Array Chain := #[]
  sharedStacks : Array CallStack := #[]
  /-- Registries under construction; nothing where one has been finished. -/
  builders : Array (Option Registry) := #[]
  vars : List (String × Object) := []
  /-- Objects that evaluation has in hand, latest first. -/
  held : List Object := []
  /-- The entities that have been reported, in the order of their first report. Being reported does
  not keep an entity alive. -/
  reported : List EntityId := []
  /-- What the current step has reported so far. -/
  log : List Datum := []

namespace Session

def machineAt (session : Session) (m : MachineId) : Machine :=
  if m = session.running then session.machine else session.machines.getD m.index default

def chain (session : Session) (c : ChainId) : Chain := session.sharedChains.getD c.index []

def stack (session : Session) (s : StackId) : CallStack := session.sharedStacks.getD s.index {}

/-- The stack with the given name, or that of the running machine. -/
def stackOr (session : Session) : Option StackId → CallStack
  | some s => session.stack s
  | none => session.machine.stack

end Session

end Delegation
