import Delegation.Operand
import Delegation.Extent

/-!
# Forms

The forms of a script, apart from how their parts are evaluated: reading and setting variables,
changing over to another machine, and running an action a number of times, under a scope, inside a
frame, or for its failure.

The scope, frame or machine that a body runs under stays owned meanwhile, even if the body takes it
off the stack. A frame that is only entered is handed over to the stack and owned by nothing else.
-/

namespace Delegation

/-! ## Variables -/

def readVariable (name : String) : Action Object := do
  match (← get).vars.lookup name with
  | some x => pure x
  | none => malformed ("no variable has the name " ++ name)

/-- The variables other than the one with the given name. -/
def Session.varsBut (session : Session) (name : String) : List (String × Object) :=
  session.vars.filter fun (other, _) => other != name

def setVariable (name : String) (x : Object) : Action Unit := fun session =>
  .ok () { session with vars := (name, x) :: session.varsBut name }

def dropVariable (name : String) : Action Unit := fun session =>
  .ok () { session with vars := session.varsBut name }

/-! ## Machines -/

def Session.switch (session : Session) (m : MachineId) : Session :=
  if m = session.running then session
  else
    { session with
      machines := session.machines.setIfInBounds session.running.index session.machine
      machine := session.machines.getD m.index default
      running := m }

def onMachine {α : Type} (m : MachineId) (action : Action α) : Action α := fun session =>
  let back := session.running
  match holding (.machine back) action (session.switch m) with
  | .ok a session => .ok a (session.switch back)
  | .error stop session => .error stop (session.switch back)

def startMachine (config : Config) (registry : Registry) : Action Object := do
  return .machine (← newMachine (.fresh config registry))

/-- Replaces the running machine by a new one. -/
def installMachine (config : Config) (registry : Registry) : Action Object := do
  modifyMachine fun _ => .fresh config registry
  return .void

/-! ## Forms that bring a body along -/

/-- Runs an action a number of times, for the last result. -/
def iterate : Nat → Action Object → Action Object
  | 0, _ => pure .void
  | 1, action => action
  | n + 2, action => do
      let _ ← action
      iterate (n + 1) action

def rescue (action : Action Object) : Action Object := do
  match ← attempt action with
  | .ok x => pure x
  | .error failure => pure (.failure failure)

def makeCallable (name : String) (params : List String) (body : List Expr) : Action Object := do
  match Callable.create name params (← newScript body) with
  | .ok callable => pure (.callable callable)
  | .error cause => fail cause

def makeNullary (name : String) (body : List Expr) : Action Object := do
  return .callable (.nullary name (← newScript body))

def underScope (x : Object) (action : Action Object) : Action Object := do
  let s ← operand [x] 0 Object.asScope?
  holding x (withScope s action)

/-- Runs an action in a frame; a failure that leaves the frame gains a trace. -/
def underFrame (x : Object) (action : Action Object) : Action Object := do
  let frame ← operand [x] 0 Object.asFrame?
  holding x (withFrame frame action)

/-- Runs an action in a frame that is handed over to the stack; failures pass as they are. -/
def insideFrame (x : Object) (action : Action Object) : Action Object := do
  let frame ← operand [x] 0 Object.asFrame?
  enterFrame frame action

def underMachine (x : Object) (action : Action Object) : Action Object := do
  let m ← operand [x] 0 Object.asMachine?
  holding x (onMachine m action)

end Delegation
