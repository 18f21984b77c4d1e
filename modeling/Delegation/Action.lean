import Delegation.Session

/-!
# Actions

An action runs on a session. It gives a result, fails, or is given up; whatever way it ends, what it
did to the session up to then stays done. Programs deal with failures and with nothing else: a
program that makes no sense is given up, and so is one whose bodies nest too deep to be followed.
-/

namespace Delegation

/-- Why an action gave no result. -/
inductive Stop where
  /-- The program failed, and may deal with it. -/
  | failure (failure : Failure)
  /-- The program makes no sense. -/
  | malformed (reason : String)
  /-- Bodies nest deeper than evaluation follows them. -/
  | exhausted
  deriving DecidableEq, Repr

/-- What runs on a session. -/
abbrev Action := EStateM Stop Session

/-- How the body of a callable is run. -/
abbrev Runner := Body → Action Value

instance : MonadLift (Except Stop) Action where
  monadLift
    | .ok a => pure a
    | .error stop => throw stop

def fail {α : Type} (cause : Cause) : Action α := throw (.failure (.ofCause cause))

/-- Gives up a program that makes no sense. -/
def malformed {α : Type} (reason : String) : Action α := throw (.malformed reason)

/-- Keeps an object owned while an action runs. -/
@[inline] def holding {α : Type} (x : Object) (action : Action α) : Action α := fun session =>
  let before := session.held
  match action { session with held := x :: before } with
  | .ok a session => .ok a { session with held := before }
  | .error stop session => .error stop { session with held := before }

/-- Makes a failure a result. -/
@[inline] def attempt {α : Type} (action : Action α) : Action (Except Failure α) := fun session =>
  match action session with
  | .ok a session => .ok (.ok a) session
  | .error (.failure failure) session => .ok (.error failure) session
  | .error stop session => .error stop session

@[inline] def mapFailure {α : Type} (f : Failure → Failure) (action : Action α) : Action α :=
  fun session =>
    match action session with
    | .error (.failure failure) session => .error (.failure (f failure)) session
    | result => result

@[inline] def onHeap {α : Type} (f : Heap → α × Heap) : Action α := fun session =>
  let (a, heap) := f session.heap
  .ok a { session with heap }

@[inline] def modifyMachine (f : Machine → Machine) : Action Unit := fun session =>
  .ok () { session with machine := f session.machine }

def newScope (scope : Scope) : Action ScopeId := onHeap (·.addScope scope)

def newBinding (binding : Binding) : Action BindingId := onHeap (·.addBinding binding)

def newChain (chain : Chain) : Action ChainId := fun session =>
  .ok ⟨session.sharedChains.size⟩ { session with sharedChains := session.sharedChains.push chain }

def newStack (stack : CallStack) : Action StackId := fun session =>
  .ok ⟨session.sharedStacks.size⟩ { session with sharedStacks := session.sharedStacks.push stack }

def newBuilder (registry : Registry) : Action BuilderId := fun session =>
  .ok ⟨session.builders.size⟩ { session with builders := session.builders.push (some registry) }

def newMachine (machine : Machine) : Action MachineId := fun session =>
  .ok ⟨session.machines.size⟩ { session with machines := session.machines.push machine }

def newScript (body : List Expr) : Action Body := fun session =>
  .ok (.script session.code.size) { session with code := session.code.push body }

def declare (s : ScopeId) (name : String) (cell : Cell) : Action Unit := do
  match ((← get).heap.scope s).declare name cell with
  | .ok scope => onHeap fun heap => ((), heap.setScope s scope)
  | .error cause => fail cause

end Delegation
