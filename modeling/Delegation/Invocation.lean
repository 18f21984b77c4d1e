import Delegation.Extent
import Delegation.Ownership.Census

/-!
# Invocation

Running a body means setting up the environment in which its free names are looked for. The
arguments are put into a fresh scope of constants in front of the chain of the current frame, for
the time of the body. What goes on top of the stack, and in which chain, is decided by the binding
that is called:

* a function runs in a frame of its own, which sees the scope that encloses it and the globals;
* a method runs in a frame of the receiver of its entity, which sees the fields and members of the
  entity it is declared on and the globals, and in front of them `self` and `super`;
* a closure runs in the frame that was current when it was made.

Nothing of the caller's frames is visible to the callee.

Every definition that may run a body takes the way to run one as a parameter.
-/

namespace Delegation

variable (run : Runner)

/-- A scope with the parameters of a callable as constants. -/
def bindParameters (callable : Callable) (args : List Value) : Except Cause Scope :=
  (Scope.root .identifier).declareAll (callable.params.zip (args.map .constant))

/-- Runs the body of a callable with the parameters bound to the arguments, after checking that
there are as many. -/
def Callable.invoke (callable : Callable) (args : List Value) : Action Value := do
  if args.length ≠ callable.arity then
    fail (.arityMismatch callable.name callable.arity args.length)
  else
    match bindParameters callable args with
    | .error cause => fail cause
    | .ok scope => do
        let s ← newScope scope
        withScope s (run callable.body)

/-- Counts an attempt to call a binding, and fails if the budget is exceeded. -/
def countCall (kind : BindingKind) : Action Unit := do
  modifyMachine (·.countCall kind)
  match (← get).machine.overBudget? with
  | none => pure ()
  | some cause => fail cause

/-- The scope in which a method finds `self`, its receiver, and `super`, the super-entity of the
entity it is declared on. -/
def identityScope (heap : Heap) (owner receiver : EntityId) : Scope :=
  let super := match (heap.entity owner).super with
    | some base => .entity base
    | none => .void
  { Scope.root .identifier with
    cells := [("self", .constant (.entity receiver)), ("super", .constant super)] }

/-- The chain in which a method declared on an entity finds the fields and members of the entity and
the globals. -/
def methodChain (session : Session) (owner : EntityId) : Chain :=
  session.heap.privateView owner ++ [session.machine.globals]

def callMethod (callable : Callable) (owner : EntityId) (args : List Value) : Action Value :=
  holding (.value (.entity owner)) do
    let session ← get
    let receiver := session.receiver owner
    let frame : Frame := ⟨.entity receiver, callable.name, methodChain session owner⟩
    let identity ← newScope (identityScope session.heap owner receiver)
    withFrame frame (withScope identity (callable.invoke run args))

/-- Calls a binding. The call is counted first; a method needs its entity to be alive. -/
def BindingId.call (b : BindingId) (args : List Value) : Action Value :=
  holding (.value (.binding b)) do
    let binding := (← get).heap.binding b
    countCall binding.strategy.kind
    match binding.strategy with
    | .function enclosing => do
        let chain := enclosing.toList ++ [(← get).machine.globals]
        withFrame ⟨.binding b, binding.callable.name, chain⟩ (binding.callable.invoke run args)
    | .method owner => callMethod run binding.callable owner args
    | .declared owner => do
        if (← get).isLive owner then callMethod run binding.callable owner args
        else fail (.detachedReceiver binding.callable.name)
    | .closure captured => withFrame captured (binding.callable.invoke run args)

end Delegation
