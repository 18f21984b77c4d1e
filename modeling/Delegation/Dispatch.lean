import Delegation.Access

/-!
# Dispatch

Entities are built in layers, each on the one below, and a layer can carry one other layer only.
Methods, hooks and properties are declared on a layer and found from every layer above it, the
nearest declaration first. They run for the receiver, the topmost layer alive, whichever layer was
asked for them; so a method reached through `self` is the one declared highest, and one reached
through `super` the one declared next below.

A method that is read from an entity comes back owning the layer it is declared on, so it can be
called later. Getters take no argument and setters one, which is checked when they are declared.
-/

namespace Delegation

/-! ## Building and declaring -/

/-- Builds an entity on another one, or on its own. An entity carries at most one other ever. -/
def buildEntity (super type : Option EntityId) (name : String) : Action EntityId := do
  let heap := (← get).heap
  match super.filter fun base => (heap.entity base).derived.isSome with
  | some base => fail (.alreadyDerived (heap.entity base).name)
  | none => onHeap (·.addEntity super type name)

/-- A method in a table of its entity. -/
def declaredMethod (owner : EntityId) (callable : Callable) : Action BindingId :=
  newBinding ⟨callable, .declared owner⟩

def declareHook (e : EntityId) (name : String) (callable : Callable) : Action Unit := do
  let b ← declaredMethod e callable
  declare ((← get).heap.entity e).hooks name (.constant (.binding b))

def declareMethod (e : EntityId) (name : String) (callable : Callable) : Action Unit := do
  let b ← declaredMethod e callable
  declare ((← get).heap.entity e).members name (.constant (.binding b))

/-- What a property is made of. -/
inductive Property where
  /-- A value that may be replaced. -/
  | stored (value : Value)
  /-- A value that is computed on each reading. -/
  | getter (get : Callable)
  /-- A value that is computed on each reading, and handed over on each writing. -/
  | accessors (get set : Callable)
  deriving DecidableEq

/-- Fails unless an accessor takes the expected number of arguments. -/
def checkAccessor (accessor : Callable) (expected : Nat) : Action Unit :=
  if accessor.arity = expected then pure ()
  else fail (.arityMismatch accessor.name expected accessor.arity)

def propertyCell (e : EntityId) : Property → Action Cell
  | .stored value => pure (.mutable value)
  | .getter get => do
      checkAccessor get 0
      return .computed (← declaredMethod e get) none
  | .accessors get set => do
      checkAccessor get 0
      checkAccessor set 1
      return .computed (← declaredMethod e get) (some (← declaredMethod e set))

def declareProperty (e : EntityId) (name : String) (property : Property) : Action Unit := do
  let cell ← propertyCell e property
  declare ((← get).heap.entity e).members name cell

def declareField (e : EntityId) (name : String) (cell : Cell) : Action Unit := do
  declare ((← get).heap.entity e).fields name cell

/-! ## Asking -/

/-- The binding, owning its entity if it is a method whose entity is alive. -/
def attach (b : BindingId) : Action BindingId := do
  let session ← get
  let binding := session.heap.binding b
  match binding.strategy with
  | .declared owner =>
      if session.isLive owner then newBinding ⟨binding.callable, .method owner⟩ else pure b
  | _ => pure b

variable (run : Runner)

def getMember (e : EntityId) (name : String) : Action Value := do
  let heap := (← get).heap
  if heap.hasMember e name then
    match ← (heap.entity e).members.get run name with
    | .binding b => return .binding (← attach b)
    | v => return v
  else fail (.unknownMember name (heap.entity e).name)

def setMember (e : EntityId) (name : String) (v : Value) : Action Unit := do
  let heap := (← get).heap
  if heap.hasMember e name then (heap.entity e).members.set run name v
  else fail (.unknownMember name (heap.entity e).name)

def invokeHook (e : EntityId) (name : String) (args : List Value) : Action Value := do
  let heap := (← get).heap
  if heap.supportsHook e name then
    match ← (heap.entity e).hooks.get run name with
    | .binding b => b.call run args
    | v => fail (.notCallable v.typeName)
  else fail (.unsupportedHook name (heap.entity e).name)

/-- Calls a value: a binding, or an entity that has a hook for it. -/
def callValue (callee : Value) (args : List Value) : Action Value :=
  match callee with
  | .binding b => b.call run args
  | .entity e => holding (.value callee) do
      let heap := (← get).heap
      if heap.supportsHook e callHook then invokeHook run e callHook args
      else fail (.notCallable (heap.typeName e))
  | v => fail (.notCallable v.typeName)

def invokeMember (e : EntityId) (name : String) (args : List Value) : Action Value := do
  callValue run (← getMember run e name) args

end Delegation
