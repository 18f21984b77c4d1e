import Delegation.Registry.Protocol

/-!
# Building and using registries

A registry is built up name by name and then sealed. All its cells are constants, and types are
registered under their own names. The core registry has six types and the root protocol.

Root objects are made from a registry, and chains of layers on top of them. Every chain of entities
needs a root of its own, because an entity carries only one other.
-/

namespace Delegation

namespace Registry

/-- A registry to which names can be added. -/
def start : Action Registry := do
  return ⟨← newScope (.root .identifier), [], []⟩

def register (registry : Registry) (name : String) (v : Value) : Action Unit :=
  declare registry.scope name (.constant v)

/-- Adds a type under its own name. -/
def registerType (registry : Registry) (type : EntityId) : Action Registry := do
  let name := ((← get).heap.entity type).name
  registry.register name (.entity type)
  return { registry with types := registry.types ++ [(name, type)] }

def rootMethod (registry : Registry) (name : String) (callable : Callable) :
    Except Cause Registry :=
  if isIdentifier name then
    .ok { registry with protocol := registry.protocol ++ [(name, callable)] }
  else .error (.invalidSymbol name .identifier)

def finish (registry : Registry) : Action Registry := do
  onHeap fun heap => ((), heap.modifyScope registry.scope Scope.close)
  return registry

def empty : Action Registry := do
  (← start).finish

/-- The names of the core types, the type of types first. -/
def coreTypes : List String := ["Type", "Object", "Trait", "Function", "Method", "Closure"]

/-- Adds a type for each name, all of them of one type. -/
def registerTypes (registry : Registry) (type : EntityId) : List String → Action Registry
  | [] => pure registry
  | name :: rest => do
      let made ← buildEntity none (some type) name
      (← registry.registerType made).registerTypes type rest

/-- Adds the core types and the root protocol, and seals the registry. -/
def finishCore (registry : Registry) : Action Registry := do
  let type ← buildEntity none none "Type"
  let registry ← registry.registerType type
  let registry ← registry.registerTypes type coreTypes.tail
  { registry with protocol := rootProtocol }.finish

/-- The registry with the core types and the root protocol. -/
def bootstrap : Action Registry := do
  (← start).finishCore

/-! ## Making objects from a registry -/

/-- Declares methods on an entity, one after another. -/
def declareMethods (e : EntityId) : List (String × Callable) → Action Unit
  | [] => pure ()
  | (name, callable) :: rest => do
      declareMethod e name callable
      declareMethods e rest

/-- A fresh root object with the methods of the registry. -/
def instantiateRoot (registry : Registry) : Action EntityId := do
  let root ← buildEntity none (registry.type? "Object") "Object"
  declareMethods root registry.protocol
  return root

/-- Builds an entity for each type, named after it, on the one before; the first stands on
`base`. -/
def buildLayers (base : EntityId) : List EntityId → Action (List EntityId)
  | [] => pure []
  | type :: rest => do
      let layer ← buildEntity (some base) (some type) ((← get).heap.entity type).name
      return layer :: (← buildLayers layer rest)

/-- Builds an entity for each type on a fresh root. -/
def instantiateChain (registry : Registry) (types : List EntityId) : Action (List EntityId) := do
  buildLayers (← registry.instantiateRoot) types

def ofConfig (config : Config) : Action Registry :=
  if config.bootstrap then bootstrap else empty

end Registry

end Delegation
