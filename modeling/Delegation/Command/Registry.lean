import Delegation.Registry.Construction
import Delegation.Operand

/-!
# Commands on registries

A registry under construction is shared until it is finished; then it is used up and the finished
registry takes its place.
-/

namespace Delegation

/-- The registry under construction that an operand names; one that is finished makes no sense. -/
def builderAt (b : BuilderId) : Action Registry := do
  match (← get).builders.getD b.index none with
  | some registry => pure registry
  | none => malformed "the registry has been finished"

/-- Replaces a registry under construction, or marks it as finished. -/
def setBuilder (b : BuilderId) (registry : Option Registry) : Action Unit := fun session =>
  .ok () { session with builders := session.builders.setIfInBounds b.index registry }

namespace RegistryCommand

def act (command : RegistryCommand) (xs : List Object) : Action Object :=
  match command with
  | .builder => return .builder (← newBuilder (← Registry.start))
  | .register => do
      let b ← operand xs 0 Object.asBuilder?
      let name ← operand xs 1 Object.asText?
      let v ← operand xs 2 Object.asValue?
      (← builderAt b).register name v
      return .void
  | .registerType => do
      let b ← operand xs 0 Object.asBuilder?
      let type ← operand xs 1 Object.asEntity?
      setBuilder b (some (← (← builderAt b).registerType type))
      return .void
  | .rootMethod => do
      let b ← operand xs 0 Object.asBuilder?
      let name ← operand xs 1 Object.asText?
      let callable ← operand xs 2 Object.asCallable?
      match (← builderAt b).rootMethod name callable with
      | .ok registry => setBuilder b (some registry)
      | .error cause => fail cause
      return .void
  | .build => do
      let b ← operand xs 0 Object.asBuilder?
      let registry ← (← builderAt b).finish
      setBuilder b none
      return .registry registry
  | .bootstrap => return .registry (← Registry.bootstrap)
  | .empty => return .registry (← Registry.empty)
  | .instantiateRoot => do
      let registry ← operand xs 0 Object.asRegistry?
      return .value (.entity (← registry.instantiateRoot))
  | .instantiateChain => do
      let registry ← operand xs 0 Object.asRegistry?
      let types ← operandsFrom xs 1 Object.asEntity?
      let layers ← registry.instantiateChain types
      return .list (layers.map fun e => .value (.entity e))

end RegistryCommand

end Delegation
