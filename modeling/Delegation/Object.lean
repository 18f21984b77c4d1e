import Delegation.Cell
import Delegation.Machine

/-!
# Objects

An expression evaluates to an object: a value, or one of the things that programs handle beside
values. Chains, stacks, machines and registries under construction are shared: an object names them,
and what one holder changes every holder sees. Cells, frames, callables, failures and finished
registries are plain data and are copied.
-/

namespace Delegation

/-- Names a chain that programs share. -/
structure ChainId where
  index : Nat
  deriving DecidableEq, Repr

/-- Names a stack that programs handle by hand. -/
structure StackId where
  index : Nat
  deriving DecidableEq, Repr

/-- Names a registry under construction. -/
structure BuilderId where
  index : Nat
  deriving DecidableEq, Repr

structure MachineId where
  index : Nat
  deriving DecidableEq, Repr

/-- What an expression evaluates to. -/
inductive Object where
  | value (v : Value)
  | scope (s : ScopeId)
  | cell (cell : Cell)
  | chain (c : ChainId)
  | callable (callable : Callable)
  | frame (frame : Frame)
  | stack (s : StackId)
  /-- A reference to an entity that does not own it. -/
  | weak (e : EntityId)
  | failure (failure : Failure)
  | builder (b : BuilderId)
  | registry (registry : Registry)
  | machine (m : MachineId)
  | list (items : List Object)

namespace Object

def void : Object := .value .void

instance : Inhabited Object := ⟨void⟩

/-- The value of an object; void if it is none. -/
def toValue : Object → Value
  | .value v => v
  | _ => .void

/-- The scopes of a chain, as a list of objects. -/
def ofScopes (chain : Chain) : Object := .list (chain.map .scope)

/-! ## Objects for plain things -/

def ofTexts (texts : List String) : Object := .list (texts.map fun s => .value (.str s))

def ofNat (n : Nat) : Object := .value (.int (Int64.ofNat n))

def ofBool (b : Bool) : Object := .value (.bool b)

def ofText (s : String) : Object := .value (.str s)

/-- The object for what may be absent; void if it is. -/
def ofOption {α : Type} (f : α → Object) : Option α → Object
  | some a => f a
  | none => .void

def ofEntity (e : EntityId) : Object := .value (.entity e)

/-! ## Sameness -/

/-- Whether two objects are the same: equal values, one and the same scope, or failures with equal
causes. -/
def same : Object → Object → Bool
  | .value v, .value w => v = w
  | .scope s, .scope t => s = t
  | .failure f, .failure g => f.cause = g.cause
  | _, _ => false

end Object

end Delegation
