import Delegation.Action

/-!
# Operands

An operation takes its operands as a list of objects and says of each what it has to be. A missing
operand counts as void, and void stands for the absence of an optional one. Operands of the wrong
sort make the program malformed; that is no failure, and no program deals with it.
-/

namespace Delegation

namespace Object

/-! ## Reading an object as what an operation expects -/

def asValue? : Object → Option Value
  | .value v => some v
  | _ => none

def asText? : Object → Option String
  | .value (.str s) => some s
  | _ => none

def asInt? : Object → Option Int64
  | .value (.int n) => some n
  | _ => none

def asNat? : Object → Option Nat
  | .value (.int n) => if 0 ≤ n then some n.toInt.toNat else none
  | _ => none

def asEntity? : Object → Option EntityId
  | .value (.entity e) => some e
  | _ => none

def asBinding? : Object → Option BindingId
  | .value (.binding b) => some b
  | _ => none

def asScope? : Object → Option ScopeId
  | .scope s => some s
  | _ => none

def asCell? : Object → Option Cell
  | .cell c => some c
  | _ => none

def asChain? : Object → Option ChainId
  | .chain c => some c
  | _ => none

def asCallable? : Object → Option Callable
  | .callable c => some c
  | _ => none

def asFrame? : Object → Option Frame
  | .frame f => some f
  | _ => none

def asStack? : Object → Option StackId
  | .stack s => some s
  | _ => none

def asWeak? : Object → Option EntityId
  | .weak e => some e
  | _ => none

def asFailure? : Object → Option Failure
  | .failure f => some f
  | _ => none

def asBuilder? : Object → Option BuilderId
  | .builder b => some b
  | _ => none

def asRegistry? : Object → Option Registry
  | .registry r => some r
  | _ => none

def asMachine? : Object → Option MachineId
  | .machine m => some m
  | _ => none

def asList? : Object → Option (List Object)
  | .list items => some items
  | _ => none

def asAny? (x : Object) : Option Object := some x

def asPolicy? : Object → Option Policy
  | .value (.str s) => Policy.ofText? s
  | _ => none

/-- Void, or what `read` accepts. -/
def orVoid? {α : Type} (read : Object → Option α) : Object → Option (Option α)
  | .value .void => some none
  | x => (read x).map some

end Object

/-- The operand at a place, read as what is expected there. -/
def operand {α : Type} (operands : List Object) (i : Nat) (read : Object → Option α) :
    Except Stop α :=
  match read (operands.getD i .void) with
  | some a => .ok a
  | none => .error (.malformed ("operand " ++ toString (i + 1) ++ " is of the wrong sort"))

/-- The operands from a place on, all read as what is expected. -/
def operandsFrom {α : Type} (operands : List Object) (i : Nat) (read : Object → Option α) :
    Except Stop (List α) :=
  match (operands.drop i).mapM read with
  | some as => .ok as
  | none => .error (.malformed ("operands from " ++ toString (i + 1) ++ " are of the wrong sort"))

end Delegation
