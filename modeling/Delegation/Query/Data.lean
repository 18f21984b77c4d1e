import Delegation.Operand

/-!
# Queries on data

Values, lists, symbols and failures. Integers wrap around at 64 bits.
-/

namespace Delegation

def quoted (name : String) : String := "\"" ++ name ++ "\""

namespace Session

/-- A description of an object for those who look for faults. -/
def describe? (session : Session) : Object → Option String
  | .callable callable =>
      some ("Callable \x7b name: " ++ quoted callable.name ++ ", params: [" ++
        ", ".intercalate (callable.params.map quoted) ++ "], .. \x7d")
  | .value (.binding b) =>
      let binding := session.heap.binding b
      let kind := match binding.strategy.kind with
        | .function => "Function"
        | .method => "Method"
        | .closure => "Closure"
      some ("Binding \x7b kind: " ++ kind ++ ", name: " ++ quoted binding.callable.name ++
        ", .. \x7d")
  | .value (.entity e) =>
      let record := session.heap.entity e
      let super := match record.super with
        | some base => "Some(" ++ quoted (session.heap.entity base).name ++ ")"
        | none => "None"
      some ("Entity \x7b name: " ++ quoted record.name ++ ", id: ID, super: " ++ super ++
        ", .. \x7d")
  | .weak _ => some "WeakEntity"
  | _ => none

end Session

namespace DataQuery

def answer (query : DataQuery) (session : Session) (xs : List Object) : Except Stop Object :=
  match query with
  | .list => return .list xs
  | .nth => do
      let items ← operand xs 0 Object.asList?
      let i ← operand xs 1 Object.asNat?
      match items[i]? with
      | some x => return x
      | none => .error (.malformed "the list has no such element")
  | .add => return .value (.int ((← operand xs 0 Object.asInt?) + (← operand xs 1 Object.asInt?)))
  | .sub => return .value (.int ((← operand xs 0 Object.asInt?) - (← operand xs 1 Object.asInt?)))
  | .lt => return .ofBool ((← operand xs 0 Object.asInt?) < (← operand xs 1 Object.asInt?))
  | .concat => do
      let parts ← operandsFrom xs 0 Object.asValue?
      return .ofText (String.join (parts.map session.heap.display))
  | .eq => return .ofBool ((← operand xs 0 Object.asValue?) = (← operand xs 1 Object.asValue?))
  | .same => return .ofBool ((← operand xs 0 Object.asAny?).same (← operand xs 1 Object.asAny?))
  | .display => return .ofText (session.heap.display (← operand xs 0 Object.asValue?))
  | .typeOf => return .ofText (← operand xs 0 Object.asValue?).typeName
  | .isVoid => return .ofBool ((← operand xs 0 Object.asValue?) = .void)
  | .debug => return .ofText (← operand xs 0 session.describe?)

end DataQuery

namespace FailureQuery

/-- The cause with the given word, its parts taken from the operands behind the word. -/
def cause (xs : List Object) : Except Stop Cause := do
  match ← operand xs 0 Object.asText? with
  | "invalid_symbol" =>
      return .invalidSymbol (← operand xs 1 Object.asText?) (← operand xs 2 Object.asPolicy?)
  | "duplicate_symbol" => return .duplicateSymbol (← operand xs 1 Object.asText?)
  | "unknown_symbol" => return .unknownSymbol (← operand xs 1 Object.asText?)
  | "constant_assignment" => return .constantAssignment (← operand xs 1 Object.asText?)
  | "sealed_scope" => return .sealedScope (← operand xs 1 Object.asText?)
  | "arity_mismatch" =>
      return .arityMismatch (← operand xs 1 Object.asText?) (← operand xs 2 Object.asNat?)
        (← operand xs 3 Object.asNat?)
  | "not_callable" => return .notCallable (← operand xs 1 Object.asText?)
  | "recursion_limit_exceeded" => return .depthExceeded (← operand xs 1 Object.asNat?)
  | "budget_exceeded" =>
      return .budgetExceeded (← operand xs 1 Object.asNat?) (← operand xs 2 Object.asNat?)
  | "unsupported_hook" =>
      return .unsupportedHook (← operand xs 1 Object.asText?) (← operand xs 2 Object.asText?)
  | "unknown_member" =>
      return .unknownMember (← operand xs 1 Object.asText?) (← operand xs 2 Object.asText?)
  | "already_derived" => return .alreadyDerived (← operand xs 1 Object.asText?)
  | "detached_receiver" => return .detachedReceiver (← operand xs 1 Object.asText?)
  | "custom" => return .custom (← operand xs 1 Object.asText?)
  | _ => .error (.malformed "no cause has this name")

/-- An activation, given as a list of its name and its owner. -/
def activation? : Object → Option Activation
  | .list [.value (.str name), .value (.str owner)] => some ⟨name, owner⟩
  | _ => none

def answer (query : FailureQuery) (xs : List Object) : Except Stop Object :=
  match query with
  | .isIdentifier => return .ofBool (Delegation.isIdentifier (← operand xs 0 Object.asText?))
  | .isHook => return .ofBool (Delegation.isHook (← operand xs 0 Object.asText?))
  | .accepts =>
      return .ofBool ((← operand xs 0 Object.asPolicy?).accepts (← operand xs 1 Object.asText?))
  | .fail => do .error (.failure (.ofCause (.custom (← operand xs 0 Object.asText?))))
  | .raise => do .error (.failure (← operand xs 0 Object.asFailure?))
  | .error => return .failure (.ofCause (← cause xs))
  | .errNote =>
      return .failure ((← operand xs 0 Object.asFailure?).withNote (← operand xs 1 Object.asText?))
  | .errStrip => return .failure (← operand xs 0 Object.asFailure?).bare
  | .errTrace => do
      let failure ← operand xs 0 Object.asFailure?
      let items ← operand xs 1 Object.asList?
      return .failure (failure.withTrace (← operandsFrom items 0 activation?))
  | .traceText =>
      return .ofOption (fun trace => .ofText (Trace.text trace))
        (← operand xs 0 Object.asFailure?).trace
  | .traceLen =>
      return .ofOption (fun trace => .ofNat trace.length) (← operand xs 0 Object.asFailure?).trace
  | .traceIsEmpty =>
      return .ofOption (fun trace => .ofBool trace.isEmpty) (← operand xs 0 Object.asFailure?).trace

end FailureQuery

end Delegation
