import Delegation.Query
import Delegation.Command
import Delegation.Report
import Delegation.Form

/-!
# Evaluation

Expressions are evaluated from left to right, and the first failure is the failure of the whole.
Evaluation follows the structure of the expression; only running a body leads to other code, so how
to run a body is a parameter here, and the bodies of a program are followed as deep as a bound on
their nesting allows.

While an operation is carried out its operands stay owned. In a body the result of one expression
stays owned until the next has been evaluated.
-/

namespace Delegation

/-- Carries out an operation on its operands, which stay owned meanwhile. -/
def Operation.act (run : Runner) (operation : Operation) (xs : List Object) : Action Object :=
  holding (.list xs) do
    match operation with
    | .query q => q.answer (← get) xs
    | .command c => c.act run xs

mutual

def eval (run : Runner) : Expr → Action Object
  | .void => pure .void
  | .bool b => pure (.value (.bool b))
  | .int n => pure (.value (.int n))
  | .str s => pure (.value (.str s))
  | .var name => readVariable name
  | .bind name value => do
      let x ← eval run value
      setVariable name x
      return x
  | .drop name => do
      dropVariable name
      return .void
  | .block body => evalBody run body .void
  | .cond test yes no => do
      match ← eval run test with
      | .value (.bool true) => eval run yes
      | .value (.bool false) => eval run no
      | _ => malformed "a condition is no truth value"
  | .iterate count body => iterate count (evalBody run body .void)
  | .log value => do
      let x ← eval run value
      logObject x
      return x
  | .rescue body => rescue (evalBody run body .void)
  | .annotate note body => mapFailure (·.withNote note) (evalBody run body .void)
  | .callable name params body => makeCallable name params body
  | .nullary name body => makeNullary name body
  | .withScope scope body => do underScope (← eval run scope) (evalBody run body .void)
  | .withFrame frame body => do underFrame (← eval run frame) (evalBody run body .void)
  | .enterFrame frame body => do insideFrame (← eval run frame) (evalBody run body .void)
  | .withMachine machine body => do underMachine (← eval run machine) (evalBody run body .void)
  | .machine config => do startMachine config (← Registry.ofConfig config)
  | .machineOn config registry => do
      startMachine config (← operand [← eval run registry] 0 Object.asRegistry?)
  | .install config => do installMachine config (← Registry.ofConfig config)
  | .installOn config registry => do
      installMachine config (← operand [← eval run registry] 0 Object.asRegistry?)
  | .apply operation operands => do operation.act run (← evalOperands run operands)

/-- Evaluates a body, whose result so far is `last`. -/
def evalBody (run : Runner) : List Expr → Object → Action Object
  | [], last => pure last
  | e :: rest, last => do
      let x ← holding last (eval run e)
      evalBody run rest x

/-- Evaluates operands from left to right. -/
def evalOperands (run : Runner) : List Expr → Action (List Object)
  | [] => pure []
  | e :: rest => do
      let x ← eval run e
      return x :: (← holding x (evalOperands run rest))

end

/-! ## Bodies -/

/-- Runs a body, following further bodies to a depth of `nesting`. The result of a script is void if
it is no value. -/
def runBody : Nat → Body → Action Value
  | 0, _ => throw .exhausted
  | nesting + 1, .script address => do
      let body := (← get).code.getD address []
      return (← evalBody (runBody nesting) body .void).toValue
  | nesting + 1, .root method => method.answer (runBody nesting)

/-- How deep the bodies of a program may nest. -/
def nestingBound : Nat := 1000000

end Delegation
