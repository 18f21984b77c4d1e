import Delegation.Evaluation
import Delegation.Reading

/-!
# Programs

A program is a configuration and a list of expressions, its steps. The steps are evaluated one after
another on one machine, outside any call. A step that fails does not stop those after it, and what
it has done is not undone. Every step is answered by a record of its result or its failure, of what
it logged, and of the depth of the stack and the count of calls after it.

A program that makes no sense has no answer but the reason.
-/

namespace Delegation

/-- A configuration and the steps to evaluate. -/
structure Program where
  config : Config
  steps : List Expr

namespace Program

/-- A program, written as a record. -/
def ofDatum (datum : Datum) : Reading Program := do
  let some (.text "run") := datum.field? "op" | .error "unknown request"
  let some config := datum.field? "runtime" | .error "a program has no configuration"
  let some (.list steps) := datum.field? "steps" | .error "a program has no list of steps"
  return ⟨← Config.ofDatum config, ← steps.mapM Expr.ofDatum⟩

/-- A session in which nothing has happened, on a machine that is being set up. -/
def blank : Session where
  machine := default
  machines := #[default]

/-- Sets up the machine that the steps run on. -/
def start (config : Config) : Action Unit := do
  let registry ← Registry.ofConfig config
  modifyMachine fun _ => .fresh config registry

/-- What a step has reported beside its result or its failure. -/
def stepFields (session : Session) : List (String × Datum) :=
  (if session.log.isEmpty then [] else [("log", .list session.log)]) ++
    [("depth", .ofNat session.machine.stack.depth), ("calls", .ofNat session.machine.calls)]

/-- Evaluates a step and reports on it. -/
def step (e : Expr) : Action Datum := do
  modify fun session => { session with log := [] }
  match ← attempt (do reportObject (← eval (runBody nestingBound) e)) with
  | .ok result => return .record (("ok", result) :: stepFields (← get))
  | .error failure => return .record (failure.report ++ stepFields (← get))

def runSteps : List Expr → Action (List Datum)
  | [] => pure []
  | e :: rest => return (← step e) :: (← runSteps rest)

/-- The reports on the steps of a program, or the reason why it has none. -/
def run (program : Program) : Reading (List Datum) :=
  match (do start program.config; runSteps program.steps : Action (List Datum)) blank with
  | .ok reports _ => .ok reports
  | .error (.malformed reason) _ => .error reason
  | .error .exhausted _ => .error "bodies nest too deep"
  | .error (.failure failure) _ => .error failure.cause.message

/-- The answer to a request. -/
def answer (request : Datum) : Datum :=
  match Program.ofDatum request >>= run with
  | .ok reports => .record [("steps", .list reports)]
  | .error reason => .record [("error", .text "BadInput"), ("message", .text reason)]

end Program

end Delegation
