/-!
# Modes

A mode fixes what a machine allows a program: how deep its activations may nest and how many calls
it may make. A configuration names a mode, the registry to start from, whether calls are profiled,
and possibly a depth limit that takes the place of the mode's own.
-/

namespace Delegation

/-- The policy a machine enforces on calls. -/
inductive Mode where
  /-- Ordinary evaluation, without limits. -/
  | interpret
  /-- Evaluation of tests: deep, but not without bound. -/
  | test
  /-- Evaluation of code that is not trusted: shallow, with a budget of calls. -/
  | bounded (budget : Nat)
  deriving DecidableEq, Repr

namespace Mode

/-- How many activations may be live at once; nothing if there is no limit. -/
def depthLimit : Mode → Option Nat
  | .interpret => none
  | .test => some 500
  | .bounded _ => some 64

/-- How many calls a run may make; nothing if there is no limit. -/
def callBudget : Mode → Option Nat
  | .bounded budget => some budget
  | .interpret | .test => none

end Mode

/-- How to set up a machine. -/
structure Config where
  /-- Start from the registry with the core types and the root protocol, not from an empty one. -/
  bootstrap : Bool := false
  mode : Mode := .interpret
  /-- Overrides the depth limit of the mode; `some none` lifts it. -/
  depthLimit : Option (Option Nat) := none
  profile : Bool := false
  deriving DecidableEq, Repr

/-- The depth limit that a machine is built with. -/
def Config.stackLimit (config : Config) : Option Nat :=
  config.depthLimit.getD config.mode.depthLimit

end Delegation
