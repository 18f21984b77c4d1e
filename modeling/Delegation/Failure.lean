import Delegation.Symbol

/-!
# Failures

An operation that cannot be carried out fails with a cause, which carries what went wrong as data;
the wording is derived from it in one place. On its way out of the activations it crosses, a failure
gains a trace, the names and owners of the activations that were live where it arose, and whatever
notes a program adds to it. Only a program decides whether to go on after a failure.
-/

namespace Delegation

/-- Why an operation failed. -/
inductive Cause where
  | invalidSymbol (symbol : String) (policy : Policy)
  | duplicateSymbol (symbol : String)
  | unknownSymbol (symbol : String)
  | constantAssignment (symbol : String)
  | sealedScope (symbol : String)
  | arityMismatch (name : String) (expected got : Nat)
  | notCallable (typeName : String)
  | depthExceeded (limit : Nat)
  | budgetExceeded (calls budget : Nat)
  | unsupportedHook (hook entity : String)
  | unknownMember (member entity : String)
  | alreadyDerived (entity : String)
  | detachedReceiver (method : String)
  | custom (message : String)
  deriving DecidableEq, Repr

/-- An activation as a trace shows it: its name, and its owner as text. -/
structure Activation where
  name : String
  owner : String
  deriving DecidableEq, Repr

/-- The activations live at some moment, most recent first. -/
abbrev Trace := List Activation

/-- A cause together with what it gathered on its way out. -/
structure Failure where
  cause : Cause
  trace : Option Trace := none
  notes : List String := []
  deriving DecidableEq, Repr

namespace Cause

/-- The sentence that reports the cause. -/
def message : Cause → String
  | .invalidSymbol symbol policy => "invalid " ++ policy.text ++ " symbol '" ++ symbol ++ "'"
  | .duplicateSymbol symbol => "symbol '" ++ symbol ++ "' is already declared in this scope"
  | .unknownSymbol symbol => "unknown symbol '" ++ symbol ++ "'"
  | .constantAssignment symbol => "cannot assign to constant '" ++ symbol ++ "'"
  | .sealedScope symbol => "cannot declare '" ++ symbol ++ "': scope is sealed"
  | .arityMismatch name expected got =>
      name ++ " expects " ++ toString expected ++
        (if expected = 1 then " argument" else " arguments") ++ ", got " ++ toString got
  | .notCallable typeName => typeName ++ " is not callable"
  | .depthExceeded limit => "maximum call depth exceeded (limit: " ++ toString limit ++ ")"
  | .budgetExceeded calls budget =>
      "call budget exceeded (" ++ toString calls ++ " calls, budget " ++ toString budget ++ ")"
  | .unsupportedHook hook entity => "'" ++ entity ++ "' does not support hook '" ++ hook ++ "'"
  | .unknownMember member entity => "no member '" ++ member ++ "' on '" ++ entity ++ "'"
  | .alreadyDerived entity => "'" ++ entity ++ "' already has a derived entity"
  | .detachedReceiver method => "receiver of '" ++ method ++ "' no longer exists"
  | .custom message => message

end Cause

namespace Trace

/-- The lines of a trace, one activation each, numbered from the most recent. -/
def lines (trace : Trace) : List String :=
  trace.zipIdx.map fun (activation, i) =>
    "  " ++ toString i ++ ": " ++ activation.name ++ " (owner " ++ activation.owner ++ ")\n"

/-- A heading and a line for every activation; nothing if there are none. -/
def text (trace : Trace) : String :=
  if trace.isEmpty then "" else "call backtrace:\n" ++ String.join (lines trace)

end Trace

namespace Failure

def ofCause (cause : Cause) : Failure := ⟨cause, none, []⟩

def withNote (failure : Failure) (note : String) : Failure :=
  { failure with notes := failure.notes ++ [note] }

def withTrace (failure : Failure) (trace : Trace) : Failure :=
  { failure with trace := some trace }

/-- The failure without trace and notes. -/
def bare (failure : Failure) : Failure := ofCause failure.cause

@[simp] theorem cause_withNote (failure : Failure) (note : String) :
    (failure.withNote note).cause = failure.cause := rfl

@[simp] theorem cause_withTrace (failure : Failure) (trace : Trace) :
    (failure.withTrace trace).cause = failure.cause := rfl

@[simp] theorem notes_withTrace (failure : Failure) (trace : Trace) :
    (failure.withTrace trace).notes = failure.notes := rfl

end Failure

end Delegation
