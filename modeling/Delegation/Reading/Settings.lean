import Delegation.Datum
import Delegation.Mode

/-!
# Reading settings

Configurations are written as records. Every setting may be left out, and other fields are ignored.
-/

namespace Delegation

namespace Datum

def field? (name : String) : Datum → Option Datum
  | .record fields => fields.lookup name
  | _ => none

def asNat? : Datum → Option Nat
  | .int n => if 0 ≤ n then some n.toNat else none
  | _ => none

def asTexts? : Datum → Option (List String)
  | .list items => items.mapM fun
      | .text s => some s
      | _ => none
  | _ => none

end Datum

/-- What reading gives: a result, or why the datum makes no sense. -/
abbrev Reading := Except String

namespace Config

def readBootstrap : Option Datum → Reading Bool
  | none => .ok false
  | some (.text "empty") => .ok false
  | some (.text "bootstrap") => .ok true
  | some _ => .error "unknown builtins"

/-- The mode; an integer is a budget. -/
def readMode : Option Datum → Reading Mode
  | none => .ok .interpret
  | some (.text "interpret") => .ok .interpret
  | some (.text "test") => .ok .test
  | some datum =>
      match datum.asNat? with
      | some budget => .ok (.bounded budget)
      | none => .error "unknown mode"

/-- The depth limit that overrides the one of the mode; null lifts it. -/
def readDepthLimit : Option Datum → Reading (Option (Option Nat))
  | none => .ok none
  | some .null => .ok (some none)
  | some datum =>
      match datum.asNat? with
      | some limit => .ok (some (some limit))
      | none => .error "a depth limit is no number"

def readProfile : Option Datum → Reading Bool
  | none => .ok false
  | some (.bool b) => .ok b
  | some _ => .error "profile is no truth value"

/-- A configuration, written as a record. -/
def ofDatum (datum : Datum) : Reading Config := do
  let .record _ := datum | .error "a configuration is no record"
  return {
    bootstrap := ← readBootstrap (datum.field? "builtins")
    mode := ← readMode (datum.field? "mode")
    depthLimit := ← readDepthLimit (datum.field? "max_depth")
    profile := ← readProfile (datum.field? "profile") }

end Config

end Delegation
