import Delegation.Binding

/-!
# Counters

A profiling machine counts the attempts to call a binding by the kind of the binding.
-/

namespace Delegation

/-- Calls by kind of binding; each count wraps around at 64 bits. -/
structure Counters where
  function : UInt64 := 0
  method : UInt64 := 0
  closure : UInt64 := 0
  deriving DecidableEq, Repr

namespace Counters

def count (counters : Counters) : BindingKind → Counters
  | .function => { counters with function := counters.function + 1 }
  | .method => { counters with method := counters.method + 1 }
  | .closure => { counters with closure := counters.closure + 1 }

/-- A summary in four lines. -/
def report (counters : Counters) : String :=
  "Invocation profile:\n  Function calls: " ++ toString counters.function.toNat ++
    "\n  Method calls:   " ++ toString counters.method.toNat ++
    "\n  Closure calls:  " ++ toString counters.closure.toNat

end Counters

end Delegation
