import Delegation.Value

/-!
# Cells

A cell is one slot of a table. It holds a value that may be replaced, holds a value for good, or
holds none and computes: reading it calls a getter, writing it calls a setter if there is one. Which
of these a cell is never changes.
-/

namespace Delegation

/-- A slot of a table. -/
inductive Cell where
  | mutable (value : Value)
  | constant (value : Value)
  | computed (getter : BindingId) (setter : Option BindingId)
  deriving DecidableEq

/-- How a cell may be used, visible without reading it. -/
inductive CellKind where
  | mutable
  | constant
  | readOnlyComputed
  | readWriteComputed
  deriving DecidableEq, Repr

namespace CellKind

def text : CellKind → String
  | .mutable => "Mutable"
  | .constant => "Constant"
  | .readOnlyComputed => "ReadOnlyComputed"
  | .readWriteComputed => "ReadWriteComputed"

end CellKind

namespace Cell

def kind : Cell → CellKind
  | .mutable _ => .mutable
  | .constant _ => .constant
  | .computed _ none => .readOnlyComputed
  | .computed _ (some _) => .readWriteComputed

end Cell

end Delegation
