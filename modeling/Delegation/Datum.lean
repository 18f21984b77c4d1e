/-!
# Data for transport

Programs come in and answers go out as trees of plain data: nothing, truth values, numbers, texts,
lists, and records with named fields. The outermost layer maps them to whatever notation is in use;
nothing in the library depends on it.
-/

namespace Delegation

/-- A tree of plain data. -/
inductive Datum where
  | null
  | bool (b : Bool)
  | int (n : Int)
  | text (s : String)
  | list (items : List Datum)
  | record (fields : List (String × Datum))

namespace Datum

instance : Inhabited Datum := ⟨.null⟩

def ofNat (n : Nat) : Datum := .int n

def ofTexts (texts : List String) : Datum := .list (texts.map .text)

/-- What may be absent; null if it is. -/
def ofOption {α : Type} (f : α → Datum) : Option α → Datum
  | some a => f a
  | none => .null

end Datum

end Delegation
