import Delegation.Failure
import Delegation.Cell

/-!
# Scopes

A scope is a table of cells in the order of their declaration. It may stand on another scope, its
parent: names that it does not declare itself are looked for there. A scope keeps its whole line of
ancestors, nearest first, which is fixed when it is made; so looking a name up is a search through a
list, and ends.

Declaring never looks at ancestors. It fails on a name outside the grammar of the scope, else on a
sealed scope, else on a name the scope declares already.
-/

namespace Delegation

/-- A table of cells. -/
structure Scope where
  policy : Policy
  /-- The ancestors, nearest first. -/
  lineage : List ScopeId
  /-- The cells under their names, in the order of declaration. -/
  cells : List (String × Cell)
  isSealed : Bool
  deriving DecidableEq

namespace Scope

def root (policy : Policy) : Scope := ⟨policy, [], [], false⟩

instance : Inhabited Scope := ⟨root .identifier⟩

/-- The scope that names are looked for in next. -/
def parent (scope : Scope) : Option ScopeId := scope.lineage.head?

/-- The names declared in the scope itself, in the order of declaration. -/
def symbols (scope : Scope) : List String := scope.cells.map Prod.fst

/-- The cell declared under a name in the scope itself. -/
def cell? (scope : Scope) (name : String) : Option Cell := scope.cells.lookup name

def declares (scope : Scope) (name : String) : Bool := (scope.cell? name).isSome

/-- The scope with a further cell, or the first reason why it cannot be declared. -/
def declare (scope : Scope) (name : String) (cell : Cell) : Except Cause Scope :=
  if !scope.policy.accepts name then .error (.invalidSymbol name scope.policy)
  else if scope.isSealed then .error (.sealedScope name)
  else if scope.declares name then .error (.duplicateSymbol name)
  else .ok { scope with cells := scope.cells ++ [(name, cell)] }

def declareAll (scope : Scope) : List (String × Cell) → Except Cause Scope
  | [] => .ok scope
  | (name, cell) :: rest => do (← scope.declare name cell).declareAll rest

/-- Replaces the value of the mutable cell under a name. -/
def store (scope : Scope) (name : String) (value : Value) : Scope :=
  { scope with cells := scope.cells.map fun (n, c) => (n, if n = name then .mutable value else c) }

/-- Rejects all further declarations. -/
def close (scope : Scope) : Scope := { scope with isSealed := true }

theorem declares_iff {scope : Scope} {name : String} :
    scope.declares name = true ↔ name ∈ scope.symbols := by
  obtain ⟨policy, lineage, cells, isSealed⟩ := scope
  simp only [declares, cell?, symbols]
  induction cells with
  | nil => simp
  | cons entry rest ih =>
    obtain ⟨other, cell⟩ := entry
    by_cases same : name = other
    · simp [same]
    · have differs : (name == other) = false := by simpa using same
      simp [List.lookup_cons, differs, ih, same]

/-- Declaring succeeds exactly for an admitted, new name on an open scope, and adds the cell behind
the others. -/
theorem declare_eq_ok_iff {scope after : Scope} {name : String} {cell : Cell} :
    scope.declare name cell = .ok after ↔
      scope.policy.accepts name = true ∧ scope.isSealed = false ∧ scope.declares name = false ∧
        after = { scope with cells := scope.cells ++ [(name, cell)] } := by
  unfold declare
  cases scope.policy.accepts name <;> cases scope.isSealed <;> cases scope.declares name <;>
    simp [eq_comm]

theorem symbols_of_declare {scope after : Scope} {name : String} {cell : Cell}
    (declared : scope.declare name cell = .ok after) :
    after.symbols = scope.symbols ++ [name] := by
  obtain ⟨_, _, _, rfl⟩ := declare_eq_ok_iff.1 declared
  simp [symbols]

@[simp] theorem symbols_store (scope : Scope) (name : String) (value : Value) :
    (scope.store name value).symbols = scope.symbols := by
  simp [store, symbols]

@[simp] theorem symbols_close (scope : Scope) : scope.close.symbols = scope.symbols := rfl

@[simp] theorem parent_store (scope : Scope) (name : String) (value : Value) :
    (scope.store name value).parent = scope.parent := rfl

@[simp] theorem parent_close (scope : Scope) : scope.close.parent = scope.parent := rfl

end Scope

end Delegation
