import Delegation.Proofs.Entry
import Delegation.Proofs.Heap.Growth

/-!
# Routes to a name

Code gets at a name through a scope, through a chain, or as a free name of the code that runs. All
three lead to a cell of some scope, and what happens then depends on the cell alone: a constant is
never assigned to, and what is stored in a mutable cell is found there by everyone whose route leads
to the same cell, for storing changes neither which names a scope declares nor where it stands.
-/

namespace Delegation

/-- The scope and the cell that a name leads to in a chain. -/
def Heap.resolveIn (heap : Heap) (chain : Chain) (name : String) : Option (ScopeId × Cell) :=
  (heap.findScope chain name).bind fun x => heap.resolve x name

/-- The ways in which code gets at a name. -/
inductive Route where
  | scope (x : ScopeId)
  | chain (scopes : Chain)
  /-- As a free name of the code that runs. -/
  | free

namespace Route

def get (run : Runner) (name : String) : Route → Action Value
  | .scope x => x.get run name
  | .chain scopes => Chain.get run scopes name
  | .free => lookup run name

def set (run : Runner) (name : String) (v : Value) : Route → Action Unit
  | .scope x => x.set run name v
  | .chain scopes => Chain.set run scopes name v
  | .free => assign run name v

/-- The scope and the cell that a name leads to. -/
def resolve (s : Session) (name : String) : Route → Option (ScopeId × Cell)
  | .scope x => s.heap.resolve x name
  | .chain scopes => s.heap.resolveIn scopes name
  | .free => s.heap.resolveIn s.machine.currentChain name

end Route

variable {s : Session} {x y : ScopeId} {chain : Chain} {name : String} {cell : Cell} {v w : Value}

theorem Heap.resolveIn_eq_some {heap : Heap} {found : ScopeId × Cell}
    (leads : heap.resolveIn chain name = some found) :
    ∃ y, heap.findScope chain name = some y ∧ heap.resolve y name = some found :=
  Option.bind_eq_some_iff.1 leads

theorem Heap.cell?_of_resolve {heap : Heap} (leads : heap.resolve y name = some (x, cell)) :
    (heap.scope x).cell? name = some cell := by
  obtain ⟨t, _, found⟩ := List.exists_of_findSome?_eq_some leads
  obtain ⟨_, there, same⟩ := Option.map_eq_some_iff.1 found
  cases same
  exact there

theorem Route.cell?_of_resolve (route : Route) (leads : route.resolve s name = some (x, cell)) :
    (s.heap.scope x).cell? name = some cell := by
  cases route with
  | scope y => exact Heap.cell?_of_resolve leads
  | chain scopes | free =>
    obtain ⟨y, _, there⟩ := Heap.resolveIn_eq_some leads
    exact Heap.cell?_of_resolve there

/-! ## Constants -/

theorem ScopeId.set_of_constant (leads : s.heap.resolve y name = some (x, .constant v))
    (run : Runner) (w : Value) :
    y.set run name w s = .error (.failure (.ofCause (.constantAssignment name))) s := by
  simp only [ScopeId.set, bind, EStateM.bind, Action.getThe_eq_ok, leads]
  rfl

/-- In a chain a name is read and assigned to in a scope that leads where the chain does. -/
theorem Chain.eq_of_resolveIn {found : ScopeId × Cell}
    (leads : s.heap.resolveIn chain name = some found) :
    ∃ y, s.heap.resolve y name = some found ∧
      (∀ run, Chain.get run chain name s = holding (.ofScopes chain) (y.get run name) s) ∧
      ∀ run v, Chain.set run chain name v s =
        holding (.ofScopes chain) (y.set run name v) s := by
  obtain ⟨y, here, there⟩ := Heap.resolveIn_eq_some leads
  refine ⟨y, there, fun run => ?_, fun run v => ?_⟩
  · simp only [Chain.get, holding, bind, EStateM.bind, Action.getThe_eq_ok, here]
  · simp only [Chain.set, holding, bind, EStateM.bind, Action.getThe_eq_ok, here]

theorem Chain.set_of_constant (leads : s.heap.resolveIn chain name = some (x, .constant v))
    (run : Runner) (w : Value) :
    Chain.set run chain name w s = .error (.failure (.ofCause (.constantAssignment name))) s := by
  obtain ⟨y, there, -, sets⟩ := Chain.eq_of_resolveIn leads
  have fails := ScopeId.set_of_constant (s := { s with held := .ofScopes chain :: s.held }) there
    run w
  simp only [sets, holding, fails]

theorem Chain.get_of_constant (leads : s.heap.resolveIn chain name = some (x, .constant v))
    (run : Runner) : Chain.get run chain name s = .ok v s := by
  obtain ⟨y, there, gets, -⟩ := Chain.eq_of_resolveIn leads
  have reads := ScopeId.get_of_constant (s := { s with held := .ofScopes chain :: s.held }) there run
  simp only [gets, holding, reads]

theorem lookup_eq (run : Runner) (name : String) (s : Session) :
    lookup run name s = Chain.get run s.machine.currentChain name s := rfl

theorem Route.get_of_constant {route : Route} (leads : route.resolve s name = some (x, .constant v))
    (run : Runner) : route.get run name s = .ok v s := by
  cases route with
  | scope y => exact ScopeId.get_of_constant leads run
  | chain scopes | free => exact Chain.get_of_constant leads run

theorem Route.set_of_constant {route : Route} (leads : route.resolve s name = some (x, .constant v))
    (run : Runner) (w : Value) :
    route.set run name w s = .error (.failure (.ofCause (.constantAssignment name))) s := by
  cases route with
  | scope y => exact ScopeId.set_of_constant leads run w
  | chain scopes | free => exact Chain.set_of_constant leads run w

/-! ## Mutable cells -/

theorem ScopeId.set_of_mutable (leads : s.heap.resolve y name = some (x, .mutable v)) (run : Runner)
    (w : Value) :
    y.set run name w s = .ok () { s with heap := s.heap.modifyScope x (·.store name w) } := by
  simp only [ScopeId.set, bind, EStateM.bind, Action.getThe_eq_ok, leads]
  rfl

theorem Chain.set_of_mutable (leads : s.heap.resolveIn chain name = some (x, .mutable v))
    (run : Runner) (w : Value) : Chain.set run chain name w s =
      .ok () { s with heap := s.heap.modifyScope x (·.store name w) } := by
  obtain ⟨y, there, -, sets⟩ := Chain.eq_of_resolveIn leads
  have stores := ScopeId.set_of_mutable (s := { s with held := .ofScopes chain :: s.held }) there
    run w
  simp only [sets, holding, stores]

theorem Route.set_of_mutable {route : Route} (leads : route.resolve s name = some (x, .mutable v))
    (run : Runner) (w : Value) : route.set run name w s =
      .ok () { s with heap := s.heap.modifyScope x (·.store name w) } := by
  cases route with
  | scope y => exact ScopeId.set_of_mutable leads run w
  | chain scopes | free => exact Chain.set_of_mutable leads run w

theorem ScopeId.get_of_mutable (leads : s.heap.resolve y name = some (x, .mutable v))
    (run : Runner) : y.get run name s = .ok v s := by
  simp only [ScopeId.get, bind, EStateM.bind, Action.getThe_eq_ok, leads]
  rfl

theorem Chain.get_of_mutable (leads : s.heap.resolveIn chain name = some (x, .mutable v))
    (run : Runner) : Chain.get run chain name s = .ok v s := by
  obtain ⟨y, there, gets, -⟩ := Chain.eq_of_resolveIn leads
  have reads := ScopeId.get_of_mutable (s := { s with held := .ofScopes chain :: s.held }) there run
  simp only [gets, holding, reads]

theorem Route.get_of_mutable {route : Route} (leads : route.resolve s name = some (x, .mutable v))
    (run : Runner) : route.get run name s = .ok v s := by
  cases route with
  | scope y => exact ScopeId.get_of_mutable leads run
  | chain scopes | free => exact Chain.get_of_mutable leads run

/-! ## Storing -/

section Store

variable {heap : Heap} (has : heap.Has (.scope x)) (name : String) (w : Value)
include has

theorem Heap.cell?_store (y : ScopeId) :
    ((heap.modifyScope x (·.store name w)).scope y).cell? name =
      ((heap.scope y).cell? name).map fun cell => if y = x then .mutable w else cell := by
  rw [Heap.scope_modifyScope has]
  split
  · next same => rw [Scope.cell?_store, if_pos rfl, same]
  · rw [Option.map_id']

theorem Heap.path_store (y : ScopeId) :
    (heap.modifyScope x (·.store name w)).path y = heap.path y := by
  rw [path, path, Heap.scope_modifyScope has]
  split
  · next same => rw [same, Scope.store]
  · rfl

/-- After a value has been stored a name leads to the same scope as before, and there to the value
if that is where it was stored. -/
theorem Heap.resolve_store (y : ScopeId) :
    (heap.modifyScope x (·.store name w)).resolve y name =
      (heap.resolve y name).map fun found =>
        (found.1, if found.1 = x then .mutable w else found.2) := by
  simp only [resolve, Heap.path_store has, Heap.cell?_store has, List.map_findSome?]
  congr 1
  funext t
  rw [Function.comp_apply, Option.map_map, Option.map_map]
  rfl

theorem Heap.findScope_store (chain : Chain) :
    (heap.modifyScope x (·.store name w)).findScope chain name = heap.findScope chain name := by
  simp only [findScope, Heap.contains_eq_isSome_resolve, Heap.resolve_store has,
    Option.isSome_map]

theorem Heap.resolveIn_store (chain : Chain) :
    (heap.modifyScope x (·.store name w)).resolveIn chain name =
      (heap.resolveIn chain name).map fun found =>
        (found.1, if found.1 = x then .mutable w else found.2) := by
  simp only [resolveIn, Heap.findScope_store has, Heap.resolve_store has, Option.map_bind]
  rfl

end Store

/-- What has been stored in a cell is found by everyone whose route leads to the cell. -/
theorem Route.get_of_store {route : Route} (has : s.heap.Has (.scope x))
    (leads : route.resolve s name = some (x, cell)) (w : Value) (run : Runner) :
    let t := { s with heap := s.heap.modifyScope x (·.store name w) }
    route.get run name t = .ok w t := by
  apply route.get_of_mutable (x := x)
  have after (found : Option (ScopeId × Cell)) (is : found = some (x, cell)) :
      (found.map fun found => (found.1, if found.1 = x then Cell.mutable w else found.2)) =
        some (x, .mutable w) := by simp [is]
  cases route with
  | scope y => exact (Heap.resolve_store has name w y).trans (after _ leads)
  | chain scopes => exact (Heap.resolveIn_store has name w scopes).trans (after _ leads)
  | free => exact (Heap.resolveIn_store has name w s.machine.currentChain).trans (after _ leads)

end Delegation
