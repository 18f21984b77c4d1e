import Delegation.Command
import Delegation.Query
import Delegation.Proofs.Run

/-!
# What operands refer to

Operands are objects that evaluation holds, so what they refer to is in the heap. Reading an operand
as what is expected of it gives nothing that refers to anything else.
-/

namespace Delegation

open Object

variable {α : Type} {heap : Heap}

theorem mem_refsAll {y : Node} {xs : List Object} : y ∈ refsAll xs ↔ ∃ x ∈ xs, y ∈ x.refs := by
  induction xs with
  | nil => simp [refsAll]
  | cons x xs ih => simp [refsAll, ih]

theorem hasAll_refsAll {xs : List Object} :
    heap.HasAll (refsAll xs) ↔ ∀ x ∈ xs, heap.HasAll x.refs := by
  induction xs with
  | nil => simp [refsAll]
  | cons x xs ih => simp [refsAll, ih]

theorem hasAll_chain {chain : Chain} :
    heap.HasAll (Chain.owned chain) ↔ ∀ s ∈ chain, heap.Has (.scope s) := by
  simp [Chain.owned, Heap.HasAll]

theorem refs_ofScopes (chain : Chain) : (Object.ofScopes chain).refs = Chain.owned chain := by
  unfold Object.ofScopes Chain.owned Object.refs
  induction chain with
  | nil => rfl
  | cons x chain ih => exact congrArg (Node.scope x :: ·) ih

theorem Registry.type_mem_owned {registry : Registry} {name : String} {type : EntityId}
    (is : registry.type? name = some type) : .entity type ∈ registry.owned := by
  obtain ⟨before, after, types, _⟩ := List.lookup_eq_some_iff.1 is
  refine List.mem_cons_of_mem _ (List.mem_map.2 ⟨(name, type), ?_, rfl⟩)
  simp [types]

theorem Registry.has_type {heap : Heap} {registry : Registry} (known : heap.HasAll registry.owned)
    {name : String} {type : EntityId} (is : registry.type? name = some type) :
    heap.Has (.entity type) :=
  known _ (Registry.type_mem_owned is)

theorem CallStack.owned_subset_of_mem {stack : CallStack} {frame : Frame}
    (place : frame ∈ stack.frames) : frame.owned ⊆ stack.owned :=
  fun _ owned => List.mem_flatMap.2 ⟨frame, place, owned⟩

theorem hasAll_frames {stack : CallStack} (known : heap.HasAll stack.owned)
    {frame : Frame} (place : frame ∈ stack.frames) : heap.HasAll frame.owned :=
  known.subset (CallStack.owned_subset_of_mem place)

theorem hasAll_ofOption {f : α → Object} {found : Option α}
    (known : ∀ a, found = some a → heap.HasAll (f a).refs) :
    heap.HasAll (ofOption f found).refs := by
  cases found with
  | none => exact Heap.hasAll_nil _
  | some a => exact known a rfl

theorem hasAll_getD {α : Type} {heap : Heap} (refs : α → List Node) {items : Array α} {default : α}
    (known : ∀ x ∈ items, heap.HasAll (refs x)) (otherwise : heap.HasAll (refs default)) (i : Nat) :
    heap.HasAll (refs (items.getD i default)) := by
  rw [Array.getD_eq_getD_getElem?]
  cases found : items[i]? with
  | none => exact otherwise
  | some x => exact known x (Array.mem_of_getElem? found)

namespace Session.Grounded

variable {s : Session}

theorem stackOr (grounded : s.Grounded) (target : Option StackId) :
    s.heap.HasAll (s.stackOr target).owned := by
  cases target with
  | none => exact (Heap.hasAll_append.1 grounded.machine).1
  | some shared => exact hasAll_getD CallStack.owned grounded.sharedStacks (Heap.hasAll_nil _) _

theorem chain (grounded : s.Grounded) (c : ChainId) : s.heap.HasAll (Chain.owned (s.chain c)) :=
  hasAll_getD Chain.owned grounded.chains (Heap.hasAll_nil _) _

/-- A machine that the table lacks is one whose globals are the first scope of all. -/
theorem machineOr (grounded : s.Grounded) (m : MachineId) :
    s.heap.HasAll (s.machines.getD m.index default).owned := by
  have absent : s.heap.HasAll (default : Machine).owned :=
    Heap.hasAll_cons.2 ⟨grounded.inhabited, Heap.hasAll_nil _⟩
  exact hasAll_getD Machine.owned grounded.machines absent _

theorem builder (grounded : s.Grounded) {b : BuilderId} {registry : Registry}
    (is : s.builders.getD b.index none = some registry) : s.heap.HasAll registry.owned := by
  rw [Array.getD_eq_getD_getElem?] at is
  cases found : s.builders[b.index]? with
  | none => simp [found] at is
  | some entry =>
    rw [found] at is
    cases is
    exact grounded.builders registry (Array.mem_of_getElem? found)

end Session.Grounded

/-- What a reading gives refers to nothing that the object does not refer to. -/
def Object.Reads (read : Object → Option α) (refs : α → List Node) : Prop :=
  ∀ x a, read x = some a → refs a ⊆ x.refs

theorem reads_asValue : Reads asValue? Value.owned := by
  intro x v is
  cases x <;> cases is
  exact List.Subset.refl _

theorem reads_asEntity : Reads asEntity? fun e => [.entity e] := by
  intro x e is
  unfold asEntity? at is
  split at is <;> cases is
  exact List.Subset.refl _

theorem reads_asBinding : Reads asBinding? fun b => [.binding b] := by
  intro x b is
  unfold asBinding? at is
  split at is <;> cases is
  exact List.Subset.refl _

theorem reads_asScope : Reads asScope? fun s => [.scope s] := by
  intro x s is
  cases x <;> cases is
  exact List.Subset.refl _

theorem reads_asCell : Reads asCell? Cell.owned := by
  intro x cell is
  cases x <;> cases is
  exact List.Subset.refl _

theorem reads_asFrame : Reads asFrame? Frame.owned := by
  intro x frame is
  cases x <;> cases is
  exact List.Subset.refl _

theorem reads_asWeak : Reads asWeak? fun e => [.entity e] := by
  intro x e is
  cases x <;> cases is
  exact List.Subset.refl _

theorem reads_asRegistry : Reads asRegistry? Registry.owned := by
  intro x registry is
  cases x <;> cases is
  exact List.Subset.refl _

theorem reads_asList : Reads asList? refsAll := by
  intro x items is
  cases x <;> cases is
  exact List.Subset.refl _

theorem reads_asTable : Reads asTable? (Sum.elim (fun s => [.scope s]) fun _ => []) := by
  intro x table is
  cases x <;> cases is
  · exact List.Subset.refl _
  · exact List.nil_subset _

theorem reads_orVoid {read : Object → Option α} {refs : α → List Node} (reads : Reads read refs) :
    Reads (orVoid? read) fun found => found.elim [] refs := by
  intro x found is
  unfold orVoid? at is
  split at is
  · cases is
    exact List.nil_subset _
  · obtain ⟨a, read, rfl⟩ := Option.map_eq_some_iff.1 is
    exact reads x a read

theorem operand_eq_ok {xs : List Object} {i : Nat} {read : Object → Option α} {a : α}
    (is : operand xs i read = .ok a) : read (xs.getD i .void) = some a := by
  unfold operand at is
  split at is
  · cases is
    assumption
  · cases is

/-- The operand at a place refers to nothing that the operands do not refer to. -/
theorem operand_subset {xs : List Object} {i : Nat} {read : Object → Option α}
    {refs : α → List Node} {a : α} (reads : Reads read refs) (is : operand xs i read = .ok a) :
    refs a ⊆ refsAll xs := by
  intro y place
  have listed := reads _ a (operand_eq_ok is) place
  rw [List.getD_eq_getElem?_getD] at listed
  cases there : xs[i]? with
  | none => simp [there, Object.void, Object.refs, Value.owned] at listed
  | some x =>
    rw [there] at listed
    exact mem_refsAll.2 ⟨x, List.mem_of_getElem? there, listed⟩

theorem operand_known {xs : List Object} {i : Nat} {read : Object → Option α} {refs : α → List Node}
    {a : α} (reads : Reads read refs) (known : heap.HasAll (refsAll xs))
    (is : operand xs i read = .ok a) : heap.HasAll (refs a) :=
  fun y place => known y (operand_subset reads is place)

theorem operand_has {xs : List Object} {i : Nat} {read : Object → Option α} {node : α → Node}
    {a : α} (reads : Reads read fun a => [node a]) (known : heap.HasAll (refsAll xs))
    (is : operand xs i read = .ok a) : heap.Has (node a) :=
  operand_known reads known is _ (List.mem_singleton.2 rfl)

theorem mapM_subset {xs : List Object} {read : Object → Option α} {refs : α → List Node}
    {as : List α} (reads : Reads read refs) (is : xs.mapM read = some as) :
    ∀ a ∈ as, refs a ⊆ refsAll xs := by
  induction xs generalizing as with
  | nil =>
    cases is
    exact nofun
  | cons x xs ih =>
    simp only [List.mapM_cons, Option.pure_def, Option.bind_eq_bind, Option.bind_eq_some_iff] at is
    obtain ⟨a, first, rest, others, is⟩ := is
    cases is
    refine List.forall_mem_cons.2
      ⟨List.subset_append_of_subset_left _ (reads x a first), fun b place => ?_⟩
    exact List.subset_append_of_subset_right _ (ih others b place)

theorem operandsFrom_subset {xs : List Object} {i : Nat} {read : Object → Option α}
    {refs : α → List Node} {as : List α} (reads : Reads read refs)
    (is : operandsFrom xs i read = .ok as) : ∀ a ∈ as, refs a ⊆ refsAll xs := by
  unfold operandsFrom at is
  split at is
  · next found =>
    cases is
    intro a place y listed
    obtain ⟨x, dropped, refers⟩ := mem_refsAll.1 (mapM_subset reads found a place listed)
    exact mem_refsAll.2 ⟨x, List.mem_of_mem_drop dropped, refers⟩
  · cases is

theorem operandsFrom_known {xs : List Object} {i : Nat} {read : Object → Option α}
    {refs : α → List Node} {as : List α} (reads : Reads read refs)
    (known : heap.HasAll (refsAll xs)) (is : operandsFrom xs i read = .ok as) :
    ∀ a ∈ as, heap.HasAll (refs a) :=
  fun a place y listed => known y (operandsFrom_subset reads is a place listed)

theorem operandsFrom_has {xs : List Object} {i : Nat} {read : Object → Option α} {node : α → Node}
    {as : List α} (reads : Reads read fun a => [node a]) (known : heap.HasAll (refsAll xs))
    (is : operandsFrom xs i read = .ok as) : ∀ a ∈ as, heap.Has (node a) :=
  fun a place => operandsFrom_known reads known is a place _ (List.mem_singleton.2 rfl)

end Delegation
