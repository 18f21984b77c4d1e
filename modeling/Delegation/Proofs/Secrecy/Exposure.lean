import Delegation.Proofs.Chronicle
import Delegation.Proofs.Run.Operands

/-!
# What a session exposes

A program gets at things through its variables, through what evaluation has in hand and through the
machine it runs on, and from each thing to those it refers to, whether it owns them or not. What a
session exposes beside the fields of an entity is what is got at without ever going from the entity
to its table of fields. Things that nobody can get at any more stay in a session, but they are not
exposed.

A run spares the fields of an entity if it begins no body of a method that belongs to the entity and
never asks for the table, for the private view of the entity, or for a field to be declared on it.
-/

namespace Delegation

/-- What can be referred to: what is in the heap, and what is shared by name. -/
inductive Thing where
  | node (x : Node)
  | chain (c : ChainId)
  | stack (c : StackId)
  | builder (b : BuilderId)
  | machine (m : MachineId)
  deriving DecidableEq

/-! ## References -/

namespace Object

mutual

/-- What an object refers to by itself, names of shared things included. -/
def things : Object → List Thing
  | .value v => v.owned.map .node
  | .scope x => [.node (.scope x)]
  | .cell c => c.owned.map .node
  | .chain c => [.chain c]
  | .callable _ | .failure _ => []
  | .frame f => f.owned.map .node
  | .stack c => [.stack c]
  | .weak e => [.node (.entity e)]
  | .builder b => [.builder b]
  | .registry r => r.owned.map .node
  | .machine m => [.machine m]
  | .list items => thingsAll items

/-- What the objects of a list refer to. -/
def thingsAll : List Object → List Thing
  | [] => []
  | x :: xs => x.things ++ thingsAll xs

end

theorem mem_thingsAll {y : Thing} {xs : List Object} :
    y ∈ thingsAll xs ↔ ∃ x ∈ xs, y ∈ x.things := by
  induction xs with
  | nil => simp [thingsAll]
  | cons x xs ih => simp [thingsAll, ih]

mutual

/-- What an object refers to in the heap is part of what it refers to. -/
theorem refs_subset_things : ∀ x : Object, x.refs.map .node ⊆ x.things
  | .list items => refsAll_subset_thingsAll items
  | .value _ | .scope _ | .cell _ | .frame _ | .weak _ | .registry _ => List.Subset.refl _
  | .chain _ | .callable _ | .failure _ | .stack _ | .builder _ | .machine _ => List.nil_subset _

theorem refsAll_subset_thingsAll : ∀ xs : List Object, (refsAll xs).map .node ⊆ thingsAll xs
  | [] => List.nil_subset _
  | x :: xs => by
    rw [refsAll, thingsAll, List.map_append]
    exact List.append_subset.2
      ⟨List.subset_append_of_subset_left _ (refs_subset_things x),
        List.subset_append_of_subset_right _ (refsAll_subset_thingsAll xs)⟩

end

end Object

/-- What an entity refers to beside its fields. -/
def Entity.openRefs (record : Entity) : List Node :=
  record.super.toList.map .entity ++ record.type.toList.map .entity ++
    [.scope record.hooks, .scope record.members] ++ record.derived.toList.map .entity

theorem Entity.openRefs_subset_refs (record : Entity) : record.openRefs ⊆ record.refs := by
  intro x place
  simp only [openRefs, refs, owned, List.mem_append, List.mem_cons] at place ⊢
  rcases place with ((super | type) | tables) | derived
  · exact .inl (.inl (.inl super))
  · exact .inl (.inl (.inr type))
  · exact .inl (.inr (.inr tables))
  · exact .inr derived

/-- What an object of the heap refers to, the table of fields of one entity left out. -/
def Heap.openRefs (heap : Heap) (owner : EntityId) : Node → List Node
  | .entity e => if e = owner then (heap.entity e).openRefs else (heap.entity e).refs
  | x => heap.refs x

theorem Heap.openRefs_entity (heap : Heap) (owner e : EntityId) :
    heap.openRefs owner (.entity e) =
      if e = owner then (heap.entity e).openRefs else (heap.entity e).refs := rfl

namespace Session

/-- What a thing refers to, the table of fields of one entity left out. -/
def openRefs (s : Session) (owner : EntityId) : Thing → List Node
  | .node x => s.heap.openRefs owner x
  | .chain c => Chain.owned (s.chain c)
  | .stack c => (s.stack c).owned
  | .builder b => ((s.builders.getD b.index none).map Registry.owned).getD []
  | .machine m => (s.machineAt m).owned

/-- What a program can get at without going from an entity to its fields. The first scope of all
counts as exposed: what is in no table has it in the place of what it lacks. -/
inductive Exposes (s : Session) (owner : EntityId) : Thing → Prop
  | var {entry : String × Object} {x : Thing} (set : entry ∈ s.vars)
      (refers : x ∈ entry.2.things) : Exposes s owner x
  | held {object : Object} {x : Thing} (held : object ∈ s.held) (refers : x ∈ object.things) :
      Exposes s owner x
  | running : Exposes s owner (.machine s.running)
  | first : Exposes s owner (.node (.scope ⟨0⟩))
  | onward {x : Thing} {y : Node} (exposed : Exposes s owner x)
      (refers : y ∈ s.openRefs owner x) : Exposes s owner (.node y)

/-- Whether a session has what a name stands for. -/
def HasThing (s : Session) : Thing → Prop
  | .node x => s.heap.Has x
  | .chain c => c.index < s.sharedChains.size
  | .stack c => c.index < s.sharedStacks.size
  | .builder b => b.index < s.builders.size
  | .machine m => m.index < s.machines.size

end Session

/-! ## Runs that spare the fields of an entity -/

/-- The entity that a method belongs to. -/
def Strategy.owner? : Strategy → Option EntityId
  | .method owner | .declared owner => some owner
  | .function _ | .closure _ => none

/-- Whether an operation gets at the fields of an entity by itself. -/
def Operation.opens (e : EntityId) : Operation → List Object → Bool
  | .query (.entity .fields), xs
  | .command (.table .privateView), xs
  | .command (.entity .field), xs => (xs.getD 0 .void).asEntity? = some e
  | _, _ => false

/-- Whether what happens keeps away from the fields of an entity. -/
def Moment.spares (e : EntityId) (moment : Moment) : Bool :=
  match moment.deed with
  | .operation operation xs => !operation.opens e xs
  | .serve b => (moment.session.heap.binding b).strategy.owner? ≠ some e
  | _ => true

namespace Chronicle

variable {α : Type} {e : EntityId} {s t : Session} {action : Action α} {a : α}
  {rest : α → Session → Chronicle}

/-- All that happens keeps away from the fields of an entity. -/
def Spares (e : EntityId) (c : Chronicle) : Prop := ∀ moment ∈ c, moment.spares e = true

instance (e : EntityId) (c : Chronicle) : Decidable (c.Spares e) :=
  inferInstanceAs (Decidable (∀ moment ∈ c, moment.spares e = true))

theorem spares_nil : Spares e [] := List.forall_mem_nil _

theorem spares_cons {moment : Moment} {c : Chronicle} :
    Spares e (moment :: c) ↔ moment.spares e = true ∧ c.Spares e := List.forall_mem_cons

theorem spares_append {c d : Chronicle} : Spares e (c ++ d) ↔ c.Spares e ∧ d.Spares e :=
  List.forall_mem_append

theorem Spares.next (spares : Spares e (next action rest s)) (ends : action s = .ok a t) :
    (rest a t).Spares e := by
  simpa only [Chronicle.next, ends] using spares

theorem Spares.step (spares : Spares e (step action rest s)) (ends : action s = .ok a t) :
    (rest a t).Spares e := by
  simpa only [Chronicle.step, ends] using spares

/-- Inside a frame, a scope in front is all that there is to being under a scope. -/
theorem Spares.shadowed {x : ScopeId} {inner : Session → Chronicle}
    (spares : (inScope x action inner s).Spares e) (framed : s.machine.stack.frames ≠ []) :
    (Chronicle.shadowed x inner s).Spares e := by
  rwa [inScope, if_neg (by simpa using framed)] at spares

end Chronicle

end Delegation
