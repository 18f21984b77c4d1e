import Delegation.Proofs.Liveness.Census
import Delegation.Proofs.Run.Start
import Delegation.Proofs.Secrecy.Evaluation

/-!
# Fields are encapsulated

The fields of an entity are seen by the bodies of its own methods, and by whoever asks for their
table. So if nothing but the entity leads to its table, and a program neither asks for it nor runs
such a body, then the program does not depend on the fields: with other plain values in them, or
with more or fewer plain fields, it gives the same reports and does the same to the session, and it
leaves the table alone either way. The program may well use members and hooks of the entity and of
the layers above and below, as long as what it runs there belongs to other layers.

What a field leads to is another matter. A field that holds an entity keeps the entity alive, which
a program can find out; so the two tables hold the same entities and bindings.
-/

namespace Delegation

/-! ## Tables that differ in plain cells -/

/-- Data that refers to nothing. -/
def Value.isPlain : Value → Bool
  | .void | .bool _ | .int _ | .str _ => true
  | .entity _ | .binding _ => false

/-- Cells with plain values. -/
def Cell.isPlain : Cell → Bool
  | .mutable v | .constant v => v.isPlain
  | .computed .. => false

theorem Cell.owned_of_isPlain {cell : Cell} (plain : cell.isPlain = true) : cell.owned = [] := by
  rcases cell with (_ | _ | _ | _ | _ | _) | (_ | _ | _ | _ | _ | _) | _ <;>
    first | rfl | cases plain

/-- The cells that hold more than plain data. -/
def Cell.bound (cells : List (String × Cell)) : List (String × Cell) :=
  cells.filter fun entry => !entry.2.isPlain

theorem Cell.ownedByAll_bound (cells : List (String × Cell)) :
    ownedByAll (bound cells) = ownedByAll cells := by
  induction cells with
  | nil => rfl
  | cons entry rest ih =>
    cases plain : entry.2.isPlain with
    | true => simp [bound, ownedByAll, plain, owned_of_isPlain plain, ← ih]
    | false => simp [bound, ownedByAll, plain, ← ih]

namespace Session

/-- The session with other cells in one of its tables. -/
def withCells (s : Session) (x : ScopeId) (cells : List (String × Cell)) : Session :=
  { s with heap := s.heap.setScope x { s.heap.scope x with cells } }

end Session

/-! ## What a session does not expose -/

namespace Session

variable {s : Session} {e : EntityId} {cells : List (String × Cell)}

/-- What is in no table leads to nothing but the first scope of all. -/
theorem eq_first_of_absent {x : Thing} {y : Node} (absent : ¬s.HasThing x)
    (other : x ≠ .machine s.running) (refers : y ∈ s.openRefs e x) : y = .scope ⟨0⟩ := by
  cases x with
  | node x =>
    cases x with
    | scope x =>
      have is : s.heap.scope x = default := dif_neg absent
      simp only [openRefs, Heap.openRefs, Heap.refs, is] at refers
      cases refers
    | entity d =>
      have is : s.heap.entity d = default := dif_neg absent
      have tables : y ∈ (default : Entity).refs := by
        simp only [openRefs, Heap.openRefs, is] at refers
        split at refers
        · exact Entity.openRefs_subset_refs _ refers
        · exact refers
      simpa [Entity.refs, Entity.owned, default] using tables
    | binding b =>
      have is : s.heap.binding b = default := dif_neg absent
      simp only [openRefs, Heap.openRefs, Heap.refs, is] at refers
      cases refers
  | chain c =>
    have is : s.chain c = [] := dif_neg absent
    simp only [openRefs, is] at refers
    cases refers
  | stack c =>
    have is : s.stack c = {} := dif_neg absent
    simp only [openRefs, is] at refers
    cases refers
  | builder b =>
    have is : s.builders.getD b.index none = none := dif_neg absent
    simp only [openRefs, is] at refers
    cases refers
  | machine m =>
    have away : m ≠ s.running := fun same => other (congrArg Thing.machine same)
    have is : s.machines.getD m.index default = default := dif_neg absent
    simp only [openRefs, machineAt, if_neg away, is] at refers
    exact List.mem_singleton.1 refers

theorem exposes_of_refers {x : Thing} {y : Node} (found : ¬(s.HasThing x ∧ ¬s.Exposes e x))
    (refers : y ∈ s.openRefs e x) : s.Exposes e (.node y) := by
  by_cases has : s.HasThing x
  · exact .onward (not_not.1 fun unexposed => found ⟨has, unexposed⟩) refers
  · by_cases running : x = .machine s.running
    · subst running
      exact .onward .running refers
    · rw [eq_first_of_absent has running refers]
      exact .first

/-- All that a session has names for. -/
def things (s : Session) : List Thing :=
  s.heap.nodes.map .node ++ (List.range s.sharedChains.size).map (fun i => .chain ⟨i⟩) ++
    (List.range s.sharedStacks.size).map (fun i => .stack ⟨i⟩) ++
    (List.range s.builders.size).map (fun i => .builder ⟨i⟩) ++
    (List.range s.machines.size).map (fun i => .machine ⟨i⟩)

theorem mem_things {x : Thing} : x ∈ s.things ↔ s.HasThing x := by
  cases x with
  | node x => simp [things, HasThing, mem_nodes]
  | chain c => obtain ⟨i⟩ := c; simp [things, HasThing]
  | stack c => obtain ⟨i⟩ := c; simp [things, HasThing]
  | builder b => obtain ⟨i⟩ := b; simp [things, HasThing]
  | machine m => obtain ⟨i⟩ := m; simp [things, HasThing]

/-- Nothing in a session refers to a scope but, at most, an entity whose table of fields it is. -/
def Confines (s : Session) (e : EntityId) (x : ScopeId) : Prop :=
  (∀ entry ∈ s.vars, .node (.scope x) ∉ entry.2.things) ∧
    (∀ object ∈ s.held, .node (.scope x) ∉ object.things) ∧
      ∀ y ∈ .machine s.running :: s.things, .scope x ∉ s.openRefs e y

instance (x : ScopeId) : Decidable (s.Confines e x) := inferInstanceAs (Decidable (_ ∧ _ ∧ _))

theorem Confines.not_exposes {x : ScopeId} (confines : s.Confines e x) (other : x ≠ ⟨0⟩) :
    ¬s.Exposes e (.node (.scope x)) := by
  obtain ⟨vars, held, things⟩ := confines
  intro exposed
  cases exposed with
  | var set refers => exact vars _ set refers
  | held place refers => exact held _ place refers
  | first => exact other rfl
  | @onward y _ _ refers =>
    by_cases running : y = .machine s.running
    · exact things y (List.mem_cons.2 (.inl running)) refers
    · by_cases there : s.HasThing y
      · exact things y (List.mem_cons_of_mem _ (mem_things.2 there)) refers
      · cases eq_first_of_absent there running refers
        exact other rfl

/-- What is there but not exposed is lost. -/
def secretFields (s : Session) (e : EntityId) (cells : List (String × Cell))
    (has : s.heap.Has (.scope (s.heap.entity e).fields))
    (unexposed : ¬s.Exposes e (.node (.scope (s.heap.entity e).fields)))
    (bound : Cell.bound cells = Cell.bound (s.heap.scope (s.heap.entity e).fields).cells) :
    Secret where
  owner := e
  table := (s.heap.entity e).fields
  shown := s.heap.scope (s.heap.entity e).fields
  other := { s.heap.scope (s.heap.entity e).fields with cells }
  lost x := s.HasThing x ∧ ¬s.Exposes e x
  hidden := ⟨has, unexposed⟩
  open_first lost := lost.2 .first
  owned := by
    have same : Cell.ownedByAll cells = _ :=
      (Cell.ownedByAll_bound cells).symm.trans (congrArg Cell.ownedByAll bound)
    rw [Cell.ownedByAll_bound] at same
    simp only [Scope.owned, Scope.parent, same]

theorem hides_secretFields (has unexposed bound) :
    s.Hides (s.secretFields e cells has unexposed bound) where
  heap :=
    { there := has
      shown := rfl
      old := fun _ lost => lost.1
      closed := fun _ found _ refers lost => lost.2 (exposes_of_refers found refers) }
  running lost := lost.2 .running
  chains _ found _ refers lost := lost.2 (exposes_of_refers found refers)
  sharedStacks _ found _ refers lost := lost.2 (exposes_of_refers found refers)
  builders b found registry is y place lost := by
    refine lost.2 (exposes_of_refers found ?_)
    rw [openRefs, is]
    exact place
  machines _ found _ refers lost := lost.2 (exposes_of_refers found refers)
  oldChains _ lost := lost.1
  oldStacks _ lost := lost.1
  oldBuilders _ lost := lost.1
  oldMachines _ lost := lost.1
  vars _ set _ refers lost := lost.2 (.var set refers)
  held _ place _ refers lost := lost.2 (.held place refers)

end Session

/-! ## Two runs -/

/-- The result of an action, or why it gave none. -/
def Action.outcome {α : Type} (action : Action α) (s : Session) : Except Stop α :=
  match action s with
  | .ok a _ => .ok a
  | .error stop _ => .error stop

theorem Action.Veiled.twice {α : Type} {secret : Secret} {s : Session} {action : Action α}
    {post : α → Prop} (veiled : action.Veiled secret s post) :
    action.outcome (s.veil secret) = action.outcome s ∧
      action.after (s.veil secret) = (action.after s).veil secret ∧
        (action.after s).Hides secret := by
  cases veiled with
  | ok gives veiled hides =>
    simp only [Action.outcome, Action.after, gives, veiled]
    exact ⟨trivial, trivial, hides⟩
  | error stops veiled hides =>
    simp only [Action.outcome, Action.after, stops, veiled]
    exact ⟨trivial, trivial, hides⟩

namespace Program

variable {s : Session} {e : EntityId} {cells : List (String × Cell)}

/-- A program that spares the fields of an entity does the same whatever plain fields there are. -/
theorem encapsulation (steps : List Expr) (has : s.heap.Has (.scope (s.heap.entity e).fields))
    (unexposed : ¬s.Exposes e (.node (.scope (s.heap.entity e).fields)))
    (bound : Cell.bound cells = Cell.bound (s.heap.scope (s.heap.entity e).fields).cells)
    (spares : (chronicle steps s).Spares e) :
    let table := (s.heap.entity e).fields
    let other := s.withCells table cells
    (runSteps steps).outcome other = (runSteps steps).outcome s ∧
      (runSteps steps).after other = ((runSteps steps).after s).withCells table cells ∧
        ((runSteps steps).after s).heap.scope table = s.heap.scope table ∧
          ((runSteps steps).after other).heap.scope table = other.heap.scope table := by
  intro table other
  have hides := Session.hides_secretFields has unexposed bound
  obtain ⟨same, after, hidden⟩ := (blind_runSteps steps hides spares).twice
  have kept : ((runSteps steps).after s).heap.scope table = s.heap.scope table :=
    hidden.heap.shown
  have varied : ((runSteps steps).after other).heap.scope table = other.heap.scope table := by
    have before := (hides.heap.scope_veil table).trans (if_pos rfl)
    have behind := (hidden.heap.scope_veil table).trans (if_pos rfl)
    exact (congrArg (fun t : Session => t.heap.scope table) after).trans
      (behind.trans before.symm)
  refine ⟨same, ?_, kept, varied⟩
  rw [Session.withCells, kept]
  exact after

/-- An entity between two layers, with a field that only its own method reads. The program writes a
member of it and asks for a method of the layer below and for one that the layer above overrides. -/
theorem encapsulation_of_layers :
    let entity (name : String) (super : Expr) : Expr :=
      .apply (.command (.entity .entity)) [.str name, super]
    let method (e name : String) (body : Expr) : Expr :=
      .apply (.command (.entity .method)) [.var e, .str name, .nullary name [body]]
    let s := (runSteps
      [.bind "base" (entity "base" .void), .bind "x" (entity "x" (.var "base")),
        .bind "d" (entity "d" (.var "x")),
        .apply (.command (.entity .field)) [.var "x", .str "pin", .int 1, .str "mut"],
        .apply (.command (.entity .property)) [.var "x", .str "label", .str "stored", .str "a"],
        method "base" "greet" (.str "hello"),
        method "x" "reveal" (.apply (.command (.call .lookup)) [.str "pin"]),
        method "d" "reveal" (.str "no")]).after (ready {})
    let steps : List Expr :=
      [.apply (.command (.entity .setMember)) [.var "x", .str "label", .str "b"],
        .apply (.command (.entity .getMember)) [.var "d", .str "label"],
        .apply (.command (.entity .send)) [.var "x", .str "greet"],
        .apply (.command (.entity .send)) [.var "d", .str "reveal"]]
    let other := s.withCells ⟨6⟩ [("pin", .mutable (.int 2)), ("salt", .constant (.str "s"))]
    s.heap.scope ⟨6⟩ ≠ other.heap.scope ⟨6⟩ ∧
      (runSteps steps).outcome other = (runSteps steps).outcome s := by
  intro entity method s steps other
  have table : (s.heap.entity ⟨1⟩).fields = ⟨6⟩ := by decide +kernel
  have confines : s.Confines ⟨1⟩ ⟨6⟩ := by decide +kernel
  have differ : s.heap.scope ⟨6⟩ ≠ other.heap.scope ⟨6⟩ := by decide +kernel
  have has : s.heap.Has (.scope (s.heap.entity ⟨1⟩).fields) :=
    (by decide +kernel : (s.heap.entity ⟨1⟩).fields.index < s.heap.scopes.size)
  have unexposed : ¬s.Exposes ⟨1⟩ (.node (.scope (s.heap.entity ⟨1⟩).fields)) :=
    table ▸ confines.not_exposes (by decide)
  have bound : Cell.bound [("pin", .mutable (.int 2)), ("salt", .constant (.str "s"))] =
      Cell.bound (s.heap.scope (s.heap.entity ⟨1⟩).fields).cells := by decide +kernel
  have spares : (chronicle steps s).Spares ⟨1⟩ := by decide +kernel
  have runs := encapsulation steps has unexposed bound spares
  rw [table] at runs
  exact ⟨differ, runs.1⟩

end Program

end Delegation
