import Delegation.Proofs.Asking
import Delegation.Proofs.Resolution

/-!
# Stored properties

A stored property is a mutable cell in the members of the entity that declares it, and all layers on
top share it. Only an assignment to the name in that table changes what is in the cell; so a value
that has been declared or assigned is there until the next assignment, whatever else is done.

Reading a property gives the value in its cell, with one exception. A method as it stands in the
tables of its entity does not own the entity, and whenever a member turns out to be such a binding
it is handed out as a copy that does. The copy is another binding, and every reading makes a new
one. So a method that comes straight from a table and is kept in a property does not come back, as
long as its entity is alive.
-/

namespace Delegation

variable {s t u : Session} {e : EntityId} {b : BindingId} {x : ScopeId} {name : String}
  {cell : Cell} {v w : Value}

/-! ## Cells that nothing is assigned to -/

namespace Heap

variable {heap middle after : Heap}

/-- A value is put into the cell under a name. -/
def Assigns (x : ScopeId) (name : String) (heap after : Heap) : Prop :=
  ∃ v, after = heap.modifyScope x (·.store name v)

/-- Any number of steps, none of which assigns to a name in a scope. -/
def Unassigned (x : ScopeId) (name : String) : Heap → Heap → Prop :=
  Relation.ReflTransGen fun heap after =>
    Step (fun _ => True) heap after ∧ ¬Assigns x name heap after

/-- The value assigned last to a name in a scope on the way from one heap to another, or the one
that was there at first. -/
def Last (x : ScopeId) (name : String) (heap : Heap) (v : Value) (after : Heap) (w : Value) :
    Prop :=
  Unassigned x name heap after ∧ w = v ∨
    ∃ middle, heap.Later middle ∧
      Unassigned x name (middle.modifyScope x (·.store name w)) after

theorem Step.cell?_of_not_assigns {captures : Frame → Prop} (step : Step captures heap after)
    (spares : ¬Assigns x name heap after) (has : heap.Has (.scope x))
    (found : (heap.scope x).cell? name = some cell) :
    (after.scope x).cell? name = some cell := by
  cases step with
  | addScope => rwa [scope_addScope_of_lt _ has]
  | addBinding => exact found
  | addEntity => rwa [scope_addEntity_of_lt _ _ _ has]
  | @declare y other _ scope known _ declared =>
    rw [scope_setScope known]
    split
    · next same =>
      subst same
      rw [Scope.cell?_of_declare declared]
      split
      · next same =>
        obtain ⟨-, -, new, -⟩ := Scope.declare_eq_ok_iff.1 declared
        rw [← same, Scope.declares, found] at new
        cases new
      · exact found
    · exact found
  | @store y other v _ known =>
    rw [scope_modifyScope known]
    split
    · next same =>
      have elsewhere : name ≠ other := by
        rintro rfl
        exact spares ⟨v, by rw [same]⟩
      rw [Scope.cell?_store, if_neg elsewhere, ← same]
      exact found
    · exact found
  | @close y known =>
    rw [scope_modifyScope known]
    split
    · next same => exact same ▸ found
    · exact found

theorem Unassigned.later (unassigned : Unassigned x name heap after) : heap.Later after :=
  Relation.ReflTransGen.mono (fun _ _ step => step.1) _ _ unassigned

theorem Unassigned.cell? (unassigned : Unassigned x name heap after) (has : heap.Has (.scope x))
    (found : (heap.scope x).cell? name = some cell) :
    (after.scope x).cell? name = some cell := by
  induction unassigned with
  | refl => exact found
  | tail before step ih =>
    have still := (Unassigned.later before).grows.has _ has
    exact step.1.cell?_of_not_assigns step.2 still ih

/-- What is in a mutable cell is what has been assigned last. -/
theorem Later.last (later : heap.Later after) (has : heap.Has (.scope x))
    (found : (heap.scope x).cell? name = some (.mutable v)) :
    ∃ w, Last x name heap v after w ∧ (after.scope x).cell? name = some (.mutable w) := by
  induction later with
  | refl => exact ⟨v, .inl ⟨.refl, rfl⟩, found⟩
  | @tail middle after before step ih =>
    obtain ⟨w, last, there⟩ := ih
    have still := (Later.grows before).has _ has
    by_cases assigns : Assigns x name middle after
    · obtain ⟨w', rfl⟩ := assigns
      refine ⟨w', .inr ⟨middle, before, .refl⟩, ?_⟩
      rw [cell?_store still, there, Option.map_some, if_pos rfl]
    · refine ⟨w, ?_, step.cell?_of_not_assigns assigns still there⟩
      rcases last with ⟨unassigned, is⟩ | ⟨first, reached, unassigned⟩
      · exact .inl ⟨unassigned.tail ⟨step, assigns⟩, is⟩
      · exact .inr ⟨first, reached, unassigned.tail ⟨step, assigns⟩⟩

end Heap

/-! ## Reading -/

namespace Session

/-- A value that a member may stand for without being copied when it is read: not a method that does
not own its entity, or one whose entity is gone. -/
def Plain (s : Session) (w : Value) : Prop :=
  ∀ b callable owner, w = .binding b → s.heap.binding b = ⟨callable, .declared owner⟩ →
    s.isLive owner = false

/-- What comes of reading a member that stands for a value: the value and nothing else, or a copy
that owns its entity. -/
structure Yields (s : Session) (e : EntityId) (name : String) (w : Value) : Prop where
  value : s.Plain w → ∀ run, getMember run e name s = .ok w s
  copy : ∀ b callable owner, w = .binding b → s.heap.binding b = ⟨callable, .declared owner⟩ →
    s.isLive owner = true → ∀ run, getMember run e name s =
      .ok (.binding (s.heap.addBinding ⟨callable, .method owner⟩).1)
        { s with heap := (s.heap.addBinding ⟨callable, .method owner⟩).2 }

/-- All entities whose member leads to the cell in a scope give its value. -/
def Reads (s : Session) (x : ScopeId) (name : String) (w : Value) : Prop :=
  ∀ e cell, s.heap.resolve (s.heap.entity e).members name = some (x, cell) → s.Yields e name w

theorem plain_or_copied (s : Session) (w : Value) : s.Plain w ∨ ∃ b callable owner,
    w = .binding b ∧ s.heap.binding b = ⟨callable, .declared owner⟩ ∧ s.isLive owner = true := by
  by_contra neither
  rw [not_or] at neither
  exact neither.1 fun b callable owner is binding =>
    Bool.eq_false_iff.2 fun live => neither.2 ⟨b, callable, owner, is, binding, live⟩

theorem handOut_of_plain (plain : s.Plain v) : handOut v s = .ok v s := by
  cases v with
  | binding b =>
    simp only [handOut, attach, bind, EStateM.bind, Action.get_eq_ok]
    cases binding : s.heap.binding b with
    | mk callable strategy =>
      cases strategy with
      | declared owner =>
        dsimp only
        rw [plain b callable owner rfl binding]
        rfl
      | function | method | closure => rfl
  | _ => rfl

theorem yields_of_resolve
    (leads : s.heap.resolve (s.heap.entity e).members name = some (x, .mutable w)) :
    s.Yields e name w := by
  have read (run : Runner) : getMember run e name s = handOut w s := by
    have inTable : (s.heap.entity e).members.get run name s = .ok w s :=
      ScopeId.get_of_mutable leads run
    rw [getMember_eq leads]
    simp only [bind, EStateM.bind, inTable]
  refine ⟨fun plain run => (read run).trans (handOut_of_plain plain), ?_⟩
  rintro b callable owner rfl binding live run
  exact (read run).trans (handOut_of_declared binding live)

theorem reads_of_cell? (found : (s.heap.scope x).cell? name = some (.mutable w)) :
    s.Reads x name w := by
  intro e cell leads
  have is : cell = .mutable w := by
    rw [Heap.cell?_of_resolve leads, Option.some.injEq] at found
    exact found
  exact yields_of_resolve (is ▸ leads)

theorem reads_of_unassigned (has : s.heap.Has (.scope x))
    (found : (s.heap.scope x).cell? name = some (.mutable w))
    (unassigned : s.heap.Unassigned x name t.heap) : t.Reads x name w :=
  reads_of_cell? (unassigned.cell? has found)

theorem cell?_of_getMember {run : Runner} (yields : s.Yields e name w)
    (reads : getMember run e name s = .ok v t) (has : s.heap.Has (.scope x))
    (found : (s.heap.scope x).cell? name = some cell) :
    t.heap.Has (.scope x) ∧ (t.heap.scope x).cell? name = some cell := by
  rcases s.plain_or_copied w with plain | ⟨b, callable, owner, is, binding, live⟩
  · have same := (yields.value plain run).symm.trans reads
    cases same
    exact ⟨has, found⟩
  · have same := (yields.copy b callable owner is binding live run).symm.trans reads
    cases same
    exact ⟨has, found⟩

/-! ## Declaring and assigning -/

theorem resolve_of_declareProperty (has : s.heap.Has (.scope (s.heap.entity e).members))
    (declares : declareProperty e name (.stored v) s = .ok () t) :
    t.heap.Has (.scope (t.heap.entity e).members) ∧
      t.heap.resolve (t.heap.entity e).members name =
        some ((t.heap.entity e).members, .mutable v) := by
  have step : declare (s.heap.entity e).members name (.mutable v) s = .ok () t := declares
  obtain ⟨found, stillHas, entities, -⟩ := declare_eq_ok has step
  have same : t.heap.entity e = s.heap.entity e := by simp only [Heap.entity, entities]
  rw [same]
  exact ⟨stillHas, Heap.resolve_of_cell? found⟩

/-- Stored properties give back what has been put into them. What was declared, what was read and
what was assigned is what everyone reads whose member leads to the same cell, until the next
assignment to it; a method that does not own its entity comes in a copy that does. -/
theorem stored_properties (reachable : s.Reachable) (has : s.heap.Has (.entity e))
    (name : String) :
    (∀ v after, declareProperty e name (.stored v) s = .ok () after →
      ∃ x, after.heap.resolve (after.heap.entity e).members name = some (x, .mutable v) ∧
        (∀ t : Session, after.heap.Unassigned x name t.heap → t.Reads x name v) ∧
        ∀ t : Session, after.heap.Later t.heap →
          ∃ w, after.heap.Last x name v t.heap w ∧ t.Reads x name w) ∧
      ∀ x old, s.heap.resolve (s.heap.entity e).members name = some (x, .mutable old) →
        s.Yields e name old ∧
        (∀ run w t, getMember run e name s = .ok w t →
          ∀ u : Session, t.heap.Unassigned x name u.heap → u.Reads x name old) ∧
        ∀ v, ∃ t, (∀ run, setMember run e name v s = .ok () t) ∧ s.Stores x name v t ∧
          t.heap.resolve (t.heap.entity e).members name = some (x, .mutable v) ∧
          ∀ u : Session, t.heap.Unassigned x name u.heap → u.Reads x name v := by
  have table : s.heap.Has (.scope (s.heap.entity e).members) :=
    (reachable.sound.heap.has_tables has).2.2
  refine ⟨fun v after declares => ?_, fun x old leads => ?_⟩
  · obtain ⟨xHas, leads⟩ := resolve_of_declareProperty table declares
    have found := Heap.cell?_of_resolve leads
    refine ⟨_, leads, fun t unassigned => reads_of_unassigned xHas found unassigned,
      fun t later => ?_⟩
    obtain ⟨w, last, there⟩ := later.last xHas found
    exact ⟨w, last, reads_of_cell? there⟩
  · have yields := yields_of_resolve leads
    obtain ⟨xHas, -, found⟩ := reachable.sound.heap.has_resolve table leads
    refine ⟨yields, fun run w t reads u unassigned => ?_, fun v => ?_⟩
    · obtain ⟨stillHas, still⟩ := cell?_of_getMember yields reads xHas found
      exact reads_of_unassigned stillHas still unassigned
    · let t : Session := { s with heap := s.heap.modifyScope x (·.store name v) }
      have sets (run : Runner) : setMember run e name v s = .ok () t :=
        (setMember_eq leads run v).trans (ScopeId.set_of_mutable leads run v)
      have leadsAfter : t.heap.resolve (t.heap.entity e).members name = some (x, .mutable v) := by
        have stored := Heap.resolve_store xHas name v (s.heap.entity e).members
        rw [leads, Option.map_some, if_pos rfl] at stored
        exact stored
      have stillHas : t.heap.Has (.scope x) := Nat.lt_of_lt_of_eq xHas Array.size_modify.symm
      have foundAfter := Heap.cell?_of_resolve leadsAfter
      exact ⟨t, sets, stores_modifyScope xHas found v, leadsAfter, fun u unassigned =>
        reads_of_unassigned stillHas foundAfter unassigned⟩

/-- A property of the lower of two layers, which the upper one shares. -/
theorem stored_properties_of_lower_layer :
    let s := (Program.runSteps
      [.bind "a" (.apply (.command (.entity .entity)) [.str "A"]),
        .apply (.command (.entity .property))
          [.var "a", .str "size", .str "stored", .int 1],
        .bind "b" (.apply (.command (.entity .entity)) [.str "B", .var "a"])]).after
          (Program.ready {})
    s.Reachable ∧ s.heap.Has (.entity ⟨1⟩) ∧
      (∀ run, getMember run ⟨1⟩ "size" s = .ok (.int 1) s) ∧
      ∃ t, (∀ run, setMember run ⟨1⟩ "size" (.int 4) s = .ok () t) ∧
        ∀ run, getMember run ⟨1⟩ "size" t = .ok (.int 4) t := by
  let steps : List Expr :=
    [.bind "a" (.apply (.command (.entity .entity)) [.str "A"]),
      .apply (.command (.entity .property)) [.var "a", .str "size", .str "stored", .int 1],
      .bind "b" (.apply (.command (.entity .entity)) [.str "B", .var "a"])]
  intro s
  have reachable : s.Reachable := Program.reachable_runSteps {} steps
  have facts : 1 < s.heap.entities.size ∧
      s.heap.resolve (s.heap.entity ⟨1⟩).members "size" =
        some ((s.heap.entity ⟨0⟩).members, .mutable (.int 1)) := by decide +kernel
  clear_value s
  obtain ⟨has, leads⟩ := facts
  obtain ⟨reads, -, assigns⟩ := (stored_properties reachable has "size").2 _ _ leads
  obtain ⟨t, sets, -, leadsAfter, readsAfter⟩ := assigns (.int 4)
  exact ⟨reachable, has, reads.value nofun, t, sets,
    (readsAfter t .refl ⟨1⟩ _ leadsAfter).value nofun⟩

/-- A property that keeps a method as it stands in the table of its entity: what is read is another
binding. -/
theorem stored_method_not_returned :
    let s := (Program.runSteps
      [.bind "e" (.apply (.command (.entity .entity)) [.str "E"]),
        .apply (.command (.entity .method)) [.var "e", .str "m", .nullary "m" [.int 1]],
        .bind "raw" (.apply (.command (.table .get))
          [.apply (.query (.entity .members)) [.var "e"], .str "m"]),
        .apply (.command (.entity .property))
          [.var "e", .str "p", .str "stored", .var "raw"]]).after (Program.ready {})
    s.heap.resolve (s.heap.entity ⟨0⟩).members "p" =
        some ((s.heap.entity ⟨0⟩).members, .mutable (.binding ⟨0⟩)) ∧
      ∀ run, ∃ v t, getMember run ⟨0⟩ "p" s = .ok v t ∧ v ≠ .binding ⟨0⟩ := by
  intro s
  have facts : s.heap.resolve (s.heap.entity ⟨0⟩).members "p" =
        some ((s.heap.entity ⟨0⟩).members, .mutable (.binding ⟨0⟩)) ∧
      s.heap.binding ⟨0⟩ = ⟨.nullary "m" (.script 0), .declared ⟨0⟩⟩ ∧ s.isLive ⟨0⟩ = true ∧
      s.heap.bindings.size = 1 := by decide +kernel
  clear_value s
  obtain ⟨leads, binding, live, size⟩ := facts
  refine ⟨leads, fun run => ⟨_, _, (yields_of_resolve leads).copy _ _ _ rfl binding live run, ?_⟩⟩
  intro same
  have made : s.heap.bindings.size = 0 := congrArg BindingId.index (Value.binding.inj same)
  rw [size] at made
  cases made

end Session

end Delegation
