import Delegation.Proofs.Heap.Order
import Delegation.Proofs.Permanence

/-!
# What a name leads to

A scope and its ancestors are so many tables, one behind the other, and the first that declares a
name decides about it. Whether the name is there at all, of which kind its cell is, what reading it
gives and what assigning to it does: each of these is found by a walk of its own, and all walks stop
at the same cell.

The walks are compared with a look at a flat list of tables, each taken by itself.
-/

namespace Delegation

variable {α β : Type} {s t : Session} {x y : ScopeId} {tables : List ScopeId} {name : String}
  {cell : Cell} {v : Value}

/-! ## Cells -/

/-- Reads a cell. -/
def Cell.read (run : Runner) : Cell → Action Value
  | .mutable v | .constant v => pure v
  | .computed getter _ => getter.call run []

/-- Writes to the cell that a table has under a name. -/
def Cell.write (run : Runner) (table : ScopeId) (name : String) (v : Value) : Cell → Action Unit
  | .mutable _ => onHeap fun heap => ((), heap.modifyScope table (·.store name v))
  | .constant _ | .computed _ none => fail (.constantAssignment name)
  | .computed _ (some setter) => do
      let _ ← setter.call run [v]

/-! ## Lists of tables -/

namespace Heap

variable {heap : Heap}

/-- The first table of a list that declares the name, with the cell it declares. -/
def first? (heap : Heap) (tables : List ScopeId) (name : String) : Option (ScopeId × Cell) :=
  tables.findSome? fun x => ((heap.scope x).cell? name).map (x, ·)

/-- Of a list of tables, one declares the cell under the name and none before it declares the name.
-/
structure First (heap : Heap) (tables : List ScopeId) (name : String) (x : ScopeId) (cell : Cell) :
    Prop where
  place : ∃ before after, tables = before ++ x :: after ∧
    ∀ y ∈ before, (heap.scope y).declares name = false
  declares : (heap.scope x).cell? name = some cell

/-- No table of a list declares the name. -/
def Lacks (heap : Heap) (tables : List ScopeId) (name : String) : Prop :=
  ∀ x ∈ tables, (heap.scope x).declares name = false

theorem cell?_eq_none_iff :
    (heap.scope x).cell? name = none ↔ (heap.scope x).declares name = false := by
  rw [Scope.declares, Option.isSome_eq_false_iff, Option.isNone_iff_eq_none]

theorem first?_eq_none_iff : heap.first? tables name = none ↔ heap.Lacks tables name := by
  simp only [first?, Lacks, List.findSome?_eq_none_iff, Option.map_eq_none_iff, cell?_eq_none_iff]

theorem first?_eq_some_iff :
    heap.first? tables name = some (x, cell) ↔ heap.First tables name x cell := by
  simp only [first?, List.findSome?_eq_some_iff, Option.map_eq_some_iff, Option.map_eq_none_iff,
    cell?_eq_none_iff]
  constructor
  · rintro ⟨before, y, after, rfl, ⟨_, declares, is⟩, none⟩
    cases is
    exact ⟨⟨before, after, rfl, none⟩, declares⟩
  · rintro ⟨⟨before, after, rfl, none⟩, declares⟩
    exact ⟨before, x, after, rfl, ⟨cell, declares, rfl⟩, none⟩

theorem first_or_lacks (heap : Heap) (tables : List ScopeId) (name : String) :
    (∃ x cell, heap.First tables name x cell) ∨ heap.Lacks tables name := by
  cases found : heap.first? tables name with
  | some place => exact .inl ⟨place.1, place.2, first?_eq_some_iff.1 found⟩
  | none => exact .inr (first?_eq_none_iff.1 found)

/-- The cell that a name leads to is that of the first table on the path. -/
theorem resolve_eq_first? (heap : Heap) (x : ScopeId) (name : String) :
    heap.resolve x name = heap.first? (heap.path x) name := rfl

end Heap

/-- Reads a name in the first table of a list that declares it. -/
def readIn (run : Runner) (tables : List ScopeId) (name : String) : Action Value := do
  match (← get).heap.first? tables name with
  | some (_, cell) => cell.read run
  | none => fail (.unknownSymbol name)

/-- Assigns to a name in the first table of a list that declares it. -/
def writeIn (run : Runner) (tables : List ScopeId) (name : String) (v : Value) : Action Unit := do
  match (← get).heap.first? tables name with
  | some (x, cell) => cell.write run x name v
  | none => fail (.unknownSymbol name)

/-- However bodies are run, the action does nothing but to fail for a name that it does not know. -/
def Session.Ignorant (s : Session) (name : String) (action : Runner → Action α) : Prop :=
  ∀ run, action run s = .error (.failure (.ofCause (.unknownSymbol name))) s

section Tables

variable (run : Runner)

theorem readIn_of_first (first : s.heap.First tables name x cell) :
    readIn run tables name s = cell.read run s := by
  simp only [readIn, bind, EStateM.bind, Action.get_eq_ok, Heap.first?_eq_some_iff.2 first]

theorem writeIn_of_first (first : s.heap.First tables name x cell) :
    writeIn run tables name v s = cell.write run x name v s := by
  simp only [writeIn, bind, EStateM.bind, Action.get_eq_ok, Heap.first?_eq_some_iff.2 first]

theorem readIn_of_lacks (lacks : s.heap.Lacks tables name) :
    s.Ignorant name fun run => readIn run tables name := by
  intro run
  simp only [readIn, bind, EStateM.bind, Action.get_eq_ok, Heap.first?_eq_none_iff.2 lacks]
  rfl

theorem writeIn_of_lacks (lacks : s.heap.Lacks tables name) :
    s.Ignorant name fun run => writeIn run tables name v := by
  intro run
  simp only [writeIn, bind, EStateM.bind, Action.get_eq_ok, Heap.first?_eq_none_iff.2 lacks]
  rfl

/-- A name is read where the path of the scope first has it. -/
theorem ScopeId.get_eq (x : ScopeId) (name : String) (s : Session) :
    x.get run name s = readIn run (s.heap.path x) name s := by
  simp only [ScopeId.get, readIn, bind, EStateM.bind, Action.get_eq_ok, Action.getThe_eq_ok,
    Heap.resolve_eq_first?]
  cases s.heap.first? (s.heap.path x) name with
  | none => rfl
  | some found =>
    obtain ⟨y, cell⟩ := found
    cases cell <;> rfl

theorem ScopeId.set_eq (x : ScopeId) (name : String) (v : Value) (s : Session) :
    x.set run name v s = writeIn run (s.heap.path x) name v s := by
  simp only [ScopeId.set, writeIn, bind, EStateM.bind, Action.get_eq_ok, Action.getThe_eq_ok,
    Heap.resolve_eq_first?]
  cases s.heap.first? (s.heap.path x) name with
  | none => rfl
  | some found =>
    obtain ⟨y, cell⟩ := found
    cases cell with
    | mutable | constant => rfl
    | computed getter setter => cases setter <;> rfl

end Tables

/-! ## Failures of calls -/

/-- The action may fail, but not for the cause. -/
def Action.Spares (cause : Cause) (action : Action α) : Prop :=
  ∀ s failure t, action s = .error (.failure failure) t → failure.cause ≠ cause

namespace Action

variable {cause : Cause}

theorem spares_ok {action : Action α} (gives : ∀ s, ∃ a t, action s = .ok a t) :
    action.Spares cause := by
  intro s failure t fails
  obtain ⟨a, u, is⟩ := gives s
  rw [is] at fails
  cases fails

theorem spares_fail {other : Cause} (differs : other ≠ cause) :
    (fail other : Action α).Spares cause := by
  intro s failure t fails
  cases fails
  exact differs

theorem Spares.bind {action : Action α} {next : α → Action β} (first : action.Spares cause)
    (second : ∀ a, (next a).Spares cause) : (action >>= next).Spares cause := by
  intro s failure t fails
  simp only [Bind.bind, EStateM.bind] at fails
  cases ends : action s with
  | ok a u =>
    rw [ends] at fails
    exact second a u failure t fails
  | error stop u =>
    rw [ends] at fails
    cases fails
    exact first s failure _ ends

theorem Spares.get_bind {next : Session → Action α} (second : ∀ s, (next s).Spares cause) :
    (get >>= next).Spares cause := fun s => second s s

theorem Spares.bracket {outer inner : Action α} {inside : Session} {leave : Session → Session}
    (spares : inner.Spares cause) (is : outer s = Action.bracket inside leave inner)
    (failure : Failure) (t : Session) (fails : outer s = .error (.failure failure) t) :
    failure.cause ≠ cause := by
  rw [is, Action.bracket] at fails
  cases ends : inner inside with
  | ok =>
    rw [ends] at fails
    cases fails
  | error stop =>
    rw [ends] at fails
    cases fails
    exact spares _ _ _ ends

theorem Spares.holding {action : Action α} (spares : action.Spares cause) (x : Object) :
    (holding x action).Spares cause := fun _ => spares.bracket rfl

theorem Spares.tracing {action : Action α} (spares : action.Spares cause) :
    (tracing action).Spares cause := by
  intro s failure t fails
  simp only [Delegation.tracing] at fails
  cases ends : action s with
  | ok =>
    rw [ends] at fails
    cases fails
  | error stop =>
    rw [ends] at fails
    cases stop with
    | failure =>
      cases fails
      rw [Heap.cause_attachTrace]
      exact spares _ _ _ ends
    | malformed | exhausted => cases fails

section Frames

variable {action : Action α} (spares : action.Spares cause)
  (shallow : ∀ limit, .depthExceeded limit ≠ cause)

include spares shallow

theorem Spares.withFrame (frame : Frame) : (withFrame frame action).Spares cause := by
  intro s
  cases pushed : s.machine.stack.push frame with
  | error full =>
    obtain ⟨limit, -, -, is⟩ := CallStack.push_eq_error_iff.1 pushed
    intro failure t fails
    simp only [Delegation.withFrame, enterFrame, pushFrame, pushed] at fails
    cases fails
    rw [is]
    exact shallow limit
  | ok stack =>
    have is : Delegation.withFrame frame action s =
        Action.bracket { s with machine := { s.machine with stack } } Session.popFrame
          (Delegation.tracing action) := by
      simp only [Delegation.withFrame, enterFrame, pushFrame, pushed]
      rfl
    exact spares.tracing.bracket is

theorem Spares.withScope (x : ScopeId) : (withScope x action).Spares cause := by
  have shadowed : (shadowing x action).Spares cause := fun _ => spares.bracket rfl
  intro s
  unfold Delegation.withScope
  split
  · exact shadowed.withFrame shallow _ s
  · exact shadowed s

end Frames

end Action

/-! ## Calls whose bodies do nothing -/

/-- Why a call can fail before its body begins, even if there is a receiver. -/
def Cause.isRefusal : Cause → Bool
  | .arityMismatch .. | .depthExceeded .. | .budgetExceeded .. => true
  | _ => false

section Refusals

variable {cause : Cause} (other : cause.isRefusal = false)

include other

theorem depthExceeded_ne (limit : Nat) : Cause.depthExceeded limit ≠ cause := by
  rintro rfl
  cases other

theorem countCall_spares (kind : BindingKind) : (countCall kind).Spares cause := by
  refine .bind (Action.spares_ok fun s => ⟨_, _, rfl⟩) fun _ => .get_bind fun s => ?_
  unfold Machine.overBudget?
  cases s.machine.mode.callBudget with
  | none => exact Action.spares_ok fun s => ⟨_, _, rfl⟩
  | some budget =>
    dsimp only
    split
    · exact Action.spares_ok fun s => ⟨_, _, rfl⟩
    · next exceeded =>
      split at exceeded
      · cases exceeded
        refine Action.spares_fail ?_
        rintro rfl
        cases other
      · cases exceeded

theorem Callable.invoke_spares (callable : Callable) (args : List Value) :
    (callable.invoke (fun _ => pure .void) args).Spares cause := by
  by_cases enough : args.length = callable.arity
  · rw [callable.invoke_eq _ enough]
    refine .bind (Action.spares_ok fun s => ⟨_, _, rfl⟩) fun x => ?_
    exact (Action.spares_ok fun s => ⟨_, _, rfl⟩).withScope (depthExceeded_ne other) x
  · unfold Callable.invoke
    rw [if_pos enough]
    refine Action.spares_fail ?_
    rintro rfl
    cases other

theorem callMethod_spares (callable : Callable) (owner : EntityId) (args : List Value) :
    (callMethod (fun _ => pure .void) callable owner args).Spares cause := by
  refine .holding (.get_bind fun s => .bind (Action.spares_ok fun s => ⟨_, _, rfl⟩) fun x => ?_) _
  have inside := (callable.invoke_spares other args).withScope (depthExceeded_ne other) x
  exact inside.withFrame (depthExceeded_ne other) _

end Refusals

/-- A call whose body does nothing never fails for a name: what can go wrong before a body begins
has other causes. -/
theorem BindingId.call_spares (b : BindingId) (args : List Value) (name : String) :
    (b.call (fun _ => pure .void) args).Spares (.unknownSymbol name) := by
  have framed (callable : Callable) (frame : Frame) :
      (withFrame frame (callable.invoke (fun _ => pure .void) args)).Spares
        (.unknownSymbol name) :=
    (callable.invoke_spares rfl args).withFrame (depthExceeded_ne rfl) frame
  refine .holding (.get_bind fun s => .bind (countCall_spares rfl _) fun _ => ?_) _
  split
  · exact .get_bind fun s => framed _ _
  · exact callMethod_spares rfl _ _ args
  · refine .get_bind fun s => ?_
    split
    · exact callMethod_spares rfl _ _ args
    · exact Action.spares_fail nofun
  · exact framed _ _

theorem Cell.read_spares (cell : Cell) (name : String) :
    (cell.read fun _ => pure .void).Spares (.unknownSymbol name) := by
  cases cell with
  | mutable | constant => exact Action.spares_ok fun s => ⟨_, _, rfl⟩
  | computed getter => exact getter.call_spares [] name

theorem Cell.write_spares (cell : Cell) (x : ScopeId) (name : String) (v : Value) :
    (cell.write (fun _ => pure .void) x name v).Spares (.unknownSymbol name) := by
  cases cell with
  | mutable => exact Action.spares_ok fun s => ⟨_, _, rfl⟩
  | constant => exact Action.spares_fail nofun
  | computed getter setter =>
    cases setter with
    | none => exact Action.spares_fail nofun
    | some setter =>
      exact (setter.call_spares [v] name).bind fun _ => Action.spares_ok fun s => ⟨_, _, rfl⟩

/-- What does not fail for the name while bodies do nothing is not ignorant of it. -/
theorem Action.Spares.not_ignorant {action : Runner → Action α} {same : Action α}
    (spares : same.Spares (.unknownSymbol name)) (is : action (fun _ => pure .void) s = same s) :
    ¬s.Ignorant name action :=
  fun ignorant => spares s _ s (is.symm.trans (ignorant _)) rfl

/-! ## Scopes -/

namespace Session

theorem Reached.ordered {built : List EntityId} (reached : Reached built s) : s.heap.Ordered := by
  induction reached with
  | start => exact Program.step_founded.ordered Heap.sound_empty Heap.ordered_empty
  | build before superKnown typeKnown builds ordered =>
    obtain ⟨free, rfl⟩ := buildEntity_eq_ok builds
    exact ordered.addEntity before.sound.heap _ superKnown free
  | other before step _ ordered =>
    rcases step.heap with same | step
    · exact same ▸ ordered
    · exact step.ordered before.sound.heap ordered

theorem Reachable.ordered (reachable : s.Reachable) : s.heap.Ordered := by
  obtain ⟨_, reached⟩ := reachable
  exact reached.ordered

end Session

/-- A value has been stored in a cell, and nothing else has changed. -/
structure Session.Stores (s : Session) (x : ScopeId) (name : String) (v : Value) (t : Session) :
    Prop where
  rest : t = { s with heap := t.heap }
  entities : t.heap.entities = s.heap.entities
  bindings : t.heap.bindings = s.heap.bindings
  scopes : t.heap.scopes.size = s.heap.scopes.size
  others : ∀ y, y ≠ x → t.heap.scope y = s.heap.scope y
  frame : (t.heap.scope x).policy = (s.heap.scope x).policy ∧
    (t.heap.scope x).lineage = (s.heap.scope x).lineage ∧
    (t.heap.scope x).symbols = (s.heap.scope x).symbols ∧
    (t.heap.scope x).isSealed = (s.heap.scope x).isSealed
  cells : ∀ other, (t.heap.scope x).cell? other =
    if other = name then some (.mutable v) else (s.heap.scope x).cell? other

/-- A name leads from a scope to a cell in a table, which decides about all that the name is used
for. -/
structure Session.LeadsTo (s : Session) (x : ScopeId) (name : String) (y : ScopeId) (cell : Cell) :
    Prop where
  contains : s.heap.contains x name = true
  kind : s.heap.cellKind? x name = some cell.kind
  get : ∀ run, x.get run name s = cell.read run s
  set : ∀ run v, x.set run name v s = cell.write run y name v s
  mutable : cell.kind = .mutable → ∀ v, ∃ t, (∀ run, x.set run name v s = .ok () t) ∧
    s.Stores y name v t ∧
    ∀ z path, s.heap.Has (.scope z) → s.heap.Ascends z path → s.heap.First path name y cell →
      ∀ run, z.get run name t = .ok v t
  fixed : cell.kind = .constant ∨ cell.kind = .readOnlyComputed → ∀ run v,
    x.set run name v s = .error (.failure (.ofCause (.constantAssignment name))) s
  setter : ∀ getter setter, cell = .computed getter (some setter) → ∀ run v,
    x.set run name v s = (setter.call run [v] >>= fun _ => pure ()) s

/-- A name leads nowhere from a scope. -/
structure Session.LeadsNowhere (s : Session) (x : ScopeId) (name : String) : Prop where
  contains : s.heap.contains x name = false
  kind : s.heap.cellKind? x name = none
  get : s.Ignorant name fun run => x.get run name
  set : ∀ v, s.Ignorant name fun run => x.set run name v

namespace Session

theorem stores_modifyScope (has : s.heap.Has (.scope x))
    (found : (s.heap.scope x).cell? name = some cell) (v : Value) :
    s.Stores x name v { s with heap := s.heap.modifyScope x (·.store name v) } where
  rest := rfl
  entities := rfl
  bindings := rfl
  scopes := Array.size_modify
  others y other := Heap.scope_modifyScope_of_ne s.heap _ other
  frame := by
    rw [Heap.scope_modifyScope has, if_pos rfl]
    exact ⟨rfl, rfl, Scope.symbols_store _ _ _, rfl⟩
  cells other := by
    rw [Heap.scope_modifyScope has, if_pos rfl, Scope.cell?_store, found]
    rfl

theorem leadsTo_of_first (reachable : s.Reachable) (has : s.heap.Has (.scope x))
    (first : s.heap.First (s.heap.path x) name y cell) : s.LeadsTo x name y cell := by
  have leads : s.heap.resolve x name = some (y, cell) := Heap.first?_eq_some_iff.2 first
  have get (run : Runner) : x.get run name s = cell.read run s :=
    (x.get_eq run name s).trans (readIn_of_first run first)
  have set (run : Runner) (v : Value) : x.set run name v s = cell.write run y name v s :=
    (x.set_eq run name v s).trans (writeIn_of_first run first)
  refine ⟨?_, ?_, get, set, fun is v => ?_, fun is run v => ?_, fun getter setter is run v => ?_⟩
  · rw [Heap.contains_eq_isSome_resolve, leads]
    rfl
  · rw [Heap.cellKind?_eq_map_resolve, leads]
    rfl
  · cases cell with
    | mutable old =>
      have yHas : s.heap.Has (.scope y) := by
        obtain ⟨before, after, is, -⟩ := first.place
        exact reachable.sound.heap.has_path has (is ▸ List.mem_append_right _ List.mem_cons_self)
      refine ⟨_, fun run => set run v, stores_modifyScope yHas first.declares v,
        fun z path zHas walk found run => ?_⟩
      rw [reachable.ordered.path_eq zHas walk] at found
      exact (Route.scope z).get_of_store yHas (Heap.first?_eq_some_iff.2 found) v run
    | constant => cases is
    | computed getter setter => cases setter <;> cases is
  · rw [set]
    cases cell with
    | mutable => rcases is with is | is <;> cases is
    | constant => rfl
    | computed getter setter =>
      cases setter with
      | none => rfl
      | some => rcases is with is | is <;> cases is
  · rw [set, is]
    rfl

theorem leadsNowhere_of_lacks (lacks : s.heap.Lacks (s.heap.path x) name) :
    s.LeadsNowhere x name := by
  have leads : s.heap.resolve x name = none := Heap.first?_eq_none_iff.2 lacks
  refine ⟨?_, ?_, fun run => ?_, fun v run => ?_⟩
  · rw [Heap.contains_eq_isSome_resolve, leads]
    rfl
  · rw [Heap.cellKind?_eq_map_resolve, leads]
    rfl
  · exact (x.get_eq run name s).trans (readIn_of_lacks lacks run)
  · exact (x.set_eq run name v s).trans (writeIn_of_lacks lacks run)

/-- From a scope leads one way, through older and older scopes, and the first of them that declares
a name decides: whether the name is there, what kind its cell is of, and what reading and assigning
come to. A name that none declares is unknown, and only such a name is. -/
theorem resolution (reachable : s.Reachable) (has : s.heap.Has (.scope x)) (name : String) :
    ∃ path, s.heap.Ascends x path ∧ (∀ other, s.heap.Ascends x other → other = path) ∧
      path.Pairwise (fun y z => z.index < y.index) ∧
      ((∃ y cell, s.heap.First path name y cell ∧ s.LeadsTo x name y cell) ∨
        s.heap.Lacks path name ∧ s.LeadsNowhere x name) ∧
      (s.heap.contains x name = true ↔ (s.heap.cellKind? x name).isSome = true) ∧
      (s.heap.contains x name = true ↔ ¬s.Ignorant name fun run => x.get run name) ∧
      ∀ v, s.heap.contains x name = true ↔ ¬s.Ignorant name fun run => x.set run name v := by
  obtain ⟨walk, aging⟩ := reachable.ordered.path has
  refine ⟨s.heap.path x, walk, fun other => reachable.ordered.path_eq has, aging, ?_⟩
  rcases s.heap.first_or_lacks (s.heap.path x) name with ⟨y, cell, first⟩ | lacks
  · have leads := leadsTo_of_first reachable has first
    refine ⟨.inl ⟨y, cell, first, leads⟩, ?_, ?_, fun v => ?_⟩
    · simp [leads.contains, leads.kind]
    · have known : ¬s.Ignorant name fun run => x.get run name :=
        (cell.read_spares name).not_ignorant (leads.get _)
      simp [leads.contains, known]
    · have known : ¬s.Ignorant name fun run => x.set run name v :=
        (cell.write_spares y name v).not_ignorant (leads.set _ v)
      simp [leads.contains, known]
  · have nowhere := leadsNowhere_of_lacks lacks
    refine ⟨.inr ⟨lacks, nowhere⟩, ?_, ?_, fun v => ?_⟩
    · simp [nowhere.contains, nowhere.kind]
    · simp [nowhere.contains, nowhere.get]
    · simp [nowhere.contains, nowhere.set v]

/-- A name that a scope has from its parent. -/
theorem resolution_of_child :
    let s := (Program.runSteps
      [.bind "p" (.apply (.command (.table .scope)) [.str "identifier"]),
        .apply (.command (.table .declare))
          [.var "p", .str "n", .apply (.query (.table .mutable)) [.int 1]],
        .bind "c" (.apply (.command (.table .child)) [.var "p", .str "identifier"])]).after
          (Program.ready {})
    s.Reachable ∧ s.heap.Has (.scope ⟨2⟩) ∧ s.heap.Ascends ⟨2⟩ [⟨2⟩, ⟨1⟩] ∧
      s.LeadsTo ⟨2⟩ "n" ⟨1⟩ (.mutable (.int 1)) := by
  let steps : List Expr :=
    [.bind "p" (.apply (.command (.table .scope)) [.str "identifier"]),
      .apply (.command (.table .declare))
        [.var "p", .str "n", .apply (.query (.table .mutable)) [.int 1]],
      .bind "c" (.apply (.command (.table .child)) [.var "p", .str "identifier"])]
  intro s
  have reachable : s.Reachable := Program.reachable_runSteps {} steps
  have facts : 2 < s.heap.scopes.size ∧ s.heap.path ⟨2⟩ = [⟨2⟩, ⟨1⟩] ∧
      s.heap.first? [⟨2⟩, ⟨1⟩] "n" = some (⟨1⟩, .mutable (.int 1)) := by decide +kernel
  obtain ⟨has, line, found⟩ := facts
  obtain ⟨path, walk, only, -, leads, -⟩ := resolution reachable has "n"
  have is : [⟨2⟩, ⟨1⟩] = path := line ▸ only _ (reachable.ordered.path has).1
  rw [← is] at walk leads
  refine ⟨reachable, has, walk, ?_⟩
  rcases leads with ⟨y, cell, first, leads⟩ | ⟨lacks, -⟩
  · have same := found.symm.trans (Heap.first?_eq_some_iff.2 first)
    cases same
    exact leads
  · rw [Heap.first?_eq_none_iff.2 lacks] at found
    cases found

end Session

end Delegation
