import Delegation.Proofs.Grammar
import Delegation.Proofs.Heap.Tables
import Delegation.Proofs.Parameters
import Delegation.Proofs.Reachability
import Delegation.Query.Table
import Mathlib.Data.Finmap

/-!
# Tables and their histories

The history of a session is the list of what has happened to its tables: a cell has been declared,
or the value of a mutable one replaced. Whatever else happens to a session leaves all cells alone. A
catalogue keeps a table twice, its cells in a map without an order and its names in a list, and
replays a history entry by entry.

Replayed up to a session that is reached, the catalogue of every scope agrees with the scope: the
names of the scope are those of its declarations, in their order, and each once, since no name is
declared twice. They are of the grammar of the scope, so what an entity is found to have as a
member or a field is an identifier, and what it is found to support is a hook.
-/

namespace Delegation

/-- What happens to the cells of a scope. -/
inductive Change where
  | declared (x : ScopeId) (name : String) (cell : Cell)
  | stored (x : ScopeId) (name : String) (value : Value)

/-- The names declared in a scope, in the order of their declarations. -/
def Change.namesIn (x : ScopeId) (history : List Change) : List String :=
  history.filterMap fun
    | .declared y name _ => if y = x then some name else none
    | .stored .. => none

/-! ## Catalogues -/

/-- A table that is kept twice: the cells under their names, and the names in the order of their
declaration. -/
structure Catalogue where
  cells : Finmap fun _ : String => Cell := ∅
  order : List String := []

namespace Catalogue

def declare (catalogue : Catalogue) (name : String) (cell : Cell) : Catalogue :=
  ⟨catalogue.cells.insert name cell, catalogue.order ++ [name]⟩

def store (catalogue : Catalogue) (name : String) (value : Value) : Catalogue :=
  { catalogue with cells := catalogue.cells.insert name (.mutable value) }

/-- What a change means for the catalogue of a scope. -/
def record (x : ScopeId) (catalogue : Catalogue) : Change → Catalogue
  | .declared y name cell => if y = x then catalogue.declare name cell else catalogue
  | .stored y name value => if y = x then catalogue.store name value else catalogue

/-- The catalogue of a scope after a history. -/
def replay (x : ScopeId) (history : List Change) : Catalogue := history.foldl (record x) {}

/-- A catalogue and a scope hold the same cells and list the same names. -/
structure Lists (catalogue : Catalogue) (scope : Scope) : Prop where
  cells : ∀ name, catalogue.cells.lookup name = scope.cell? name
  order : catalogue.order = scope.symbols

theorem lists_of_empty {scope : Scope} (empty : scope.cells = []) : Lists {} scope where
  cells name := by rw [Finmap.lookup_empty, Scope.cell?, empty, List.lookup_nil]
  order := by rw [Scope.symbols, empty, List.map_nil]

theorem order_replay (x : ScopeId) (history : List Change) :
    (replay x history).order = Change.namesIn x history := by
  induction history using List.reverseRecOn with
  | nil => rfl
  | append_singleton before change ih =>
    rw [replay, List.foldl_append, ← replay, Change.namesIn, List.filterMap_append,
      ← Change.namesIn, ← ih]
    cases change with
    | declared y name cell =>
      by_cases here : y = x <;> simp [record, here, declare]
    | stored y name value =>
      by_cases here : y = x <;> simp [record, here, store]

namespace Lists

variable {catalogue : Catalogue} {scope after : Scope} (lists : catalogue.Lists scope)
include lists

theorem of_cells (same : after.cells = scope.cells) : catalogue.Lists after where
  cells name := by rw [lists.cells, Scope.cell?, Scope.cell?, same]
  order := by rw [lists.order, Scope.symbols, Scope.symbols, same]

theorem declare {name : String} {cell : Cell} (declared : scope.declare name cell = .ok after) :
    (catalogue.declare name cell).Lists after where
  cells other := by
    rw [Scope.cell?_of_declare declared]
    by_cases same : other = name
    · rw [if_pos same, same]
      exact Finmap.lookup_insert _
    · rw [if_neg same, ← lists.cells other]
      exact Finmap.lookup_insert_of_ne _ same
  order := by rw [Scope.symbols_of_declare declared, ← lists.order]; rfl

theorem store {name : String} {old : Value} (found : scope.cell? name = some (.mutable old))
    (v : Value) : (catalogue.store name v).Lists (scope.store name v) where
  cells other := by
    rw [Scope.cell?_store]
    by_cases same : other = name
    · rw [if_pos same, found, same]
      exact Finmap.lookup_insert _
    · rw [if_neg same, ← lists.cells other]
      exact Finmap.lookup_insert_of_ne _ same
  order := by rw [Scope.symbols_store]; exact lists.order

theorem declareAll (x : ScopeId) {entries : List (String × Cell)}
    (declared : scope.declareAll entries = .ok after) :
    ((entries.map fun entry => Change.declared x entry.1 entry.2).foldl (record x)
      catalogue).Lists after := by
  induction entries generalizing catalogue scope with
  | nil =>
    cases declared
    exact lists
  | cons entry rest ih =>
    obtain ⟨name, cell⟩ := entry
    rw [Scope.declareAll] at declared
    cases first : scope.declare name cell with
    | error cause =>
      rw [first] at declared
      cases declared
    | ok middle =>
      rw [first] at declared
      have here : record x catalogue (.declared x name cell) = catalogue.declare name cell :=
        if_pos rfl
      rw [List.map_cons, List.foldl_cons, here]
      exact ih (lists.declare first) declared

/-- The map holds as many cells as the scope, under the names of the scope. -/
theorem card_keys (distinct : scope.symbols.Nodup) :
    catalogue.cells.keys.card = scope.cells.length := by
  have keys : catalogue.cells.keys = scope.symbols.toFinset := by
    ext name
    rw [Finmap.mem_keys, ← Finmap.lookup_isSome, lists.cells, List.mem_toFinset,
      ← Scope.declares_iff, Scope.declares]
  rw [keys, List.toFinset_card_of_nodup distinct, Scope.symbols, List.length_map]

end Lists

theorem foldl_record_of_ne {x y : ScopeId} (other : x ≠ y) (catalogue : Catalogue)
    (entries : List (String × Cell)) :
    (entries.map fun entry => Change.declared x entry.1 entry.2).foldl (record y) catalogue =
      catalogue := by
  induction entries with
  | nil => rfl
  | cons entry rest ih =>
    have kept : record y catalogue (.declared x entry.1 entry.2) = catalogue := if_neg other
    rw [List.map_cons, List.foldl_cons, kept]
    exact ih

end Catalogue

/-! ## Histories -/

theorem Heap.Admits.declareAll {heap : Heap} {scope : Scope} (admitted : heap.Admits scope) :
    ∃ parent : Option ScopeId,
      (heap.emptyScope parent scope.policy).declareAll scope.cells =
        .ok { scope with isSealed := false } := by
  obtain ⟨parent, line⟩ := admitted.lineage
  have declares : (heap.emptyScope parent scope.policy).declareAll scope.cells = _ :=
    Scope.declareAll_eq_ok (fun entry place => admitted.accepted _ (List.mem_map_of_mem place)) rfl
      (fun _ _ => List.not_mem_nil) admitted.distinct
  refine ⟨parent, declares.trans ?_⟩
  obtain ⟨policy, lineage, cells, isSealed⟩ := scope
  exact congrArg (fun lineage => Except.ok (Scope.mk policy lineage cells false)) line.symm

namespace Session

/-- The sessions that are reached in steps from the first one, with what has happened to their
tables, the latest change last. -/
inductive Recorded : List Change → Session → Prop
  | start : Recorded [] Program.founded
  | declared {history : List Change} {s t : Session} {x : ScopeId} {name : String} {cell : Cell}
      {scope : Scope} (before : Recorded history s) (step : Step s t) (has : s.heap.Has (.scope x))
      (declares : (s.heap.scope x).declare name cell = .ok scope)
      (heap : t.heap = s.heap.setScope x scope) :
      Recorded (history ++ [.declared x name cell]) t
  | stored {history : List Change} {s t : Session} {x : ScopeId} {name : String} {v old : Value}
      (before : Recorded history s) (step : Step s t) (has : s.heap.Has (.scope x))
      (found : (s.heap.scope x).cell? name = some (.mutable old))
      (heap : t.heap = s.heap.modifyScope x (·.store name v)) :
      Recorded (history ++ [.stored x name v]) t
  /-- A scope is made: all it holds has been declared in it, one cell after the other. -/
  | made {history : List Change} {s t : Session} {parent : Option ScopeId} {scope : Scope}
      (before : Recorded history s) (step : Step s t)
      (declares : (s.heap.emptyScope parent scope.policy).declareAll scope.cells =
        .ok { scope with isSealed := false })
      (heap : t.heap = (s.heap.addScope scope).2) :
      Recorded (history ++ scope.cells.map fun entry =>
        .declared (s.heap.addScope scope).1 entry.1 entry.2) t
  | other {history : List Change} {s t : Session} (before : Recorded history s) (step : Step s t)
      (cells : ∀ x, (t.heap.scope x).cells = (s.heap.scope x).cells) : Recorded history t

variable {history : List Change} {s t : Session}

theorem Recorded.reachable (recorded : Recorded history s) : s.Reachable := by
  induction recorded with
  | start => exact ⟨[], .start⟩
  | declared _ step _ _ _ ih | stored _ step _ _ _ ih | made _ step _ _ ih | other _ step _ ih =>
    exact ih.later (.single step)

theorem Recorded.step (recorded : Recorded history s) (step : Step s t) :
    ∃ more, Recorded (history ++ more) t := by
  have other (cells : ∀ x, (t.heap.scope x).cells = (s.heap.scope x).cells) :
      ∃ more, Recorded (history ++ more) t :=
    ⟨[], by rw [List.append_nil]; exact .other recorded step cells⟩
  rcases step.heap with same | heapStep
  · exact other fun x => by rw [same]
  generalize after : t.heap = heap at heapStep
  cases heapStep with
  | addScope admitted =>
    obtain ⟨parent, declares⟩ := admitted.declareAll
    exact ⟨_, .made recorded step declares after⟩
  | addBinding => exact other fun x => by rw [after]; rfl
  | @addEntity super type name superKnown _ _ =>
    refine other fun x => ?_
    have none (new : s.heap.scopes.size ≤ x.index) : [] = (s.heap.scope x).cells :=
      (Heap.cells_of_not_has (Nat.not_lt_of_le new)).symm
    rw [after, recorded.reachable.sound.heap.scope_addEntity name superKnown]
    split
    · exact none (by omega)
    · split
      · exact none (by omega)
      · split
        · exact none (by omega)
        · rfl
  | declare known _ declared => exact ⟨_, .declared recorded step known declared after⟩
  | store known _ found => exact ⟨_, .stored recorded step known found after⟩
  | @close y known =>
    refine other fun x => ?_
    rw [after, Heap.scope_modifyScope known]
    split
    · next same => rw [same]; rfl
    · rfl

theorem Recorded.later (recorded : Recorded history s) (later : Later s t) :
    ∃ more, Recorded (history ++ more) t := by
  induction later with
  | refl => exact ⟨[], by rwa [List.append_nil]⟩
  | tail _ step ih =>
    obtain ⟨more, before⟩ := ih
    obtain ⟨further, after⟩ := before.step step
    exact ⟨more ++ further, by rwa [← List.append_assoc]⟩

theorem Reachable.recorded (reachable : s.Reachable) : ∃ history, Recorded history s := by
  obtain ⟨built, reached⟩ := reachable
  induction reached with
  | start => exact ⟨[], .start⟩
  | @build built s t super type name _ before superKnown typeKnown builds ih =>
    obtain ⟨history, recorded⟩ := ih
    obtain ⟨free, rfl⟩ := buildEntity_eq_ok builds
    have step : Heap.Step (fun frame => frame = s.machine.currentFrame) s.heap
        (s.heap.addEntity super type name).2 := .addEntity name superKnown typeKnown free
    obtain ⟨more, after⟩ := recorded.step
      ⟨.inr step, before.sound.toGrounded.grow step.grows⟩
    exact ⟨_, after⟩
  | other before step _ ih =>
    obtain ⟨history, recorded⟩ := ih
    obtain ⟨more, after⟩ := recorded.step step
    exact ⟨_, after⟩

/-- The catalogue that replays the history of a session agrees with the scope it is kept for. -/
theorem Recorded.lists (recorded : Recorded history s) (x : ScopeId) :
    (Catalogue.replay x history).Lists (s.heap.scope x) := by
  induction recorded with
  | start =>
    by_cases first : x.index = 0
    · obtain ⟨_⟩ := x
      cases first
      exact Catalogue.lists_of_empty rfl
    · refine Catalogue.lists_of_empty (Heap.cells_of_not_has fun has => first ?_)
      exact Nat.lt_one_iff.1 has
  | @declared history s t y name cell scope _ _ has declares heap ih =>
    rw [Catalogue.replay, List.foldl_append, ← Catalogue.replay, heap, Heap.scope_setScope has]
    by_cases here : x = y
    · subst here
      rw [if_pos rfl, List.foldl_cons, Catalogue.record, if_pos rfl]
      exact ih.declare declares
    · rw [if_neg here, List.foldl_cons, Catalogue.record, if_neg (Ne.symm here)]
      exact ih
  | @stored history s t y name v old _ _ has found heap ih =>
    rw [Catalogue.replay, List.foldl_append, ← Catalogue.replay, heap, Heap.scope_modifyScope has]
    by_cases here : x = y
    · subst here
      rw [if_pos rfl, List.foldl_cons, Catalogue.record, if_pos rfl]
      exact ih.store found v
    · rw [if_neg here, List.foldl_cons, Catalogue.record, if_neg (Ne.symm here)]
      exact ih
  | @made history s t parent scope _ _ declares heap ih =>
    rw [Catalogue.replay, List.foldl_append, ← Catalogue.replay, heap]
    by_cases here : x = (s.heap.addScope scope).1
    · subst here
      have fresh : (s.heap.scope (s.heap.addScope scope).1).cells = [] :=
        Heap.cells_of_not_has (Nat.lt_irrefl _)
      rw [Heap.scope_addScope]
      have empty : (Catalogue.replay (s.heap.addScope scope).1 history).Lists
          (s.heap.emptyScope parent scope.policy) := ih.of_cells fresh.symm
      exact (empty.declareAll _ declares).of_cells rfl
    · rw [Catalogue.foldl_record_of_ne (Ne.symm here)]
      by_cases old : x.index < s.heap.scopes.size
      · rw [Heap.scope_addScope_of_lt scope old]
        exact ih
      · refine ih.of_cells ?_
        rw [Heap.cells_of_not_has old, Heap.cells_of_not_has]
        intro has
        obtain ⟨i⟩ := x
        simp only [Heap.Has, Heap.addScope, Array.size_push, ScopeId.mk.injEq] at has here old
        omega
  | other _ _ cells ih => exact ih.of_cells (cells x)

theorem Reached.tidy {built : List EntityId} (reached : Reached built s) : s.heap.Tidy := by
  induction reached with
  | start => exact Program.step_founded.tidy Heap.sound_empty Heap.tidy_empty
  | build before superKnown typeKnown builds tidy =>
    obtain ⟨free, rfl⟩ := buildEntity_eq_ok builds
    exact tidy.addEntity before.sound.heap _ superKnown free
  | other before step _ tidy =>
    rcases step.heap with same | step
    · exact same ▸ tidy
    · exact step.tidy before.sound.heap tidy

theorem Reachable.tidy (reachable : s.Reachable) : s.heap.Tidy := by
  obtain ⟨_, reached⟩ := reachable
  exact reached.tidy

/-! ## Scopes of sessions that are reached -/

/-- The names of a scope are those of a list, in this order, and all that is asked of the scope
itself is answered from the list. -/
structure Tabulates (s : Session) (x : ScopeId) (names : List String) : Prop where
  symbols : (s.heap.scope x).symbols = names
  distinct : names.Nodup
  declares : ∀ name, (s.heap.scope x).declares name = true ↔ name ∈ names
  accepted : ∀ name ∈ names, (s.heap.scope x).policy.accepts name = true
  listed : TableQuery.symbols.answer s [.scope x] = .ok (.ofTexts names)
  containsLocal : ∀ name,
    TableQuery.containsLocal.answer s [.scope x, .ofText name] = .ok (.ofBool (name ∈ names))
  len : TableQuery.len.answer s [.scope x] = .ok (.ofNat names.length)
  isEmpty : TableQuery.isEmpty.answer s [.scope x] = .ok (.ofBool (names.length = 0))

theorem tabulates_symbols {x : ScopeId} (tidy : (s.heap.scope x).Tidy) :
    s.Tabulates x (s.heap.scope x).symbols where
  symbols := rfl
  distinct := tidy.distinct
  declares _ := Scope.declares_iff
  accepted := tidy.accepted
  listed := rfl
  containsLocal name := by
    have declares : (s.heap.scope x).declares name = decide (name ∈ (s.heap.scope x).symbols) := by
      rw [Bool.eq_iff_iff, Scope.declares_iff, decide_eq_true_iff]
    exact congrArg (fun found => Except.ok (Object.ofBool found)) declares
  len := by
    rw [Scope.symbols, List.length_map]
    rfl
  isEmpty := by
    have empty : (s.heap.scope x).cells.isEmpty =
        decide ((s.heap.scope x).symbols.length = 0) := by
      rw [Scope.symbols, List.length_map, Bool.eq_iff_iff, decide_eq_true_iff,
        List.isEmpty_iff_length_eq_zero]
    exact congrArg (fun none => Except.ok (Object.ofBool none)) empty

/-- Every scope lists the names that have been declared in it, in their order and each once, and
what is kept of it twice agrees; all of them are of its grammar. So are the names that entities are
found to have, and none of them is both a member and a hook. -/
theorem tables_of_history (reachable : s.Reachable) :
    (∃ history, Recorded history s) ∧
    (∀ history, Recorded history s →
      (∀ t, Later s t → ∃ more, Recorded (history ++ more) t) ∧
      ∀ x, s.Tabulates x (Change.namesIn x history) ∧
        (Catalogue.replay x history).order = Change.namesIn x history ∧
        (∀ name, (Catalogue.replay x history).cells.lookup name = (s.heap.scope x).cell? name) ∧
        (Catalogue.replay x history).cells.keys.card = (Change.namesIn x history).length) ∧
    ∀ e, s.heap.Has (.entity e) → ∀ name,
      (s.heap.hasMember e name = true → Identifier name) ∧
      (s.heap.contains (s.heap.entity e).fields name = true → Identifier name) ∧
      (s.heap.supportsHook e name = true → Hook name) ∧
      ¬((s.heap.hasMember e name = true ∨
          s.heap.contains (s.heap.entity e).fields name = true) ∧
        s.heap.supportsHook e name = true) := by
  have tidy := reachable.tidy
  have sound := reachable.sound.heap
  refine ⟨reachable.recorded, fun history recorded => ⟨fun t => recorded.later, fun x => ?_⟩,
    fun e has name => ?_⟩
  · have lists := recorded.lists x
    have order := Catalogue.order_replay x history
    have names : (s.heap.scope x).symbols = Change.namesIn x history := lists.order.symm.trans order
    have tabulates := tabulates_symbols (tidy.scope x)
    refine ⟨names ▸ tabulates, order, lists.cells, ?_⟩
    rw [lists.card_keys tabulates.distinct, ← names, Scope.symbols, List.length_map]
  · have member : s.heap.hasMember e name = true → isIdentifier name = true :=
      tidy.isIdentifier_of_hasMember sound has
    have field : s.heap.contains (s.heap.entity e).fields name = true → isIdentifier name = true :=
      tidy.isIdentifier_of_field sound has
    have hook : s.heap.supportsHook e name = true → isHook name = true :=
      tidy.isHook_of_supportsHook sound has
    refine ⟨fun found => (isIdentifier_iff name).1 (member found),
      fun found => (isIdentifier_iff name).1 (field found),
      fun found => (isHook_iff name).1 (hook found), ?_⟩
    rintro ⟨found, supported⟩
    exact not_isHook_of_isIdentifier (found.elim member field) (hook supported)

/-- Two layers; the members of the lower one are asked for through the upper one. -/
theorem tables_of_history_of_layers :
    let make (command : EntityCommand) (xs : List Expr) : Expr :=
      .apply (.command (.entity command)) xs
    let s := (Program.runSteps
      [.bind "e" (make .entity [.str "E"]),
        make .method [.var "e", .str "b", .nullary "b" [.int 1]],
        make .method [.var "e", .str "a", .nullary "a" [.int 2]],
        make .hook [.var "e", .str "+", .nullary "plus" [.int 3]],
        .bind "f" (make .entity [.str "F", .var "e"])]).after (Program.ready {})
    let table := (s.heap.entity ⟨0⟩).members
    s.Reachable ∧
      (∃ history, Recorded history s ∧ s.Tabulates table (Change.namesIn table history)) ∧
      (s.heap.scope table).symbols = ["b", "a"] ∧
      s.heap.hasMember ⟨1⟩ "a" = true ∧ Identifier "a" ∧
      s.heap.supportsHook ⟨1⟩ "+" = true ∧ Hook "+" := by
  intro make s table
  have reachable : s.Reachable := Program.reachable_runSteps {} _
  obtain ⟨has, symbols, member, hook⟩ : 1 < s.heap.entities.size ∧
      (s.heap.scope table).symbols = ["b", "a"] ∧
      s.heap.hasMember ⟨1⟩ "a" = true ∧ s.heap.supportsHook ⟨1⟩ "+" = true := by
    decide +kernel
  obtain ⟨⟨history, recorded⟩, tables, entities⟩ := tables_of_history reachable
  exact ⟨reachable, ⟨history, recorded, ((tables history recorded).2 _).1⟩, symbols, member,
    (entities ⟨1⟩ has "a").1 member, hook, (entities ⟨1⟩ has "+").2.2.1 hook⟩

end Session

end Delegation
