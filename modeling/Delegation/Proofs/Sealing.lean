import Delegation.Proofs.Construction
import Delegation.Proofs.Permanence

/-!
# Finished registries

A registry that is finished has a closed scope with constants only. No step changes such a scope:
declaring in it is refused, and there is no cell whose value could be replaced. So for good, and on
every machine that uses the registry, the scope holds the globals that have been registered, in the
order in which they were, and the types of the registry are found there under their own names.
-/

namespace Delegation

/-! ## Scopes that nothing changes -/

/-- A closed scope without mutable cells. -/
structure Scope.Frozen (scope : Scope) : Prop where
  closed : scope.isSealed = true
  constant : ∀ name v, scope.cell? name ≠ some (.mutable v)

namespace Heap

variable {captures : Frame → Prop} {heap after : Heap} {x : ScopeId}

theorem Step.scope_of_frozen (step : Step captures heap after) (has : heap.Has (.scope x))
    (frozen : (heap.scope x).Frozen) : after.scope x = heap.scope x := by
  cases step with
  | addScope => exact scope_addScope_of_lt _ has
  | addBinding => rfl
  | addEntity => exact scope_addEntity_of_lt _ _ _ has
  | @declare y _ _ _ known _ declared =>
    rw [scope_setScope known]
    split
    · next same =>
      subst same
      have isOpen := (Scope.declare_eq_ok_iff.1 declared).2.1
      rw [frozen.closed] at isOpen
      cases isOpen
    · rfl
  | @store y _ _ _ known _ found =>
    rw [scope_modifyScope known]
    split
    · next same =>
      subst same
      exact absurd found (frozen.constant _ _)
    · rfl
  | @close y known =>
    rw [scope_modifyScope known]
    split
    · next same =>
      subst same
      rw [Scope.close, ← frozen.closed]
    · rfl

/-- A frozen scope stays as it is for good. -/
theorem Later.scope_of_frozen (later : Later heap after) (has : heap.Has (.scope x))
    (frozen : (heap.scope x).Frozen) : after.scope x = heap.scope x := by
  induction later with
  | refl => rfl
  | tail before step ih =>
    rw [← ih]
    exact step.scope_of_frozen ((Later.grows before).has _ has) (ih ▸ frozen)

end Heap

/-! ## Finishing -/

namespace Registry

variable {registry registry' : Registry} {added refused : List Entry} {s t u : Session}
  {name : String} {v : Value}

theorem finish_eq (registry : Registry) (s : Session) : registry.finish s =
    .ok registry { s with heap := s.heap.modifyScope registry.scope Scope.close } := rfl

theorem cell?_constants {globals : List (String × Value)} {isSealed : Bool}
    (distinct : (globals.map Prod.fst).Nodup) (found : (name, v) ∈ globals) :
    Scope.cell? ⟨.identifier, [], constants globals, isSealed⟩ name = some (.constant v) := by
  have names : (constants globals).map Prod.fst = globals.map Prod.fst := by simp [constants]
  refine (lookup_eq_some_iff_mem (names ▸ distinct)).2 ?_
  exact List.mem_map.2 ⟨(name, v), found, rfl⟩

theorem frozen_constants (globals : List (String × Value)) :
    Scope.Frozen ⟨.identifier, [], constants globals, true⟩ := by
  refine ⟨rfl, fun name v found => ?_⟩
  obtain ⟨before, after, (is : constants globals = _), _⟩ := List.lookup_eq_some_iff.1 found
  have place : (name, .mutable v) ∈ constants globals := is ▸ List.mem_append_cons_self
  obtain ⟨global, _, same⟩ := List.mem_map.1 place
  cases same

/-- What a finished registry is, at any time: what has been added to it and nothing else. -/
structure Finished (registry : Registry) (added : List Entry) (u : Session) : Prop where
  /-- The scope holds the globals, each as a constant, in the order in which they were added. -/
  scope : u.heap.scope registry.scope = ⟨.identifier, [], constants (globals u.heap added), true⟩
  distinct : ((globals u.heap added).map Prod.fst).Nodup
  get : ∀ run name v, (name, v) ∈ globals u.heap added → registry.scope.get run name u = .ok v u
  /-- Nothing can be declared in the scope. -/
  declare : ∀ name cell, declare registry.scope name cell u =
    .error (.failure (.ofCause (if isIdentifier name = true then .sealedScope name
      else .invalidSymbol name .identifier))) u
  /-- Nothing can be assigned to a name in the scope. -/
  set : ∀ run name v, registry.scope.set run name v u =
    .error (.failure (.ofCause (if name ∈ (globals u.heap added).map Prod.fst
      then .constantAssignment name else .unknownSymbol name))) u
  /-- Nor can a global be assigned to by any other route. -/
  fixed : ∀ name v, (name, v) ∈ globals u.heap added → u.Fixed registry.scope name v
  type : ∀ name e, registry.type? name = some e ↔
    .type e ∈ added ∧ (u.heap.entity e).name = name
  cell : ∀ name e, registry.type? name = some e →
    (u.heap.scope registry.scope).cell? name = some (.constant (.entity e))

theorem mem_types_iff {heap : Heap} {e : EntityId} :
    (name, e) ∈ added.filterMap (Entry.type? heap) ↔
      .type e ∈ added ∧ (heap.entity e).name = name := by
  rw [List.mem_filterMap]
  constructor
  · rintro ⟨entry, place, is⟩
    cases entry with
    | type d =>
      cases is
      exact ⟨place, rfl⟩
    | value | method => cases is
  · rintro ⟨place, rfl⟩
    exact ⟨_, place, rfl⟩

theorem mem_globals_of_type {heap : Heap} {e : EntityId} (place : .type e ∈ added)
    (named : (heap.entity e).name = name) : (name, .entity e) ∈ globals heap added :=
  List.mem_filterMap.2 ⟨_, place, by rw [Entry.global?, named]⟩

theorem distinct_types {heap : Heap}
    (distinct : ((globals heap added).map Prod.fst).Nodup) :
    ((added.filterMap (Entry.type? heap)).map Prod.fst).Nodup := by
  refine distinct.sublist ?_
  rw [globals, List.map_filterMap, List.map_filterMap]
  induction added with
  | nil => exact .slnil
  | cons entry rest ih =>
    cases entry with
    | value name v => exact (ih (List.nodup_cons.1 distinct).2).cons _
    | type e => exact (ih (List.nodup_cons.1 distinct).2).cons_cons _
    | method name callable => exact ih distinct

theorem Tells.later_finish (tells : registry.Tells s added) :
    s.Later { s with heap := s.heap.modifyScope registry.scope Scope.close } := by
  have step : Heap.Step (fun frame => frame = s.machine.currentFrame) s.heap
      (s.heap.modifyScope registry.scope Scope.close) := .close (Heap.hasAll_cons.1 tells.known).1
  exact .single ⟨.inr step, (tells.reachable.sound.fit.step step).toGrounded⟩

/-- The scope of a finished registry has nothing but constants and is closed, so that it is frozen
and no later session has another. -/
theorem Tells.scope_of_later (tells : registry.Tells s added)
    (later : Session.Later { s with heap := s.heap.modifyScope registry.scope Scope.close } u) :
    u.heap.scope registry.scope =
      ⟨.identifier, [], constants (globals u.heap added), true⟩ := by
  have has := (Heap.hasAll_cons.1 tells.known).1
  have closes := tells.later_finish.heap.grows
  obtain ⟨sameGlobals, -⟩ := names_of_later (closes.trans later.heap.grows) tells.entries
  have closed : (s.heap.modifyScope registry.scope Scope.close).scope registry.scope =
      ⟨.identifier, [], constants (globals s.heap added), true⟩ := by
    rw [Heap.scope_modifyScope has, if_pos rfl, tells.scope]
    rfl
  have kept := later.heap.scope_of_frozen (closes.has _ has)
    (closed ▸ frozen_constants (globals s.heap added))
  rw [kept, sameGlobals]
  exact closed

theorem Tells.finished (tells : registry.Tells s added)
    (later : Session.Later { s with heap := s.heap.modifyScope registry.scope Scope.close } u) :
    registry.Finished added u := by
  have grows := tells.later_finish.heap.grows.trans later.heap.grows
  obtain ⟨sameGlobals, sameTypes⟩ := names_of_later grows tells.entries
  have scope := tells.scope_of_later later
  have distinct : ((globals u.heap added).map Prod.fst).Nodup := sameGlobals ▸ tells.distinct
  have uHas : u.heap.Has (.scope registry.scope) :=
    grows.has _ (Heap.hasAll_cons.1 tells.known).1
  have cell (name : String) (v : Value) (place : (name, v) ∈ globals u.heap added) :
      (u.heap.scope registry.scope).cell? name = some (.constant v) :=
    scope ▸ cell?_constants distinct place
  have leads (name : String) : u.heap.resolve registry.scope name =
      ((u.heap.scope registry.scope).cell? name).map (registry.scope, ·) := by
    simp only [Heap.resolve, Heap.path, scope, List.findSome?_cons, List.findSome?_nil]
    cases (Scope.cell? _ name).map (registry.scope, ·) <;> rfl
  have type (name : String) (e : EntityId) : registry.type? name = some e ↔
      .type e ∈ added ∧ (u.heap.entity e).name = name := by
    rw [Registry.type?, tells.types, ← sameTypes, lookup_eq_some_iff_mem (distinct_types distinct),
      mem_types_iff]
  refine ⟨scope, distinct, fun run name v place => ?_, fun name other => ?_, fun run name v => ?_,
    fun name v place => Session.fixed_of_constant uHas (cell name v place), type,
    fun name e found => ?_⟩
  · have found : u.heap.resolve registry.scope name = some (registry.scope, .constant v) := by
      rw [leads, cell name v place]
      rfl
    simp only [ScopeId.get, bind, EStateM.bind, Action.getThe_eq_ok, found]
    rfl
  · -- a name that is no identifier is refused before the scope is found to be closed
    apply declare_of_error
    rw [scope]
    by_cases spelled : isIdentifier name = true <;>
      simp [Scope.declare, Policy.accepts, spelled]
  · by_cases registered : name ∈ (globals u.heap added).map Prod.fst
    · obtain ⟨⟨_, w⟩, place, rfl⟩ := List.mem_map.1 registered
      rw [if_pos registered]
      apply ScopeId.set_of_constant (x := registry.scope) (v := w)
      rw [leads, cell _ w place]
      rfl
    · have absent : u.heap.resolve registry.scope name = none := by
        rw [leads, Option.map_eq_none_iff, ← Option.not_isSome_iff_eq_none, scope]
        rw [← symbols_constants .identifier [] _ true, ← Scope.declares_iff] at registered
        exact registered
      simp only [ScopeId.set, bind, EStateM.bind, Action.getThe_eq_ok, absent, if_neg registered]
      rfl
  · obtain ⟨place, named⟩ := (type name e).1 found
    exact cell name (.entity e) (mem_globals_of_type place named)

theorem finished_bootstrap (reachable : s.Reachable) (makes : bootstrap s = .ok registry t) :
    ∃ added, ∀ u, t.Later u → registry.Finished added u := by
  obtain ⟨added, u, constructed, finishes⟩ := constructed_bootstrap reachable makes
  cases finishes
  exact ⟨added, fun _ later => constructed.tells.finished later⟩

/-- A registry that has been finished holds what was added to it, the globals in its scope and the
types under their own names. Nothing that programs do afterwards changes it, on whatever machines
they run. -/
theorem coherence (constructed : Constructed added refused registry s)
    (finishes : registry.finish s = .ok registry' t) :
    registry' = registry ∧ t.Reachable ∧
      (∀ u, t.Later u → registry.Finished added u) ∧
      ∀ u, t.Later u → ∀ nesting e, t.Later ((eval (runBody nesting) e).after u) := by
  have tells := constructed.tells
  rw [finish_eq] at finishes
  cases finishes
  have reachable := tells.reachable.later tells.later_finish
  refine ⟨rfl, reachable, fun u later => tells.finished later, fun u later nesting e => ?_⟩
  have fit := (reachable.later later).sound.fit
  exact later.trans ((runs_eval (runs_runBody nesting) fit e (.inl rfl)).after.steps fit)

/-- A value, the same name again, and a type that is built in between. -/
theorem coherence_of_value_and_type :
    let value := Entry.value "a" (.int 1)
    let type := Entry.type ⟨0⟩
    let again := Entry.value "a" (.int 2)
    ∃ (registry : Registry) (s t : Session),
      Constructed [value, type] [again] registry s ∧ registry.finish s = .ok registry t ∧
        registry.Finished [value, type] ((eval (runBody 1) (.bind "x" (.int 3))).after t) := by
  intro value type again
  let empty : Registry := ⟨⟨0⟩, [], []⟩
  let full : Registry := ⟨⟨0⟩, [("T", ⟨0⟩)], []⟩
  let first := (value.add empty).after Program.founded
  let second := (buildEntity none none "T").after first
  let third := (type.add empty).after second
  have started : Constructed [] [] empty Program.founded :=
    .start (s := Program.blank) rfl ⟨[], .start⟩
  have one : Constructed [value] [] empty first := started.add (Heap.hasAll_nil _) rfl
  have refuses : again.add empty first =
      .error (.failure (.ofCause (.duplicateSymbol "a"))) first := rfl
  have two : Constructed [value] [again] empty first := one.refuse refuses
  obtain ⟨three, has, _⟩ : Constructed [value] [again] empty second ∧ _ :=
    two.build (e := ⟨0⟩) has_none has_none rfl
  obtain ⟨four, _⟩ : Constructed [value, type] [again] full third ∧ _ := three.addType has rfl
  obtain ⟨_, _, finished, later⟩ := coherence four (finish_eq full third)
  exact ⟨full, third, _, four, rfl, finished _ (later _ .refl 1 _)⟩

end Registry

end Delegation
