import Mathlib.Data.List.Nodup
import Delegation.Proofs.Reachability

/-!
# Registries under construction

A registry comes about by entries that are added to it one after another: values and types become
globals, and methods are kept for the root objects to come. Some of the entries are refused. Before
it is finished nothing but its construction gets at its scope, so whatever else a program does in
between leaves the scope alone.

An entry that is refused leaves everything as it was, and one that is added shows in the scope, in
the types and in the methods at once. So the three always tell the same entries.
-/

namespace Delegation

variable {α : Type} {s t : Session} {x : ScopeId} {name : String} {cell : Cell} {stop : Stop}

theorem lookup_eq_some_iff_mem {entries : List (String × α)}
    (distinct : (entries.map Prod.fst).Nodup) {a : α} :
    entries.lookup name = some a ↔ (name, a) ∈ entries := by
  induction entries with
  | nil => simp
  | cons entry rest ih =>
    obtain ⟨other, b⟩ := entry
    rw [List.map_cons, List.nodup_cons] at distinct
    rw [List.lookup_cons, List.mem_cons, ← ih distinct.2, Prod.mk.injEq]
    by_cases same : name = other
    · subst same
      have absent : rest.lookup name ≠ some a := fun found =>
        distinct.1 (List.mem_map.2 ⟨_, (ih distinct.2).1 found, rfl⟩)
      simp [absent, eq_comm]
    · have differs : (name == other) = false := by simpa using same
      simp [differs, same]

/-! ## Declaring in a scope -/

theorem declare_of_ok {scope : Scope} (declared : (s.heap.scope x).declare name cell = .ok scope) :
    declare x name cell s = .ok () { s with heap := s.heap.setScope x scope } := by
  simp only [declare, bind, EStateM.bind, Action.get_eq_ok, declared]
  rfl

theorem declare_of_error {cause : Cause}
    (refused : (s.heap.scope x).declare name cell = .error cause) :
    declare x name cell s = .error (.failure (.ofCause cause)) s := by
  simp only [declare, bind, EStateM.bind, Action.get_eq_ok, refused]
  rfl

/-- Declaring either adds the cell or leaves everything as it was. -/
theorem declare_cases (s : Session) (x : ScopeId) (name : String) (cell : Cell) :
    (∃ scope, (s.heap.scope x).declare name cell = .ok scope ∧
      declare x name cell s = .ok () { s with heap := s.heap.setScope x scope }) ∨
    ∃ cause, declare x name cell s = .error (.failure (.ofCause cause)) s := by
  cases is : (s.heap.scope x).declare name cell with
  | ok scope => exact .inl ⟨scope, rfl, declare_of_ok is⟩
  | error cause => exact .inr ⟨cause, declare_of_error is⟩

namespace Registry

variable {registry registry' : Registry}

/-! ## Entries -/

/-- What is added to a registry under construction. -/
inductive Entry where
  /-- A value under a name. -/
  | value (name : String) (v : Value)
  /-- A type under its own name. -/
  | type (e : EntityId)
  /-- A method that every root object carries. -/
  | method (name : String) (callable : Callable)

namespace Entry

/-- Adds an entry. The result is the registry as it is then. -/
def add (registry : Registry) : Entry → Action Registry
  | .value name v => do
      registry.register name v
      return registry
  | .type e => registry.registerType e
  | .method name callable =>
      match registry.rootMethod name callable with
      | .ok registry => pure registry
      | .error cause => fail cause

/-- The global that an entry makes, under its name. -/
def global? (heap : Heap) : Entry → Option (String × Value)
  | .value name v => some (name, v)
  | .type e => some ((heap.entity e).name, .entity e)
  | .method _ _ => none

/-- The type that an entry makes, under its name. -/
def type? (heap : Heap) : Entry → Option (String × EntityId)
  | .type e => some ((heap.entity e).name, e)
  | .value _ _ | .method _ _ => none

def method? : Entry → Option (String × Callable)
  | .method name callable => some (name, callable)
  | .value _ _ | .type _ => none

def refs : Entry → List Node
  | .value _ v => v.owned
  | .type e => [.entity e]
  | .method _ _ => []

theorem congr {heap heap' : Heap} (entry : Entry)
    (names : ∀ e, .entity e ∈ entry.refs → (heap'.entity e).name = (heap.entity e).name) :
    entry.global? heap' = entry.global? heap ∧ entry.type? heap' = entry.type? heap := by
  cases entry with
  | value | method => exact ⟨rfl, rfl⟩
  | type e => simp only [global?, type?, names e List.mem_cons_self, and_self]

end Entry

/-- The cells of globals. -/
def constants (globals : List (String × Value)) : List (String × Cell) :=
  globals.map fun (name, v) => (name, .constant v)

/-- The globals that entries make, in order. -/
def globals (heap : Heap) (added : List Entry) : List (String × Value) :=
  added.filterMap (Entry.global? heap)

def methods (added : List Entry) : List (String × Callable) := added.filterMap Entry.method?

/-- How a registry under construction came about: the entries that have been added and those that
have been refused, in order. In between anything may happen that leaves its scope alone. -/
inductive Constructed : List Entry → List Entry → Registry → Session → Prop
  | start {s t : Session} {registry : Registry} (starts : Registry.start s = .ok registry t)
      (reachable : t.Reachable) : Constructed [] [] registry t
  | add {added refused : List Entry} {registry registry' : Registry} {s t : Session}
      {entry : Entry} (before : Constructed added refused registry s)
      (known : s.heap.HasAll entry.refs) (adds : entry.add registry s = .ok registry' t) :
      Constructed (added ++ [entry]) refused registry' t
  | refuse {added refused : List Entry} {registry : Registry} {s t : Session} {entry : Entry}
      {stop : Stop} (before : Constructed added refused registry s)
      (refuses : entry.add registry s = .error stop t) :
      Constructed added (refused ++ [entry]) registry t
  | meanwhile {added refused : List Entry} {registry : Registry} {s t : Session}
      (before : Constructed added refused registry s) (later : s.Later t)
      (apart : t.heap.scope registry.scope = s.heap.scope registry.scope) :
      Constructed added refused registry t

/-! ## What adding an entry does -/

theorem register_eq (registry : Registry) (name : String) (v : Value) :
    registry.register name v = declare registry.scope name (.constant v) := rfl

/-- Adding a method is refused for a name that is no identifier, and for no other reason. -/
theorem Entry.add_method (registry : Registry) (name : String) (callable : Callable) (s : Session) :
    (Entry.method name callable).add registry s =
      if isIdentifier name = true then
        .ok { registry with protocol := registry.protocol ++ [(name, callable)] } s
      else .error (.failure (.ofCause (.invalidSymbol name .identifier))) s := by
  simp only [add, rootMethod]
  by_cases spelled : isIdentifier name = true
  · rw [if_pos spelled, if_pos spelled]
    rfl
  · rw [if_neg spelled, if_neg spelled]
    rfl

/-- What an entry that is added does to the registry and to its scope. -/
structure Extends (registry : Registry) (s : Session) (entry : Entry) (registry' : Registry)
    (t : Session) : Prop where
  scope : registry'.scope = registry.scope
  types : registry'.types = registry.types ++ (entry.type? s.heap).toList
  protocol : registry'.protocol = registry.protocol ++ entry.method?.toList
  spelled : ∀ method ∈ entry.method?, isIdentifier method.1 = true
  /-- A global is declared as a constant; without one the session stays as it is. -/
  cells : (entry.global? s.heap = none ∧ t = s) ∨
    ∃ name v scope, entry.global? s.heap = some (name, v) ∧
      (s.heap.scope registry.scope).declare name (.constant v) = .ok scope ∧
      t = { s with heap := s.heap.setScope registry.scope scope }

/-- Adding an entry extends the registry, or it is refused and leaves everything as it was. -/
theorem Entry.add_cases (entry : Entry) (registry : Registry) (s : Session) :
    (∃ registry' t, entry.add registry s = .ok registry' t ∧ Extends registry s entry registry' t) ∨
      ∃ stop, entry.add registry s = .error stop s := by
  cases entry with
  | value name v =>
    simp only [add, register_eq, bind, EStateM.bind]
    rcases declare_cases s registry.scope name (.constant v) with
      ⟨scope, declared, ends⟩ | ⟨_, ends⟩
    · rw [ends]
      exact .inl ⟨_, _, rfl, rfl, (List.append_nil _).symm, (List.append_nil _).symm, nofun,
        .inr ⟨_, _, scope, rfl, declared, rfl⟩⟩
    · rw [ends]
      exact .inr ⟨_, rfl⟩
  | type e =>
    simp only [add, registerType, register_eq, bind, EStateM.bind, Action.get_eq_ok]
    rcases declare_cases s registry.scope (s.heap.entity e).name (.constant (.entity e)) with
      ⟨scope, declared, ends⟩ | ⟨_, ends⟩
    · rw [ends]
      exact .inl ⟨_, _, rfl, rfl, rfl, (List.append_nil _).symm, nofun,
        .inr ⟨_, _, scope, rfl, declared, rfl⟩⟩
    · rw [ends]
      exact .inr ⟨_, rfl⟩
  | method name callable =>
    rw [add_method]
    by_cases spelled : isIdentifier name = true
    · rw [if_pos spelled]
      refine .inl ⟨_, _, rfl, rfl, (List.append_nil _).symm, rfl, fun method is => ?_,
        .inl ⟨rfl, rfl⟩⟩
      cases is
      exact spelled
    · rw [if_neg spelled]
      exact .inr ⟨_, rfl⟩

theorem Entry.extends_of_add (entry : Entry) (adds : entry.add registry s = .ok registry' t) :
    Extends registry s entry registry' t := by
  rcases entry.add_cases registry s with ⟨_, _, adds', extended⟩ | ⟨_, refuses⟩
  · cases adds.symm.trans adds'
    exact extended
  · cases adds.symm.trans refuses

theorem Entry.eq_of_refused {entry : Entry} (refuses : entry.add registry s = .error stop t) :
    t = s := by
  rcases entry.add_cases registry s with ⟨_, _, adds, _⟩ | ⟨_, refuses'⟩
  · cases refuses.symm.trans adds
  · cases refuses.symm.trans refuses'
    rfl

/-! ## What a registry under construction tells -/

/-- The scope, the types and the methods of a registry tell the entries that have been added. -/
structure Tells (registry : Registry) (s : Session) (added : List Entry) : Prop where
  reachable : s.Reachable
  known : s.heap.HasAll registry.owned
  entries : ∀ entry ∈ added, s.heap.HasAll entry.refs
  scope : s.heap.scope registry.scope = ⟨.identifier, [], constants (globals s.heap added), false⟩
  distinct : ((globals s.heap added).map Prod.fst).Nodup
  types : registry.types = added.filterMap (Entry.type? s.heap)
  protocol : registry.protocol = methods added
  spelled : ∀ method ∈ registry.protocol, isIdentifier method.1 = true

theorem names_of_later {added : List Entry} (later : s.heap.Grows t.heap)
    (known : ∀ entry ∈ added, s.heap.HasAll entry.refs) :
    globals t.heap added = globals s.heap added ∧
      added.filterMap (Entry.type? t.heap) = added.filterMap (Entry.type? s.heap) := by
  have same (entry : Entry) (place : entry ∈ added) :=
    Entry.congr entry fun e named =>
      (later.entity e (known entry place _ named)).name
  exact ⟨List.filterMap_congr fun entry place => (same entry place).1,
    List.filterMap_congr fun entry place => (same entry place).2⟩

theorem Tells.later {added : List Entry} (tells : registry.Tells s added) (later : s.Later t)
    (apart : t.heap.scope registry.scope = s.heap.scope registry.scope) :
    registry.Tells t added := by
  have grows := later.heap.grows
  obtain ⟨sameGlobals, sameTypes⟩ := names_of_later grows tells.entries
  exact { tells with
    reachable := tells.reachable.later later
    known := grows.hasAll tells.known
    entries := fun entry place => grows.hasAll (tells.entries entry place)
    scope := by rw [apart, tells.scope, sameGlobals]
    distinct := sameGlobals ▸ tells.distinct
    types := tells.types.trans sameTypes.symm }

theorem symbols_constants (policy : Policy) (lineage : List ScopeId)
    (globals : List (String × Value)) (isSealed : Bool) :
    Scope.symbols ⟨policy, lineage, constants globals, isSealed⟩ = globals.map Prod.fst := by
  simp [Scope.symbols, constants]

theorem later_of_declare {scope : Scope} (cell : Cell) (reachable : s.Reachable) (has : s.heap.Has (.scope x))
    (cellKnown : s.heap.HasAll cell.owned)
    (declared : (s.heap.scope x).declare name cell = .ok scope) :
    s.Later { s with heap := s.heap.setScope x scope } := by
  have step : Heap.Step (fun frame => frame = s.machine.currentFrame) s.heap
      (s.heap.setScope x scope) := .declare has cellKnown declared
  exact .single ⟨.inr step, (reachable.sound.fit.step step).toGrounded⟩

theorem Entry.refs_of_global {heap : Heap} {entry : Entry} {v : Value}
    (is : entry.global? heap = some (name, v)) : entry.refs = v.owned := by
  cases entry with
  | value | type =>
    cases is
    rfl
  | method => cases is

theorem globals_concat (heap : Heap) (added : List Entry) (entry : Entry) :
    globals heap (added ++ [entry]) = globals heap added ++ (entry.global? heap).toList := by
  rw [globals, List.filterMap_append]
  congr 1

theorem methods_concat (added : List Entry) (entry : Entry) :
    methods (added ++ [entry]) = methods added ++ entry.method?.toList := by
  rw [methods, List.filterMap_append]
  congr 1

theorem types_concat (heap : Heap) (added : List Entry) (entry : Entry) :
    (added ++ [entry]).filterMap (Entry.type? heap) =
      added.filterMap (Entry.type? heap) ++ (entry.type? heap).toList := by
  rw [List.filterMap_append]
  congr 1

theorem Extends.later {added : List Entry} {entry : Entry}
    (step : Extends registry s entry registry' t) (tells : registry.Tells s added)
    (known : s.heap.HasAll entry.refs) : s.Later t := by
  rcases step.cells with ⟨_, rfl⟩ | ⟨name, v, scope, global, declared, rfl⟩
  · exact .refl
  · have cellKnown : s.heap.HasAll v.owned := Entry.refs_of_global global ▸ known
    exact later_of_declare (.constant v) tells.reachable
      (Heap.hasAll_cons.1 tells.known).1 cellKnown declared

theorem Tells.extends {added : List Entry} {entry : Entry} (tells : registry.Tells s added)
    (known : s.heap.HasAll entry.refs) (step : Extends registry s entry registry' t) :
    registry'.Tells t (added ++ [entry]) := by
  have spelled : ∀ method ∈ registry'.protocol, isIdentifier method.1 = true := by
    rw [step.protocol]
    exact List.forall_mem_append.2 ⟨tells.spelled, fun method place =>
      step.spelled method (Option.mem_toList.1 place)⟩
  have protocol : registry'.protocol = methods (added ++ [entry]) := by
    rw [methods_concat, step.protocol, tells.protocol]
  have entries : ∀ e ∈ added ++ [entry], s.heap.HasAll e.refs :=
    List.forall_mem_append.2 ⟨tells.entries, List.forall_mem_singleton.2 known⟩
  have types : registry'.types = (added ++ [entry]).filterMap (Entry.type? s.heap) := by
    rw [types_concat, step.types, tells.types]
  have typesKnown : ∀ found ∈ (entry.type? s.heap).toList, s.heap.Has (.entity found.2) := by
    cases entry with
    | type e => exact List.forall_mem_singleton.2 (known _ List.mem_cons_self)
    | value | method => exact List.forall_mem_nil _
  have owned : s.heap.HasAll registry'.owned := by
    have before := Heap.hasAll_cons.1 tells.known
    rw [owned, step.scope, step.types, List.map_append]
    exact Heap.hasAll_cons.2 ⟨before.1, Heap.hasAll_append.2
      ⟨before.2, List.forall_mem_map.2 typesKnown⟩⟩
  have later := step.later tells known
  rcases step.cells with ⟨nothing, rfl⟩ | ⟨name, v, scope, global, declared, rfl⟩
  · have same : globals t.heap (added ++ [entry]) = globals t.heap added := by
      rw [globals_concat, nothing, Option.toList_none, List.append_nil]
    exact ⟨tells.reachable, owned, entries, by rw [step.scope, tells.scope, same],
      same ▸ tells.distinct, types, protocol, spelled⟩
  · have has := (Heap.hasAll_cons.1 tells.known).1
    have grows := later.heap.grows
    obtain ⟨sameGlobals, sameTypes⟩ := names_of_later grows entries
    have all : globals s.heap (added ++ [entry]) = globals s.heap added ++ [(name, v)] := by
      rw [globals_concat, global, Option.toList_some]
    obtain ⟨_, _, new, is⟩ := Scope.declare_eq_ok_iff.1 declared
    rw [tells.scope] at new is
    have absent : name ∉ (globals s.heap added).map Prod.fst := by
      rw [← Bool.not_eq_true, Scope.declares_iff, symbols_constants] at new
      exact new
    refine ⟨tells.reachable.later later, grows.hasAll owned,
      fun e place => grows.hasAll (entries e place), ?_, ?_, types.trans sameTypes.symm, protocol,
      spelled⟩
    · rw [step.scope, sameGlobals, all]
      dsimp only
      rw [Heap.scope_setScope has, if_pos rfl, is]
      simp [constants]
    · rw [sameGlobals, all, List.map_append]
      exact List.Nodup.append tells.distinct (List.nodup_singleton _) (by simpa using absent)

/-- Whatever has been asked of a registry under construction, it tells what has been added. -/
theorem Constructed.tells {added refused : List Entry}
    (constructed : Constructed added refused registry s) : registry.Tells s added := by
  induction constructed with
  | @start s t registry starts reachable =>
    cases starts
    refine ⟨reachable, ?_, nofun, Heap.scope_addScope _ _, .nil, rfl, rfl, nofun⟩
    exact Heap.hasAll_cons.2 ⟨by simp [Heap.Has], Heap.hasAll_nil _⟩
  | add _ known adds tells => exact tells.extends known (Entry.extends_of_add _ adds)
  | refuse _ refuses tells =>
    obtain rfl := Entry.eq_of_refused refuses
    exact tells
  | meanwhile _ later apart tells => exact tells.later later apart

/-! ## The core registry -/

section Core

variable {added refused : List Entry}

theorem Constructed.build {super type : Option EntityId} {name : String} {e : EntityId}
    (constructed : Constructed added refused registry s)
    (superKnown : ∀ base ∈ super, s.heap.Has (.entity base))
    (typeKnown : ∀ known ∈ type, s.heap.Has (.entity known))
    (builds : buildEntity super type name s = .ok e t) :
    Constructed added refused registry t ∧ t.heap.Has (.entity e) ∧ s.Later t := by
  have tells := constructed.tells
  have fit := tells.reachable.sound.fit
  obtain ⟨ran, made⟩ := (runs_buildEntity name superKnown typeKnown).result builds
  refine ⟨constructed.meanwhile (ran.steps fit) ?_, (Heap.hasAll_cons.1 made).1, ran.steps fit⟩
  rw [(buildEntity_eq_ok builds).2]
  exact Heap.scope_addEntity_of_lt super type name (Heap.hasAll_cons.1 tells.known).1

theorem Constructed.addType {type : EntityId} (constructed : Constructed added refused registry s)
    (has : s.heap.Has (.entity type)) (adds : registry.registerType type s = .ok registry' t) :
    Constructed (added ++ [.type type]) refused registry' t ∧ s.Later t :=
  have known := List.forall_mem_singleton.2 has
  ⟨constructed.add known adds,
    (Entry.extends_of_add (.type type) adds).later constructed.tells known⟩

theorem Constructed.addTypes {type : EntityId} {names : List String}
    (constructed : Constructed added refused registry s) (has : s.heap.Has (.entity type))
    (adds : registry.registerTypes type names s = .ok registry' t) :
    ∃ made : List EntityId, Constructed (added ++ made.map .type) refused registry' t := by
  induction names generalizing added registry s with
  | nil =>
    cases adds
    exact ⟨[], by rwa [List.map_nil, List.append_nil]⟩
  | cons name rest ih =>
    obtain ⟨made, u, builds, adds⟩ := Action.bind_eq_ok adds
    obtain ⟨one, v, registers, adds⟩ := Action.bind_eq_ok adds
    obtain ⟨built, madeHas, later⟩ := constructed.build has_none (has_some has) builds
    obtain ⟨one, later'⟩ := built.addType madeHas registers
    have kept := later'.heap.grows.has _ (later.heap.grows.has _ has)
    obtain ⟨more, all⟩ := ih one kept adds
    exact ⟨made :: more, by rwa [← List.append_cons] at all⟩

theorem Constructed.addMethods (methods : List (String × Callable))
    (constructed : Constructed added refused registry s)
    (spelled : ∀ method ∈ methods, isIdentifier method.1 = true) :
    Constructed (added ++ methods.map fun (name, callable) => .method name callable) refused
      { registry with protocol := registry.protocol ++ methods } s := by
  induction methods generalizing added registry with
  | nil => simpa using constructed
  | cons method rest ih =>
    obtain ⟨good, others⟩ := List.forall_mem_cons.1 spelled
    have one : Constructed (added ++ [.method method.1 method.2]) refused
        { registry with protocol := registry.protocol ++ [method] } s :=
      constructed.add (Heap.hasAll_nil _) (by rw [Entry.add_method, if_pos good])
    simpa using ih one others

end Core

theorem constructed_bootstrap (reachable : s.Reachable) (makes : bootstrap s = .ok registry t) :
    ∃ added u, Constructed added [] registry u ∧ registry.finish u = .ok registry t := by
  obtain ⟨empty, s₁, starts, makes⟩ := Action.bind_eq_ok makes
  obtain ⟨type, s₂, builds, makes⟩ := Action.bind_eq_ok makes
  obtain ⟨one, s₃, registers, makes⟩ := Action.bind_eq_ok makes
  obtain ⟨six, u, registersAll, makes⟩ := Action.bind_eq_ok makes
  have later : s.Later s₁ := (runs_start.result starts).1.steps reachable.sound.fit
  have started := Constructed.start starts (reachable.later later)
  obtain ⟨built, typeHas, _⟩ := started.build has_none has_none builds
  obtain ⟨first, later'⟩ := built.addType typeHas registers
  obtain ⟨made, all⟩ := first.addTypes (later'.heap.grows.has _ typeHas) registersAll
  have plain : six.protocol = [] := by simp [all.tells.protocol, methods, Entry.method?]
  have full := all.addMethods rootProtocol (by decide +kernel)
  have same : { six with protocol := rootProtocol } = registry := by
    cases makes
    rfl
  simp only [plain, List.nil_append, same] at full makes
  exact ⟨_, u, full, makes⟩

end Registry

end Delegation
