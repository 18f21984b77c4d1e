import Delegation.Proofs.Entry
import Delegation.Proofs.Liveness.Holding
import Delegation.Proofs.Reachability

/-!
# Asking entities

There are three ways to have a method of an entity run: by the name of a member, by that of a hook,
and by calling the entity. They differ in the table they look into and in how they refuse. What they
have in common: the table of an entity stands on that of its super-entity, so a name leads to the
nearest layer that declares it; and the body runs for the receiver, whichever layer was asked.
-/

namespace Delegation

/-- The ways to have a method of an entity run. -/
inductive Request where
  | member (name : String)
  | hook (name : String)
  | call

namespace Request

/-- The name that is looked for. -/
def name : Request → String
  | .member name | .hook name => name
  | .call => callHook

/-- The table that the name is looked for in. -/
def table : Request → Entity → ScopeId
  | .member _ => Entity.members
  | .hook _ | .call => Entity.hooks

/-- Declares a method that answers the request. -/
def declare (e : EntityId) (callable : Callable) : Request → Action Unit
  | .member name => declareMethod e name callable
  | .hook name => declareHook e name callable
  | .call => declareHook e callHook callable

/-- Makes the request to an entity. -/
def ask (run : Runner) (e : EntityId) (args : List Value) : Request → Action Value
  | .member name => invokeMember run e name args
  | .hook name => invokeHook run e name args
  | .call => callValue run (.entity e) args

/-- Why an entity without such a method does not answer. -/
def refusal (heap : Heap) (e : EntityId) : Request → Cause
  | .member name => .unknownMember name (heap.entity e).name
  | .hook name => .unsupportedHook name (heap.entity e).name
  | .call => .notCallable (heap.typeName e)

/-- What the name leads to from an entity. -/
def resolve (request : Request) (heap : Heap) (e : EntityId) : Option (ScopeId × Cell) :=
  heap.resolve (request.table (heap.entity e)) request.name

/-- What an entity itself declares under the name. -/
def own (request : Request) (heap : Heap) (e : EntityId) : Option Cell :=
  (heap.scope (request.table (heap.entity e))).cell? request.name

/-! ## Tables -/

variable {request : Request} {heap : Heap} {e base : EntityId}

theorem has_table (sound : heap.Sound) (has : heap.Has (.entity e)) :
    heap.Has (.scope (request.table (heap.entity e))) := by
  have tables := sound.has_tables has
  cases request with
  | member => exact tables.2.2
  | hook | call => exact tables.2.1

theorem lineage_table (sound : heap.Sound) (has : heap.Has (.entity e)) :
    (heap.scope (request.table (heap.entity e))).lineage =
      ((heap.entity e).super.map fun base =>
        heap.path (request.table (heap.entity base))).getD [] := by
  cases request with
  | member => exact sound.members e has
  | hook | call => exact sound.hooks e has

theorem table_of_grows {record after : Entity} (grows : record.Grows after) :
    request.table after = request.table record := by
  cases request with
  | member => exact grows.members
  | hook | call => exact grows.hooks

theorem resolve_of_own {cell : Cell} (is : request.own heap e = some cell) :
    request.resolve heap e = some (request.table (heap.entity e), cell) := Heap.resolve_of_cell? is

/-- What an entity does not declare is looked for in its super-entity. -/
theorem resolve_of_super (sound : heap.Sound) (has : heap.Has (.entity e))
    (absent : request.own heap e = none) (is : (heap.entity e).super = some base) :
    request.resolve heap e = request.resolve heap base := by
  rw [resolve, Heap.resolve_of_parent absent, lineage_table sound has, is]
  rfl

theorem resolve_of_root (sound : heap.Sound) (has : heap.Has (.entity e))
    (absent : request.own heap e = none) (is : (heap.entity e).super = none) :
    request.resolve heap e = none := by
  rw [resolve, Heap.resolve_of_parent absent, lineage_table sound has, is]
  rfl

end Request

/-- A request to an entity leads to a method that the entity or one below it has declared, and keeps
in its table. -/
structure Heap.Finds (heap : Heap) (request : Request) (e owner : EntityId) (callable : Callable) :
    Prop where
  on : heap.BuiltOn e owner
  resolved : ∃ b, request.resolve heap e =
    some (request.table (heap.entity owner), .constant (.binding b)) ∧
      heap.binding b = ⟨callable, .declared owner⟩

namespace Session

variable {s t : Session}

/-- A method that answers a request has been declared on an entity before. -/
def Declared (s : Session) (request : Request) (e : EntityId) (callable : Callable) : Prop :=
  ∃ before after, before.Reachable ∧ before.heap.Has (.entity e) ∧
    request.declare e callable before = .ok () after ∧ after.Later s

theorem Declared.later {request : Request} {e : EntityId} {callable : Callable}
    (declared : s.Declared request e callable) (later : s.Later t) :
    t.Declared request e callable := by
  obtain ⟨before, after, reachable, has, declares, afterwards⟩ := declared
  exact ⟨before, after, reachable, has, declares, afterwards.trans later⟩

theorem declare_eq_ok {x : ScopeId} {name : String} {cell : Cell} (has : s.heap.Has (.scope x))
    (declares : declare x name cell s = .ok () t) :
    (t.heap.scope x).cell? name = some cell ∧ t.heap.Has (.scope x) ∧
      t.heap.entities = s.heap.entities ∧ t.heap.bindings = s.heap.bindings := by
  simp only [declare, bind, EStateM.bind, Action.get_eq_ok] at declares
  cases is : (s.heap.scope x).declare name cell with
  | error cause =>
    rw [is] at declares
    cases declares
  | ok scope =>
    rw [is] at declares
    cases declares
    refine ⟨?_, ?_, rfl, rfl⟩
    · rw [Heap.scope_setScope has, if_pos rfl, Scope.cell?_of_declare is, if_pos rfl]
    · exact Nat.lt_of_lt_of_eq has Array.size_setIfInBounds.symm

/-- A declared method stands in the table of its entity from then on. -/
theorem Declared.own {request : Request} {e : EntityId} {callable : Callable}
    (declared : s.Declared request e callable) :
    ∃ b, request.own s.heap e = some (.constant (.binding b)) ∧
      s.heap.binding b = ⟨callable, .declared e⟩ := by
  obtain ⟨before, after, reachable, has, declares, later⟩ := declared
  let made := before.heap.addBinding ⟨callable, .declared e⟩
  have tableHas : made.2.Has (.scope (request.table (before.heap.entity e))) :=
    (Heap.grows_addBinding _ _).has _ (Request.has_table reachable.sound.heap has)
  have step : Delegation.declare (request.table (before.heap.entity e)) request.name
      (.constant (.binding made.1)) { before with heap := made.2 } = .ok () after := by
    cases request <;> exact declares
  obtain ⟨found, stillHas, entities, bindings⟩ :=
    declare_eq_ok (s := { before with heap := made.2 }) tableHas step
  have entity : after.heap.entity e = before.heap.entity e := by
    simp only [Heap.entity, entities]
    rfl
  have hasAfter : after.heap.Has (.entity e) := by
    simp only [Heap.Has, entities]
    exact has
  have madeHas : after.heap.Has (.binding made.1) := by
    simp [Heap.Has, bindings, made, Heap.addBinding]
  have grows := later.heap.grows
  refine ⟨made.1, ?_, ?_⟩
  · obtain ⟨later, there, became⟩ := (grows.scope _ stillHas).cells _ _ found
    rw [Request.own, Request.table_of_grows (grows.entity e hasAfter), entity, there,
      became.constant]
  · rw [grows.binding made.1 madeHas]
    simp only [Heap.binding, bindings]
    exact Heap.binding_addBinding _ _

end Session

/-! ## Requests that are refused -/

variable {s t : Session} {request : Request} {e owner : EntityId} {callable : Callable}
  {name : String}

theorem getMember_of_none (absent : (Request.member name).resolve s.heap e = none) (run : Runner) :
    getMember run e name s =
      .error (.failure (.ofCause (.unknownMember name (s.heap.entity e).name))) s := by
  have unknown : s.heap.hasMember e name = false := by
    rw [Heap.hasMember, Heap.contains_eq_isSome_resolve]
    exact Option.isSome_eq_false_iff.2 (Option.isNone_iff_eq_none.2 absent)
  simp only [getMember, bind, EStateM.bind, Action.get_eq_ok, unknown]
  rfl

theorem Request.ask_of_none (absent : request.resolve s.heap e = none) (run : Runner)
    (args : List Value) : request.ask run e args s =
      .error (.failure (.ofCause (request.refusal s.heap e))) s := by
  cases request with
  | member name =>
    simp only [ask, invokeMember, bind, EStateM.bind, getMember_of_none absent, refusal]
  | hook name =>
    have unknown : s.heap.supportsHook e name = false := by
      rw [Heap.supportsHook, Heap.contains_eq_isSome_resolve]
      exact Option.isSome_eq_false_iff.2 (Option.isNone_iff_eq_none.2 absent)
    simp only [ask, invokeHook, bind, EStateM.bind, Action.get_eq_ok,
      unknown]
    rfl
  | call =>
    have unknown : s.heap.supportsHook e callHook = false := by
      rw [Heap.supportsHook, Heap.contains_eq_isSome_resolve]
      exact Option.isSome_eq_false_iff.2 (Option.isNone_iff_eq_none.2 absent)
    simp only [ask, callValue, holding, bind, EStateM.bind, Action.get_eq_ok, unknown]
    rfl

/-! ## Requests that are answered -/

theorem Heap.hasMember_of_resolve {heap : Heap} {found : ScopeId × Cell}
    (leads : (Request.member name).resolve heap e = some found) :
    heap.hasMember e name = true := by
  rw [hasMember, contains_eq_isSome_resolve]
  exact Option.isSome_iff_exists.2 ⟨_, leads⟩

theorem Heap.supportsHook_of_resolve {heap : Heap} {found : ScopeId × Cell}
    (leads : (Request.hook name).resolve heap e = some found) :
    heap.supportsHook e name = true := by
  rw [supportsHook, contains_eq_isSome_resolve]
  exact Option.isSome_iff_exists.2 ⟨_, leads⟩

theorem attach_eq {b : BindingId} (binding : s.heap.binding b = ⟨callable, .declared owner⟩)
    (live : s.isLive owner = true) : attach b s =
      .ok (s.heap.addBinding ⟨callable, .method owner⟩).1
        { s with heap := (s.heap.addBinding ⟨callable, .method owner⟩).2 } := by
  simp only [attach, bind, EStateM.bind, Action.get_eq_ok, binding, live]
  rfl

/-- What is handed out for a member that has been read in a table: the value as it is, unless it is
a method that does not own its entity. -/
def handOut : Value → Action Value
  | .binding b => do return .binding (← attach b)
  | v => return v

theorem getMember_eq {found : ScopeId × Cell}
    (leads : (Request.member name).resolve s.heap e = some found) (run : Runner) :
    getMember run e name s = ((s.heap.entity e).members.get run name >>= handOut) s := by
  have known := Heap.hasMember_of_resolve leads
  simp only [getMember, bind, EStateM.bind, Action.get_eq_ok, known, if_true]
  cases (s.heap.entity e).members.get run name s with
  | ok v t => cases v <;> rfl
  | error stop t => rfl

theorem handOut_of_declared {b : BindingId}
    (binding : s.heap.binding b = ⟨callable, .declared owner⟩) (live : s.isLive owner = true) :
    handOut (.binding b) s = .ok (.binding (s.heap.addBinding ⟨callable, .method owner⟩).1)
      { s with heap := (s.heap.addBinding ⟨callable, .method owner⟩).2 } := by
  simp only [handOut, bind, EStateM.bind, attach_eq binding live]
  rfl

/-- A method that is read comes back owning the layer that declares it. -/
theorem getMember_of_finds (finds : s.heap.Finds (.member name) e owner callable)
    (live : s.isLive owner = true) (run : Runner) : getMember run e name s =
      .ok (.binding (s.heap.addBinding ⟨callable, .method owner⟩).1)
        { s with heap := (s.heap.addBinding ⟨callable, .method owner⟩).2 } := by
  obtain ⟨b, resolved, binding⟩ := finds.resolved
  have read : (s.heap.entity e).members.get run name s = .ok (.binding b) s :=
    ScopeId.get_of_constant resolved run
  rw [getMember_eq resolved, ← handOut_of_declared binding live]
  simp only [bind, EStateM.bind, read]

theorem invokeHook_eq {x : ScopeId} {b : BindingId}
    (resolved : (Request.hook name).resolve s.heap e = some (x, .constant (.binding b)))
    (run : Runner) (args : List Value) : invokeHook run e name args s = b.call run args s := by
  have known := Heap.supportsHook_of_resolve resolved
  have read : (s.heap.entity e).hooks.get run name s = .ok (.binding b) s :=
    ScopeId.get_of_constant resolved run
  simp only [invokeHook, bind, EStateM.bind, Action.get_eq_ok, known,
    if_true, read]

/-- Calling an entity that has the hook for it invokes the hook while the entity is held. -/
theorem callValue_entity_eq {x : ScopeId} {b : BindingId}
    (resolved : Request.call.resolve s.heap e = some (x, .constant (.binding b))) (run : Runner)
    (args : List Value) : callValue run (.entity e) args s =
      holding (.value (.entity e)) (b.call run args) s := by
  have known : s.heap.supportsHook e callHook = true := Heap.supportsHook_of_resolve resolved
  have invoked := invokeHook_eq (s := { s with held := .value (.entity e) :: s.held })
    (e := e) resolved run args
  simp only [callValue, holding, bind, EStateM.bind, Action.get_eq_ok,
    known, if_true, invoked]

end Delegation
