import Delegation.Proofs.Fetching
import Delegation.Proofs.Instantiation
import Delegation.Proofs.Redirection

/-!
# Complete chains

A chain is built from its root upwards. Each layer is built on the one that has been made just
before, on which nothing stands yet, so building never fails, however many layers there are and of
whatever types. A type may come again: it only lends its name and is not touched.

All that is made is new, the tables of the layers included, and these declare nothing. So each layer
finds what the root carries, what was there before stays as it was, and the same chain can be built
again at any time.
-/

namespace Delegation

variable {s t u : Session} {e d base layer : EntityId} {type : Option EntityId} {name : String}
  {callable : Callable} {methods : List (String × Callable)} {types layers : List EntityId}

namespace Registry

/-! ## Building layers -/

/-- What has become of a session in which layers have been built on an entity. They are new and
declare nothing, nothing stands on the last one, and all that there was is as it was, except for the
link from the entity to the first layer. -/
structure Raised (s : Session) (base : EntityId) (layers : List EntityId) (t : Session) : Prop where
  later : s.Later t
  new : ∀ d ∈ layers, ¬s.heap.Has (.entity d) ∧ t.heap.Has (.entity d)
  distinct : layers.Nodup
  bare : ∀ d ∈ layers, (t.heap.scope (t.heap.entity d).members).cells = []
  entities : ∀ e, s.heap.Has (.entity e) → e ≠ base → t.heap.entity e = s.heap.entity e
  scopes : ∀ x, s.heap.Has (.scope x) → t.heap.scope x = s.heap.scope x
  last : ∀ top, (base :: layers).getLast? = some top → (t.heap.entity top).derived = none

theorem raised_nil (free : (s.heap.entity base).derived = none) : Raised s base [] s where
  later := .refl
  new := List.forall_mem_nil _
  distinct := .nil
  bare := List.forall_mem_nil _
  entities _ _ _ := rfl
  scopes _ _ := rfl
  last top is := by
    cases is
    exact free

theorem raised_buildEntity (sound : s.Sound) (has : s.heap.Has (.entity base))
    (typeHas : ∀ known ∈ type, s.heap.Has (.entity known))
    (builds : buildEntity (some base) type name s = .ok layer t) : Raised s base [layer] t := by
  have run : Run true s t ∧ t.heap.HasAll [.entity layer] :=
    (runs_buildEntity name (has_some has) typeHas).result builds
  obtain ⟨free, rfl⟩ := buildEntity_eq_ok builds
  rw [buildEntity_of_free free, Heap.fst_addEntity] at builds
  cases builds
  have entity (e : EntityId) := Heap.entity_addEntity (has_some has) type name e
  have made : (s.heap.addEntity (some base) type name).2.entity ⟨s.heap.entities.size⟩ =
      s.heap.freshEntity (some base) type name := by rw [entity, if_pos rfl]
  refine ⟨run.1.steps sound.fit, ?_, List.nodup_singleton _, ?_, fun e old other => ?_,
    fun x old => Heap.scope_addEntity_of_lt _ _ _ old, fun top is => ?_⟩
  · exact List.forall_mem_singleton.2 ⟨Nat.lt_irrefl _, (Heap.hasAll_cons.1 run.2).1⟩
  · rw [List.forall_mem_singleton]
    have tables := sound.heap.has_tables has
    dsimp only
    rw [made, Heap.scope_addEntity fun _ is => by cases is; exact tables.2.2]
    simp [Heap.freshEntity, Heap.emptyScope, Scope.root]
  · dsimp only
    rw [entity, if_neg (Nat.ne_of_lt old), if_neg fun is => other (Option.some.inj is).symm]
  · cases is
    exact congrArg Entity.derived made

theorem Raised.cons (one : Raised s base [layer] t) (more : Raised t layer layers u)
    (sound : s.Sound) : Raised s base (layer :: layers) u := by
  obtain ⟨new, made⟩ := List.forall_mem_singleton.1 one.new
  have grows := more.later.heap.grows
  refine ⟨one.later.trans more.later, ?_, ?_, ?_, fun e old other => ?_, fun x old => ?_,
    fun top is => more.last top (by rwa [List.getLast?_cons_cons] at is)⟩
  · refine List.forall_mem_cons.2 ⟨⟨new, grows.has _ made⟩, fun d place => ?_⟩
    obtain ⟨absent, present⟩ := more.new d place
    exact ⟨fun old => absent (one.later.heap.grows.has _ old), present⟩
  · exact List.nodup_cons.2 ⟨fun place => (more.new layer place).1 made, more.distinct⟩
  · refine List.forall_mem_cons.2 ⟨?_, more.bare⟩
    have tables := (one.later.sound sound).heap.has_tables made
    rw [(grows.entity layer made).members, more.scopes _ tables.2.2]
    exact one.bare layer List.mem_cons_self
  · have apart : e ≠ layer := fun same => new (same ▸ old)
    rw [more.entities e (one.later.heap.grows.has _ old) apart, one.entities e old other]
  · rw [more.scopes x (one.later.heap.grows.has _ old), one.scopes x old]

theorem raised_buildLayers (sound : s.Sound) (has : s.heap.Has (.entity base))
    (free : (s.heap.entity base).derived = none)
    (known : ∀ type ∈ types, s.heap.Has (.entity type))
    (builds : buildLayers base types s = .ok layers t) : Raised s base layers t := by
  induction types generalizing base s layers with
  | nil =>
    cases builds
    exact raised_nil free
  | cons type rest ih =>
    obtain ⟨typeHas, restHas⟩ := List.forall_mem_cons.1 known
    obtain ⟨_, _, ⟨⟩, first⟩ := Action.bind_eq_ok builds
    obtain ⟨layer, u, makes, others⟩ := Action.bind_eq_ok first
    obtain ⟨more, v, all, ⟨⟩⟩ := Action.bind_eq_ok others
    have one := raised_buildEntity sound has (has_some typeHas) makes
    have grows := one.later.heap.grows
    refine one.cons (ih (one.later.sound sound) ?_ (one.last layer rfl)
      (fun known place => grows.has _ (restHas known place)) all) sound
    exact (List.forall_mem_singleton.1 one.new).2

/-! ## What layers find -/

theorem Layers.builtOn {heap : Heap} (stand : Layers heap base types layers) {top : EntityId}
    (last : (base :: layers).getLast? = some top) : ∀ e ∈ base :: layers, heap.BuiltOn top e := by
  induction stand with
  | nil base =>
    cases last
    exact List.forall_mem_singleton.2 .refl
  | cons super _ _ _ ih =>
    have above := ih (by rwa [List.getLast?_cons_cons] at last)
    exact List.forall_mem_cons.2 ⟨(above _ List.mem_cons_self).tail super, above⟩

/-- A layer that declares nothing finds what the one below it finds. -/
theorem finds_of_bare {heap : Heap} {owner : EntityId} (sound : heap.Sound)
    (finds : heap.Finds (.member name) base owner callable) (has : heap.Has (.entity d))
    (super : (heap.entity d).super = some base)
    (bare : (heap.scope (heap.entity d).members).cells = []) :
    heap.Finds (.member name) d owner callable := by
  have absent : (Request.member name).own heap d = none := by
    show Scope.cell? _ _ = none
    simp only [Scope.cell?, Request.table, bare, List.lookup_nil]
  obtain ⟨b, resolved, binding⟩ := finds.resolved
  exact ⟨finds.on.head super, b, (Request.resolve_of_super sound has absent super).trans resolved,
    binding⟩

theorem Layers.finds {heap : Heap} {owner : EntityId} (stand : Layers heap base types layers)
    (sound : heap.Sound) (has : ∀ d ∈ layers, heap.Has (.entity d))
    (bare : ∀ d ∈ layers, (heap.scope (heap.entity d).members).cells = [])
    (finds : heap.Finds (.member name) base owner callable) :
    ∀ e ∈ base :: layers, heap.Finds (.member name) e owner callable := by
  induction stand with
  | nil base => exact List.forall_mem_singleton.2 finds
  | cons super _ _ _ ih =>
    rw [List.forall_mem_cons] at has bare
    have next := finds_of_bare sound finds has.1 super bare.1
    exact List.forall_mem_cons.2 ⟨finds, ih has.2 bare.2 next⟩

end Registry

theorem Heap.exists_isMethod {heap : Heap} {cells : List (String × Cell)}
    (all : List.Forall₂ (heap.IsMethod e) methods cells) {method : String × Callable}
    (listed : method ∈ methods) : ∃ entry ∈ cells, heap.IsMethod e method entry := by
  induction all with
  | nil => cases listed
  | cons is _ ih =>
    rcases List.mem_cons.1 listed with rfl | listed
    · exact ⟨_, List.mem_cons_self, is⟩
    · obtain ⟨entry, place, found⟩ := ih listed
      exact ⟨entry, List.mem_cons_of_mem _ place, found⟩

theorem Heap.Carries.own {heap : Heap} (carries : heap.Carries e methods)
    (distinct : (methods.map Prod.fst).Nodup) (listed : (name, callable) ∈ methods) :
    ∃ b, (Request.member name).own heap e = some (.constant (.binding b)) ∧
      heap.Has (.binding b) ∧ heap.binding b = ⟨callable, .declared e⟩ := by
  obtain ⟨cells, table, all⟩ := carries.table
  have names := Heap.names_of_isMethod all
  obtain ⟨entry, place, named, b, holds, has, binding⟩ := Heap.exists_isMethod all listed
  obtain rfl : entry = (name, .constant (.binding b)) := Prod.ext named holds
  have own : (heap.scope (heap.entity e).members).cell? name = some (.constant (.binding b)) := by
    rw [table]
    exact (lookup_eq_some_iff_mem (names ▸ distinct)).2 place
  exact ⟨b, own, has, binding⟩

theorem Heap.Carries.later {heap after : Heap} (carries : heap.Carries e methods)
    (grows : heap.Grows after) (has : heap.Has (.entity e))
    (same : after.scope (heap.entity e).members = heap.scope (heap.entity e).members) :
    after.Carries e methods := by
  obtain ⟨cells, table, all⟩ := carries.table
  have members := (grows.entity e has).members
  have kept (b : BindingId) (known : heap.Has (.binding b)) :=
    And.intro (grows.has _ known) (grows.binding b known)
  refine ⟨?_, cells, ?_, all.imp fun _ _ is => is.later kept⟩
  · rw [members]
    exact grows.has _ carries.has
  · rw [members, same, table]

theorem scope_of_declareMethod (declares : declareMethod e name callable s = .ok () t) :
    t.heap.entities = s.heap.entities ∧
      ∀ x, x ≠ (s.heap.entity e).members → t.heap.scope x = s.heap.scope x := by
  let made := s.heap.addBinding ⟨callable, .declared e⟩
  let x := (s.heap.entity e).members
  have step : declare x name (.constant (.binding made.1)) { s with heap := made.2 } = .ok () t :=
    declares
  rcases declare_cases { s with heap := made.2 } x name (.constant (.binding made.1)) with
    ⟨scope, _, ends⟩ | ⟨_, ends⟩
  · rw [ends] at step
    cases step
    exact ⟨rfl, fun y other => Heap.scope_setScope_of_ne _ _ other⟩
  · rw [ends] at step
    cases step

namespace Registry

theorem scope_of_declareMethods (declares : declareMethods e methods s = .ok () t) :
    t.heap.entities = s.heap.entities ∧
      ∀ x, x ≠ (s.heap.entity e).members → t.heap.scope x = s.heap.scope x := by
  induction methods generalizing s with
  | nil =>
    cases declares
    exact ⟨rfl, fun _ _ => rfl⟩
  | cons method rest ih =>
    obtain ⟨_, u, one, others⟩ := Action.bind_eq_ok declares
    obtain ⟨entities, scopes⟩ := scope_of_declareMethod one
    obtain ⟨entitiesAll, scopesAll⟩ := ih others
    have members : (u.heap.entity e).members = (s.heap.entity e).members := by
      rw [Heap.entity, entities, Heap.entity]
    exact ⟨entitiesAll.trans entities, fun x other =>
      (scopesAll x (members ▸ other)).trans (scopes x other)⟩

variable {registry registry' : Registry} {added refused : List Entry} {root top : EntityId}

theorem kept_of_instantiateRoot (makes : registry.instantiateRoot s = .ok root t) :
    (∀ e, s.heap.Has (.entity e) → t.heap.entity e = s.heap.entity e) ∧
      ∀ x, s.heap.Has (.scope x) → t.heap.scope x = s.heap.scope x := by
  rw [instantiateRoot_eq] at makes
  obtain ⟨_, u, declares, ends⟩ := Action.bind_eq_ok makes
  cases ends
  obtain ⟨entities, scopes⟩ := scope_of_declareMethods declares
  constructor
  · intro e old
    have founded : (registry.founding s).heap.entity e = s.heap.entity e := by
      rw [founding, Heap.entity_addEntity has_none, if_neg (Nat.ne_of_lt old),
        if_neg (Option.some_ne_none e).symm]
    rw [← founded, Heap.entity, entities, Heap.entity]
  · intro x old
    have members : ((registry.founding s).heap.entity ⟨s.heap.entities.size⟩).members =
        ⟨s.heap.scopes.size + 1⟩ := by rw [entity_founding]; rfl
    have apart : x ≠ ⟨s.heap.scopes.size + 1⟩ := by
      rintro rfl
      exact Nat.not_succ_lt_self old
    rw [scopes x (members ▸ apart)]
    exact Heap.scope_addEntity_of_lt _ _ _ old

/-! ## Complete chains -/

/-- A chain of layers that has been made for some types from a registry. -/
structure Complete (registry : Registry) (s : Session) (types : List EntityId) (root : EntityId)
    (layers : List EntityId) (t : Session) : Prop where
  later : s.Later t
  new : ∀ e ∈ root :: layers, ¬s.heap.Has (.entity e) ∧ t.heap.Has (.entity e)
  distinct : (root :: layers).Nodup
  name : (t.heap.entity root).name = "Object"
  type : (t.heap.entity root).type = registry.type? "Object"
  super : (t.heap.entity root).super = none
  /-- There is one layer for each type, named after it, on the layer before or on the root. -/
  stand : Layers t.heap root types layers
  /-- Every layer leads to the methods that the root has from the registry, -/
  finds : ∀ e ∈ root :: layers, ∀ method ∈ registry.protocol,
    t.heap.Finds (.member method.1) e root method.2
  /-- and has members of these names for good. -/
  hasMember : ∀ u, t.Later u → ∀ e ∈ root :: layers, ∀ method ∈ registry.protocol,
    u.heap.hasMember e method.1 = true
  /-- As long as the last layer is alive all are, with the same receiver. That is the last layer
  itself, and no other is its own receiver, until something is built on it. -/
  receiver : ∀ u, t.Later u → ∀ top, layers.getLast? = some top → u.isLive top = true →
    ∀ e ∈ root :: layers, u.isLive e = true ∧ u.receiver e = u.receiver top ∧
      (u.upgrade? top = none → u.receiver e = top ∧ (u.receiver e = e ↔ e = top))
  /-- Whoever holds the layers keeps the last one alive, and nothing is built on it yet. -/
  held : let u := { t with held := layers.map (.value <| .entity ·) ++ t.held }
    t.Later u ∧ ∀ top, layers.getLast? = some top → u.isLive top = true ∧ u.upgrade? top = none
  /-- What there was before is as it was, -/
  entities : ∀ e, s.heap.Has (.entity e) → t.heap.entity e = s.heap.entity e
  /-- tables included. -/
  scopes : ∀ x, s.heap.Has (.scope x) → t.heap.scope x = s.heap.scope x

theorem hasMember_of_grows {heap after : Heap} (sound : heap.Sound) (grows : heap.Grows after)
    (has : heap.Has (.entity e)) (known : heap.hasMember e name = true) :
    after.hasMember e name = true := by
  have membersHas := (sound.has_tables has).2.2
  rw [Heap.hasMember, Heap.contains, List.any_eq_true] at known ⊢
  obtain ⟨x, place, declares⟩ := known
  rw [(grows.entity e has).members, grows.path membersHas]
  refine ⟨x, place, ?_⟩
  obtain ⟨cell, found⟩ := Option.isSome_iff_exists.1 declares
  obtain ⟨_, there, _⟩ := (grows.scope x (sound.has_path membersHas place)).cells name cell found
  exact Option.isSome_iff_exists.2 ⟨_, there⟩

theorem receiver_of_layers (sound : t.Sound) (has : t.heap.Has (.entity top))
    (on : ∀ e ∈ base :: layers, t.heap.BuiltOn top e) (later : t.Later u)
    (live : u.isLive top = true) : ∀ e ∈ base :: layers,
      u.isLive e = true ∧ u.receiver e = u.receiver top ∧
        (u.upgrade? top = none → u.receiver e = top ∧ (u.receiver e = e ↔ e = top)) := by
  intro e place
  have soundAfter := later.sound sound
  have above := (on e place).later sound.heap later.heap.grows has
  have same := soundAfter.receiver_of_builtOn above live
  refine ⟨soundAfter.isLive_of_builtOn above live, same, fun last => ?_⟩
  have is : u.receiver e = top :=
    same.trans (soundAfter.receiver_of_none (later.heap.grows.has _ has) last)
  exact ⟨is, is ▸ eq_comm⟩

theorem held_layers (sound : t.Sound) (has : ∀ e ∈ layers, t.heap.Has (.entity e))
    (free : ∀ top, layers.getLast? = some top → (t.heap.entity top).derived = none) :
    let u := { t with held := layers.map (.value <| .entity ·) ++ t.held }
    t.Later u ∧ ∀ top, layers.getLast? = some top →
      u.isLive top = true ∧ u.upgrade? top = none := by
  intro u
  have known : ∀ x ∈ layers.map (Object.value <| .entity ·), t.heap.HasAll x.refs := by
    intro x place
    obtain ⟨e, listed, rfl⟩ := List.mem_map.1 place
    exact Heap.hasAll_cons.2 ⟨has e listed, Heap.hasAll_nil _⟩
  refine ⟨(sound.later_hold known).1, fun top last => ⟨Session.isLive_of_isRooted ?_, ?_⟩⟩
  · have held : Object.value (.entity top) ∈ u.held :=
      List.mem_append_left _ (List.mem_map_of_mem (List.mem_of_getLast? last))
    have owned : (u.ownedBy (.value (.entity top))).contains (.entity top) = true := by
      simp [Session.ownedBy, Value.owned]
    simp only [Session.isRooted, Bool.or_eq_true, List.any_eq_true]
    exact .inl (.inr ⟨_, held, owned⟩)
  · have none : (u.heap.entity top).derived = none := free top last
    rw [Session.upgrade?, none, Option.filter_none]

/-- From a registry whose methods have names of their own a complete chain can be made. -/
theorem exists_complete (sound : s.Sound) (registered : s.heap.HasAll registry.owned)
    (spelled : ∀ method ∈ registry.protocol, isIdentifier method.1 = true)
    (distinct : (registry.protocol.map Prod.fst).Nodup)
    (known : ∀ type ∈ types, s.heap.Has (.entity type)) :
    ∃ root layers t, registry.instantiateChain types s = .ok layers t ∧
      registry.Complete s types root layers t := by
  obtain ⟨root, m, makes, is, -⟩ := instantiateRoot_of_distinct (s := s) spelled distinct
  have run : Run true s m ∧ m.heap.HasAll [.entity root] :=
    (registry.runs_instantiateRoot sound.fit registered).result makes
  have made := run.1.steps sound.fit
  have soundMade := made.sound sound
  obtain ⟨entities, scopes⟩ := kept_of_instantiateRoot makes
  have grows := made.heap.grows
  have knownStill : ∀ type ∈ types, m.heap.Has (.entity type) :=
    fun type place => grows.has _ (known type place)
  -- First what the layers are once they stand, then that the root is still what it was made as.
  obtain ⟨layers, t, builds, -, stand⟩ := buildLayers_eq_ok is.has is.derived knownStill
  have raised := raised_buildLayers soundMade is.has is.derived knownStill builds
  have growsMore := raised.later.heap.grows
  have soundAfter := raised.later.sound soundMade
  have root' := growsMore.entity root is.has
  have hasAll : ∀ e ∈ root :: layers, t.heap.Has (.entity e) :=
    List.forall_mem_cons.2 ⟨growsMore.has _ is.has, fun e place => (raised.new e place).2⟩
  have carries : t.heap.Carries root registry.protocol :=
    is.methods.later growsMore is.has (raised.scopes _ is.methods.has)
  have finds (e : EntityId) (place : e ∈ root :: layers) (method : String × Callable)
      (listed : method ∈ registry.protocol) :
      t.heap.Finds (.member method.1) e root method.2 := by
    obtain ⟨b, own, -, binding⟩ := carries.own distinct listed
    exact stand.finds soundAfter.heap (fun d place => (raised.new d place).2) raised.bare
      ⟨.refl, b, Request.resolve_of_own own, binding⟩ e place
  have lastOf (top : EntityId) (last : layers.getLast? = some top) :
      (root :: layers).getLast? = some top := by
    cases layers with
    | nil => cases last
    | cons => rwa [List.getLast?_cons_cons]
  refine ⟨root, layers, t, ?_, ⟨made.trans raised.later, ?_, ?_, root'.name.trans is.name,
    root'.type.trans is.type, root'.super.trans is.super, stand, finds, ?_, ?_, ?_, ?_, ?_⟩⟩
  · simp only [instantiateChain, bind, EStateM.bind, makes, builds]
  · refine fun e place => ⟨?_, hasAll e place⟩
    rcases List.mem_cons.1 place with rfl | above
    · exact is.fresh
    · exact fun old => (raised.new e above).1 (grows.has _ old)
  · exact List.nodup_cons.2 ⟨fun place => (raised.new root place).1 is.has, raised.distinct⟩
  · intro u later e place method listed
    obtain ⟨b, resolved, _⟩ := (finds e place method listed).resolved
    exact hasMember_of_grows soundAfter.heap later.heap.grows (hasAll e place)
      (Heap.hasMember_of_resolve resolved)
  · intro u later top last live
    have listed := List.mem_of_getLast? last
    exact receiver_of_layers soundAfter (raised.new top listed).2
      (stand.builtOn (lastOf top last)) later live
  · exact held_layers soundAfter (fun e place => (raised.new e place).2)
      fun top last => raised.last top (lastOf top last)
  · intro e old
    have apart : e ≠ root := fun same => is.fresh (same ▸ old)
    rw [raised.entities e (grows.has _ old) apart, entities e old]
  · intro x old
    rw [raised.scopes x (grows.has _ old), scopes x old]

/-- Chains can be made one after another, any number of times and of the same types again. -/
theorem exists_completes (sound : s.Sound) (registered : s.heap.HasAll registry.owned)
    (spelled : ∀ method ∈ registry.protocol, isIdentifier method.1 = true)
    (distinct : (registry.protocol.map Prod.fst).Nodup) (calls : List (List EntityId))
    (known : ∀ types ∈ calls, ∀ type ∈ types, s.heap.Has (.entity type)) :
    ∃ results t, calls.mapM registry.instantiateChain s = .ok results t ∧ s.Later t ∧
      (∀ e, s.heap.Has (.entity e) → t.heap.entity e = s.heap.entity e) ∧
      List.Forall₂ (fun types layers => ∃ root before after, s.Later before ∧
        registry.Complete before types root layers after ∧ after.Later t) calls results := by
  induction calls generalizing s with
  | nil => exact ⟨[], s, rfl, .refl, fun _ _ => rfl, .nil⟩
  | cons types rest ih =>
    obtain ⟨here, others⟩ := List.forall_mem_cons.1 known
    obtain ⟨root, layers, m, makes, complete⟩ :=
      exists_complete sound registered spelled distinct here
    have grows := complete.later.heap.grows
    obtain ⟨results, t, all, later, entities, each⟩ := ih (complete.later.sound sound)
      (grows.hasAll registered) fun types place type listed =>
        grows.has _ (others types place type listed)
    refine ⟨layers :: results, t, ?_, complete.later.trans later, fun e old => ?_,
      .cons ⟨root, s, m, .refl, complete, later⟩ (each.imp ?_)⟩
    · simp only [List.mapM_cons, bind, EStateM.bind, makes, all]
      rfl
    · rw [entities e (grows.has _ old), complete.entities e old]
    · rintro _ _ ⟨root, before, after, start, chain, ends⟩
      exact ⟨root, before, after, complete.later.trans start, chain, ends⟩

theorem protocol_of_bootstrap (makes : bootstrap s = .ok registry t) :
    registry.protocol = rootProtocol := by
  obtain ⟨_, _, _, makes⟩ := Action.bind_eq_ok makes
  obtain ⟨_, _, _, makes⟩ := Action.bind_eq_ok makes
  obtain ⟨_, _, _, makes⟩ := Action.bind_eq_ok makes
  obtain ⟨_, _, _, makes⟩ := Action.bind_eq_ok makes
  cases makes
  rfl

/-- From every finished registry whose methods have names of their own, the core registry among
them, complete chains can be made of any types, at any time and any number of times. -/
theorem complete_chains :
    (∀ a b registry, a.Reachable → bootstrap a = .ok registry b →
      ∃ added s, Constructed added [] registry s ∧ registry.finish s = .ok registry b ∧
        ((Registry.methods added).map Prod.fst).Nodup) ∧
    ∀ added refused registry registry' s t u, Constructed added refused registry s →
      registry.finish s = .ok registry' t → ((Registry.methods added).map Prod.fst).Nodup →
      t.Later u →
      registry'.protocol = Registry.methods added ∧
      (∀ e, registry'.type? "Object" = some e ↔
        .type e ∈ added ∧ (u.heap.entity e).name = "Object") ∧
      (∀ types, (∀ type ∈ types, u.heap.Has (.entity type)) → ∃ root layers v,
        registry'.instantiateChain types u = .ok layers v ∧
          registry'.Complete u types root layers v) ∧
      ∀ calls : List (List EntityId), (∀ types ∈ calls, ∀ type ∈ types, u.heap.Has (.entity type)) →
        ∃ results v, calls.mapM registry'.instantiateChain u = .ok results v ∧
          (∀ e, u.heap.Has (.entity e) → v.heap.entity e = u.heap.entity e) ∧
          List.Forall₂ (fun types layers => ∃ root before after, u.Later before ∧
            registry'.Complete before types root layers after ∧ after.Later v) calls results := by
  refine ⟨fun a b registry reachable makes => ?_,
    fun added refused registry registry' s t u constructed finishes distinct later => ?_⟩
  · obtain ⟨added, s, constructed, finishes⟩ := constructed_bootstrap reachable makes
    refine ⟨added, s, constructed, finishes, ?_⟩
    rw [← constructed.tells.protocol, protocol_of_bootstrap makes]
    decide
  · cases finishes
    have tells := constructed.tells
    have all : s.Later u := tells.later_finish.trans later
    have sound := all.sound tells.reachable.sound
    have registered := all.heap.grows.hasAll tells.known
    rw [← tells.protocol] at distinct
    refine ⟨tells.protocol, (tells.finished later).type "Object",
      fun types known => exists_complete sound registered tells.spelled distinct known,
      fun calls known => ?_⟩
    obtain ⟨results, v, makes, -, entities, each⟩ :=
      exists_completes sound registered tells.spelled distinct calls known
    exact ⟨results, v, makes, entities, each⟩

/-- A chain from the core registry, with two layers of one type. -/
theorem complete_chains_of_core_types :
    ∃ registry b root layers v, bootstrap Program.founded = .ok registry b ∧
      registry.instantiateChain [⟨2⟩, ⟨0⟩, ⟨2⟩] b = .ok layers v ∧
        registry.Complete b [⟨2⟩, ⟨0⟩, ⟨2⟩] root layers v := by
  have facts : bootstrap.succeeds Program.founded = true ∧
      2 < (bootstrap.after Program.founded).heap.entities.size := by decide +kernel
  cases makes : bootstrap Program.founded with
  | error => simp [Action.succeeds, makes] at facts
  | ok registry b =>
    simp only [Action.after, makes] at facts
    obtain ⟨core, chains⟩ := complete_chains
    obtain ⟨added, s, constructed, finishes, distinct⟩ := core _ _ _ ⟨[], .start⟩ makes
    obtain ⟨-, -, complete, -⟩ := chains _ _ _ _ _ _ _ constructed finishes distinct .refl
    obtain ⟨root, layers, v, builds, is⟩ := complete [⟨2⟩, ⟨0⟩, ⟨2⟩] (by
      simp only [List.forall_mem_cons, Heap.Has]
      exact ⟨facts.2, Nat.lt_trans Nat.two_pos facts.2, facts.2, List.forall_mem_nil _⟩)
    exact ⟨registry, b, root, layers, v, rfl, builds, is⟩

end Registry

end Delegation
