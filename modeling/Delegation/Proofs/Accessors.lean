import Delegation.Proofs.Activation
import Delegation.Proofs.Properties
import Delegation.Proofs.Sight

/-!
# Computed properties

A computed property is a cell that names a getter and perhaps a setter, both methods of the layer
that declares the property. How many arguments an accessor takes is checked when it is declared, so
the calls that reading and writing come to have as many as there are parameters, from whatever layer
the name is reached. Such a call is all that is made: its failure is that of the reading or writing,
and its result is what has been read, while that of a setter is dropped.

A layer that an entity alive leads to is alive, and it keeps the accessors in its tables; to call
one of them leaves everything alive or gone as it was.
-/

namespace Delegation

variable {s t u : Session} {b g : BindingId} {callable get set : Callable} {args : List Value}
  {e d owner : EntityId} {x y : ScopeId} {name : String} {cell : Cell} {v : Value}

/-! ## Layers that a name leads to -/

namespace Request

variable {request : Request} {heap : Heap} {layers : List EntityId}

theorem path_table (sound : heap.Sound) (has : heap.Has (.entity e))
    (walk : heap.Descends e layers) : heap.path (request.table (heap.entity e)) =
      layers.map fun d => request.table (heap.entity d) :=
  sound.path_table (fun _ has => lineage_table sound has) has walk

theorem table_inj (ordered : heap.Ordered) (has : heap.Has (.entity d))
    (has' : heap.Has (.entity e))
    (same : request.table (heap.entity d) = request.table (heap.entity e)) : d = e := by
  by_contra other
  have members := (ordered.tables_ne has has' other).2
  cases request with
  | member => exact members same
  | hook | call =>
    have sides := (ordered.tables d has).1
    have sides' := (ordered.tables e has').1
    have hooks : (heap.entity d).hooks = (heap.entity e).hooks := same
    rw [hooks, ← sides'] at sides
    exact members (congrArg ScopeId.mk sides)

theorem builtOn_of_resolve (sound : heap.Sound) (ordered : heap.Ordered)
    (has : heap.Has (.entity e)) (ownerHas : heap.Has (.entity owner))
    (leads : request.resolve heap e = some (request.table (heap.entity owner), cell)) :
    heap.BuiltOn e owner := by
  obtain ⟨layers, walk⟩ := sound.exists_descends has
  obtain ⟨x, place, found⟩ := List.exists_of_findSome?_eq_some leads
  obtain ⟨_, -, same⟩ := Option.map_eq_some_iff.1 found
  rw [path_table sound has walk] at place
  obtain ⟨d, listed, is⟩ := List.mem_map.1 place
  have dHas := sound.has_of_descends has walk d listed
  have table : request.table (heap.entity d) = request.table (heap.entity owner) :=
    is.trans (congrArg Prod.fst same)
  rw [← table_inj ordered dHas ownerHas table]
  exact walk.mem_iff.1 listed

end Request

/-! ## Computed cells -/

/-- A cell of a property that methods of an entity compute. -/
inductive Heap.Computes (heap : Heap) (owner : EntityId) : Callable → Option Callable → Cell → Prop
  | readOnly {get : Callable} {g : BindingId} (getter : heap.binding g = ⟨get, .declared owner⟩)
      (nullary : get.arity = 0) : Computes heap owner get none (.computed g none)
  | readWrite {get set : Callable} {g b : BindingId}
      (getter : heap.binding g = ⟨get, .declared owner⟩) (nullary : get.arity = 0)
      (setter : heap.binding b = ⟨set, .declared owner⟩) (unary : set.arity = 1) :
      Computes heap owner get (some set) (.computed g (some b))

/-- The property with the given accessors. -/
def Property.computed (get : Callable) : Option Callable → Property
  | none => .getter get
  | some set => .accessors get set

theorem declareProperty_of_getter_arity (other : get.arity ≠ 0) (set? : Option Callable)
    (e : EntityId) (name : String) (s : Session) :
    declareProperty e name (.computed get set?) s =
      .error (.failure (.ofCause (.arityMismatch get.name 0 get.arity))) s := by
  have fails : checkAccessor get 0 = fail (.arityMismatch get.name 0 get.arity) := if_neg other
  cases set? <;> simp only [Property.computed, declareProperty, propertyCell, bind, EStateM.bind,
    fails] <;> rfl

theorem declareProperty_of_setter_arity (nullary : get.arity = 0) (other : set.arity ≠ 1)
    (e : EntityId) (name : String) (s : Session) :
    declareProperty e name (.computed get (some set)) s =
      .error (.failure (.ofCause (.arityMismatch set.name 1 set.arity))) s := by
  have passes : checkAccessor get 0 = pure () := if_pos nullary
  have fails : checkAccessor set 1 = fail (.arityMismatch set.name 1 set.arity) := if_neg other
  simp only [Property.computed, declareProperty, propertyCell, bind, EStateM.bind, passes, fails]
  rfl

theorem declareProperty_getter (nullary : get.arity = 0) (e : EntityId) (name : String)
    (s : Session) : declareProperty e name (.computed get none) s =
      let getter := s.heap.addBinding ⟨get, .declared e⟩
      declare (s.heap.entity e).members name (.computed getter.1 none)
        { s with heap := getter.2 } := by
  have passes : checkAccessor get 0 = pure () := if_pos nullary
  simp only [Property.computed, declareProperty, propertyCell, bind, EStateM.bind, passes]
  rfl

theorem declareProperty_accessors (nullary : get.arity = 0) (unary : set.arity = 1) (e : EntityId)
    (name : String) (s : Session) : declareProperty e name (.computed get (some set)) s =
      let getter := s.heap.addBinding ⟨get, .declared e⟩
      let setter := getter.2.addBinding ⟨set, .declared e⟩
      declare (s.heap.entity e).members name (.computed getter.1 (some setter.1))
        { s with heap := setter.2 } := by
  have passes : checkAccessor get 0 = pure () := if_pos nullary
  have passes' : checkAccessor set 1 = pure () := if_pos unary
  simp only [Property.computed, declareProperty, propertyCell, bind, EStateM.bind, passes, passes']
  rfl

namespace Session

/-- A computed property has been declared on an entity before. -/
def DeclaredProperty (s : Session) (e : EntityId) (name : String) (get : Callable)
    (set? : Option Callable) : Prop :=
  ∃ before after, before.Reachable ∧ before.heap.Has (.entity e) ∧
    declareProperty e name (.computed get set?) before = .ok () after ∧ after.Later s

/-- What has been declared in the members of an entity and is no mutable cell stays there, and so do
the bindings there were. -/
theorem own_of_declare {after : Session} (has : t.heap.Has (.entity e))
    (tableHas : t.heap.Has (.scope (t.heap.entity e).members))
    (fixed : cell.kind ≠ .mutable)
    (declares : declare (t.heap.entity e).members name cell t = .ok () after)
    (later : after.Later s) :
    (Request.member name).own s.heap e = some cell ∧
      ∀ b, t.heap.Has (.binding b) → s.heap.binding b = t.heap.binding b := by
  obtain ⟨found, stillHas, entities, bindings⟩ := declare_eq_ok tableHas declares
  have grows := later.heap.grows
  have entity : after.heap.entity e = t.heap.entity e := by
    simp only [Heap.entity, entities]
  have hasAfter : after.heap.Has (.entity e) := by simpa only [Heap.Has, entities] using has
  refine ⟨?_, fun b bHas => ?_⟩
  · obtain ⟨cell', there, became⟩ := (grows.scope _ stillHas).cells _ _ found
    have members : (s.heap.entity e).members = (t.heap.entity e).members :=
      (grows.entity e hasAfter).members.trans (congrArg Entity.members entity)
    show (s.heap.scope (s.heap.entity e).members).cell? name = some cell
    rw [members, there, became.kind.2 fixed]
  · have bHasAfter : after.heap.Has (.binding b) := by simpa only [Heap.Has, bindings] using bHas
    rw [grows.binding b bHasAfter]
    simp only [Heap.binding, bindings]

/-- A declared property stands in the members of its entity from then on, with accessors that take
as many arguments as they are given. -/
theorem DeclaredProperty.own {set? : Option Callable}
    (declared : s.DeclaredProperty e name get set?) :
    ∃ cell, (Request.member name).own s.heap e = some cell ∧ s.heap.Computes e get set? cell := by
  obtain ⟨before, after, reachable, has, declares, later⟩ := declared
  have nullary : get.arity = 0 := by
    by_contra other
    rw [declareProperty_of_getter_arity other] at declares
    cases declares
  have tableHas := (reachable.sound.heap.has_tables has).2.2
  let getter := before.heap.addBinding ⟨get, .declared e⟩
  have getterIs : getter.2.binding getter.1 = ⟨get, .declared e⟩ := Heap.binding_addBinding _ _
  have getterHas : getter.2.Has (.binding getter.1) := by simp [getter, Heap.Has, Heap.addBinding]
  cases set? with
  | none =>
    rw [declareProperty_getter nullary] at declares
    obtain ⟨own, same⟩ := own_of_declare (t := { before with heap := getter.2 }) has tableHas
      (by simp [Cell.kind]) declares later
    exact ⟨_, own, .readOnly ((same _ getterHas).trans getterIs) nullary⟩
  | some set =>
    have unary : set.arity = 1 := by
      by_contra other
      rw [declareProperty_of_setter_arity nullary other] at declares
      cases declares
    rw [declareProperty_accessors nullary unary] at declares
    let setter := getter.2.addBinding ⟨set, .declared e⟩
    have setterIs : setter.2.binding setter.1 = ⟨set, .declared e⟩ := Heap.binding_addBinding _ _
    have setterHas : setter.2.Has (.binding setter.1) := by
      simp [setter, Heap.Has, Heap.addBinding]
    have stillIs : setter.2.binding getter.1 = ⟨get, .declared e⟩ :=
      (Heap.binding_addBinding_of_lt _ getterHas).trans getterIs
    have stillHas : setter.2.Has (.binding getter.1) := (Heap.grows_addBinding _ _).has _ getterHas
    obtain ⟨own, same⟩ := own_of_declare (t := { before with heap := setter.2 }) has tableHas
      (by simp [Cell.kind]) declares later
    exact ⟨_, own, .readWrite ((same _ stillHas).trans stillIs) nullary
      ((same _ setterHas).trans setterIs) unary⟩

theorem DeclaredProperty.has {set? : Option Callable}
    (declared : s.DeclaredProperty e name get set?) : s.heap.Has (.entity e) := by
  obtain ⟨before, after, reachable, has, declares, later⟩ := declared
  have fit := reachable.sound.fit
  have known : before.heap.HasAll (Property.computed get set?).refs := by
    cases set? <;> exact Heap.hasAll_nil _
  have declared : before.Later after :=
    ((runs_declareProperty fit has name known).result declares).1.steps fit
  exact later.heap.grows.has _ (declared.heap.grows.has _ has)

/-! ## Calls of declared methods -/

theorem Sound.counting (sound : s.Sound) (has : s.heap.Has (.binding b)) (kind : BindingKind) :
    (s.counting kind b).Sound :=
  { sound with
    held := List.forall_mem_cons.2 ⟨Heap.hasAll_cons.2 ⟨has, Heap.hasAll_nil _⟩, sound.held⟩ }

/-- A declared method owns nothing, so having it in hand keeps nobody alive. -/
theorem Sound.isLive_counting (sound : s.Sound) (has : s.heap.Has (.binding b))
    (declared : s.heap.binding b = ⟨callable, .declared owner⟩) (kind : BindingKind)
    (d : EntityId) : (s.counting kind b).isLive d = s.isLive d := by
  have after := sound.counting has kind
  have beside : s.Beside (s.counting kind b) := ⟨rfl, rfl, rfl, rfl, rfl, rfl⟩
  have retains : s.Retains (s.counting kind b) :=
    ⟨beside.roots_subset (List.Subset.refl _) (List.subset_cons_self _ _),
      fun y _ => List.Subset.refl _⟩
  have rooted : (s.counting kind b).roots ⊆ s.roots ++ [.binding b] :=
    beside.symm.roots (List.subset_append_left _ _) fun y place =>
      (List.mem_cons.1 place).elim (fun is => .inr (is ▸ List.Subset.refl _)) .inl
  have owns : (s.counting kind b).heap.owned (.binding b) = [] :=
    congrArg (fun binding : Binding => binding.strategy.owned) declared
  have still {x : Node} (released : s.Released x) (other : x ≠ .binding b) :
      (s.counting kind b).Released x := by
    induction released with
    | intro x unrooted owners ih =>
      refine .intro x (fun root => ?_) fun y owned => ih y owned ?_
      · rcases List.mem_append.1 (rooted root) with old | new
        · exact unrooted old
        · exact other (List.mem_singleton.1 new)
      · rintro rfl
        exact absurd (owns ▸ owned : x ∈ []) List.not_mem_nil
  rw [Bool.eq_iff_iff, after.isLive_iff, sound.isLive_iff, not_iff_not]
  exact ⟨retains.released sound, fun released => still released nofun⟩

/-- A call runs the body of a method in a frame of the receiver of its entity, and that is all it
does. -/
structure RunsFor (s : Session) (b : BindingId) (callable : Callable) (owner : EntityId)
    (args : List Value) (u : Session) : Prop extends s.RunsMethod b callable owner args u where
  surrounds : s.Surrounds b args callable.body u
  serves : u.machine.currentFrame.owner = .entity (s.receiver owner)

theorem Reachable.runsFor (reachable : s.Reachable) (has : s.heap.Has (.binding b))
    (known : ∀ v ∈ args, s.heap.HasAll v.owned) (enough : args.length = callable.arity)
    (affords : s.Affords) (declared : s.heap.binding b = ⟨callable, .declared owner⟩)
    (kept : ¬s.Released (.binding b)) (live : s.isLive owner = true) :
    ∃ u, s.RunsFor b callable owner args u := by
  have sound := reachable.sound
  have ownerHas := sound.has_of_isLive live
  obtain ⟨steady, -⟩ := sound.steady_calling_kept live has kept
  obtain ⟨u, runs⟩ := reachable.runsMethod has known enough affords (.inr declared) kept live
  have due : s.Due b args callable.body _ :=
    .method (.inr ⟨declared, (sound.isLive_counting has declared .method owner).trans live⟩) enough
  have surrounds := due.surrounds affords
  obtain rfl := runs.enters.unique surrounds.enters
  exact ⟨_, runs, surrounds, congrArg Value.entity (steady.receiver sound ownerHas)⟩

theorem Reachable.runsFor_of_own {request : Request} (reachable : s.Reachable)
    (live : s.isLive owner = true) (own : request.own s.heap owner = some cell)
    (owns : .binding b ∈ cell.owned) (declared : s.heap.binding b = ⟨callable, .declared owner⟩)
    (known : ∀ v ∈ args, s.heap.HasAll v.owned) (enough : args.length = callable.arity)
    (affords : s.Affords) : ∃ u, s.RunsFor b callable owner args u := by
  have sound := reachable.sound
  have tableHas := request.has_table sound.heap (sound.has_of_isLive live)
  obtain ⟨-, cellHas, -⟩ := sound.heap.has_resolve tableHas (Request.resolve_of_own own)
  exact reachable.runsFor (cellHas _ owns) known enough affords declared
    (request.not_released_of_own (sound.isLive_iff.1 live) own owns) live

theorem RunsMethod.lookup_argument (runs : s.RunsMethod b callable owner args u) {i : Nat}
    (param : callable.params[i]? = some name) (arg : args[i]? = some v) (run : Runner) :
    lookup run name u = .ok v u := by
  obtain ⟨p, identity, layers, globals, passes, -, -, -, views, -⟩ := runs.views
  have declares := passes.values u .start i name v param arg
  have first : u.heap.First (p :: identity :: s.heap.tablesOf owner layers ++ globals) name p
      (.constant v) := ⟨⟨[], _, rfl, List.forall_mem_nil _⟩, declares⟩
  rw [(views.sees u .start rfl).lookup]
  simp only [holding]
  rw [readIn_of_first run (s := { u with held := _ :: u.held }) first]
  rfl

end Session

/-! ## Calls that readings and writings come to -/

theorem BindingId.call_eq_putDown (b : BindingId) (args : List Value) (run : Runner) (s : Session) :
    b.call run args s = unwind s.putDown (fun _ failure => failure) (b.call run args s) := by
  have holds : b.call run args s = _ := holding_eq_unwind _ _ s
  rw [holds, unwind_unwind]
  rfl

namespace Route

/-- What is held while a name is read. -/
def held (s : Session) : Route → List Object
  | .scope _ => []
  | .chain scopes => [.ofScopes scopes]
  | .free => [.ofScopes s.machine.currentChain]

/-- The session in which a name is looked for. -/
def within (route : Route) (s : Session) : Session := { s with held := route.held s ++ s.held }

/-- The scopes to look in are there. -/
def Known (s : Session) : Route → Prop
  | .scope x => s.heap.Has (.scope x)
  | .chain scopes => ∀ x ∈ scopes, s.heap.Has (.scope x)
  | .free => True

/-- What reading a name does. -/
def chronicle (run : Runner) (bodies : Body → Session → Chronicle) (name : String) :
    Route → Session → Chronicle
  | .scope x => Chronicle.get run bodies x name
  | .chain scopes => Chronicle.chainGet run bodies scopes name
  | .free => Chronicle.lookup run bodies name

end Route

theorem ScopeId.get_of_computed {b? : Option BindingId}
    (leads : s.heap.resolve y name = some (x, .computed g b?)) (run : Runner) :
    y.get run name s = g.call run [] s := by
  simp only [ScopeId.get, bind, EStateM.bind, Action.getThe_eq_ok, leads]

theorem Chronicle.get_of_computed {b? : Option BindingId}
    (leads : s.heap.resolve y name = some (x, .computed g b?)) (run : Runner)
    (bodies : Body → Session → Chronicle) :
    Chronicle.get run bodies y name s = Chronicle.call run bodies g [] s := by
  simp only [Chronicle.get, leads]

theorem ScopeId.set_of_setter (leads : s.heap.resolve y name = some (x, .computed g (some b)))
    (run : Runner) (v : Value) :
    y.set run name v s = (b.call run [v] >>= fun _ => pure ()) s := by
  simp only [ScopeId.set, bind, EStateM.bind, Action.getThe_eq_ok, leads]

theorem ScopeId.set_of_no_setter (leads : s.heap.resolve y name = some (x, .computed g none))
    (run : Runner) (v : Value) :
    y.set run name v s = .error (.failure (.ofCause (.constantAssignment name))) s := by
  simp only [ScopeId.set, bind, EStateM.bind, Action.getThe_eq_ok, leads]
  rfl

theorem Chain.get_of_computed {chain : Chain} {b? : Option BindingId}
    (leads : s.heap.resolveIn chain name = some (x, .computed g b?)) (run : Runner) :
    Chain.get run chain name s = holding (.ofScopes chain) (g.call run []) s ∧
      ∀ bodies, Chronicle.chainGet run bodies chain name s =
        Chronicle.call run bodies g [] { s with held := .ofScopes chain :: s.held } := by
  obtain ⟨y, found, there⟩ := Heap.resolveIn_eq_some leads
  have reads := ScopeId.get_of_computed (s := { s with held := .ofScopes chain :: s.held }) there
    run
  have told := Chronicle.get_of_computed (s := { s with held := .ofScopes chain :: s.held }) there
    run
  refine ⟨?_, fun bodies => ?_⟩
  · simp only [Chain.get, holding, bind, EStateM.bind, Action.getThe_eq_ok, found, reads]
  · simp only [Chronicle.chainGet, Chronicle.keeping, found, told]

/-- By whatever route a computed cell is read, the reading comes to a call of the getter. -/
theorem Route.get_of_computed {route : Route} {b? : Option BindingId}
    (leads : route.resolve s name = some (x, .computed g b?)) (run : Runner) :
    route.get run name s =
        unwind s.putDown (fun _ failure => failure) (g.call run [] (route.within s)) ∧
      ∀ bodies, route.chronicle run bodies name s =
        Chronicle.call run bodies g [] (route.within s) := by
  cases route with
  | scope y =>
    refine ⟨?_, Chronicle.get_of_computed leads run⟩
    exact (ScopeId.get_of_computed leads run).trans (g.call_eq_putDown [] run s)
  | chain scopes | free =>
    obtain ⟨reads, told⟩ := Chain.get_of_computed leads run
    exact ⟨reads.trans (holding_eq_unwind _ _ s), told⟩

theorem Route.later_within {route : Route} (sound : s.Sound) (known : route.Known s) :
    s.Later (route.within s) ∧ ∀ e, s.isLive e = true → (route.within s).isLive e = true := by
  have scopes (chain : Chain) (chainKnown : ∀ x ∈ chain, s.heap.Has (.scope x)) :
      ∀ y ∈ [Object.ofScopes chain], s.heap.HasAll y.refs :=
    List.forall_mem_singleton.2 ((refs_ofScopes chain).symm ▸ hasAll_chain.2 chainKnown)
  cases route with
  | scope => exact sound.later_hold (List.forall_mem_nil _)
  | chain chain => exact sound.later_hold (scopes chain known)
  | free => exact sound.later_hold (scopes _ (hasAll_chain.1 sound.fit.currentChain))

/-! ## Reading and writing -/

theorem Chronicle.getMember_of_resolve
    (leads : s.heap.resolve (s.heap.entity e).members name = some (x, cell)) (run : Runner)
    (bodies : Body → Session → Chronicle) : Chronicle.getMember run bodies e name s =
      Chronicle.get run bodies (s.heap.entity e).members name s := by
  have known := Heap.hasMember_of_resolve leads
  simp only [Chronicle.getMember, known, if_true]

theorem Chronicle.setMember_of_resolve
    (leads : s.heap.resolve (s.heap.entity e).members name = some (x, cell)) (run : Runner)
    (bodies : Body → Session → Chronicle) (v : Value) :
    Chronicle.setMember run bodies e name v s =
      Chronicle.set run bodies (s.heap.entity e).members name v s := by
  have known := Heap.hasMember_of_resolve leads
  simp only [Chronicle.setMember, known, if_true]

namespace Session

/-- Reading a computed property is one call of its getter, on behalf of the receiver of the layer
that declares the property. -/
structure ReadsBy (s : Session) (e : EntityId) (name : String) (get : Callable) (owner : EntityId)
    (g : BindingId) : Prop where
  calls : ∀ run, getMember run e name s = (g.call run [] >>= handOut) s
  /-- What fails is the call. -/
  fails : ∀ run stop t, g.call run [] s = .error stop t → getMember run e name s = .error stop t
  /-- The result of the call is what is read. -/
  gives : ∀ run v t, g.call run [] s = .ok v t → t.Plain v → getMember run e name s = .ok v t
  /-- A method that does not own its entity is handed out in a copy that does. -/
  attaches : ∀ run b callable d t, g.call run [] s = .ok (.binding b) t →
    t.heap.binding b = ⟨callable, .declared d⟩ → t.isLive d = true → getMember run e name s =
      .ok (.binding (t.heap.addBinding ⟨callable, .method d⟩).1)
        { t with heap := (t.heap.addBinding ⟨callable, .method d⟩).2 }
  told : ∀ run bodies,
    Chronicle.getMember run bodies e name s = Chronicle.call run bodies g [] s
  runs : s.Affords → ∃ u, s.RunsFor g get owner [] u

/-- So is reading it in a scope or in a chain, or as a free name, and the result is not touched. -/
structure ReadsAlong (s : Session) (route : Route) (name : String) (get : Callable)
    (owner : EntityId) (g : BindingId) : Prop where
  calls : ∀ run, route.get run name s =
    unwind s.putDown (fun _ failure => failure) (g.call run [] (route.within s))
  told : ∀ run bodies,
    route.chronicle run bodies name s = Chronicle.call run bodies g [] (route.within s)
  runs : s.Affords → ∃ u, (route.within s).RunsFor g get owner [] u

/-- Writing to a computed property is one call of its setter, which finds the value under the name
of its parameter, and whose result is dropped. -/
structure WritesBy (s : Session) (e : EntityId) (name : String) (set : Callable) (owner : EntityId)
    (b : BindingId) : Prop where
  calls : ∀ run v, setMember run e name v s = (b.call run [v] >>= fun _ => pure ()) s
  succeeds : ∀ run v t, setMember run e name v s = .ok () t ↔ ∃ w, b.call run [v] s = .ok w t
  fails : ∀ run v stop t,
    setMember run e name v s = .error stop t ↔ b.call run [v] s = .error stop t
  told : ∀ run bodies v,
    Chronicle.setMember run bodies e name v s = Chronicle.call run bodies b [v] s
  runs : s.Affords → ∀ v, s.heap.HasAll v.owned →
    ∃ param u, set.params = [param] ∧ s.RunsFor b set owner [v] u ∧
      ∀ run, lookup run param u = .ok v u

/-- Writing to a property without a setter fails, runs nothing and changes nothing. -/
structure Unwritable (s : Session) (e : EntityId) (name : String) : Prop where
  fails : ∀ run v, setMember run e name v s =
    .error (.failure (.ofCause (.constantAssignment name))) s
  told : ∀ run bodies v, Chronicle.setMember run bodies e name v s =
    [⟨.raise (.ofCause (.constantAssignment name)), s⟩]

variable {b? : Option BindingId}

theorem readsBy_of_computed (reachable : s.Reachable) (live : s.isLive owner = true)
    (own : (Request.member name).own s.heap owner = some (.computed g b?))
    (getter : s.heap.binding g = ⟨get, .declared owner⟩) (nullary : get.arity = 0)
    (leads : s.heap.resolve (s.heap.entity e).members name = some (x, .computed g b?)) :
    s.ReadsBy e name get owner g := by
  have calls (run : Runner) : getMember run e name s = (g.call run [] >>= handOut) s := by
    rw [getMember_eq leads]
    simp only [bind, EStateM.bind, ScopeId.get_of_computed leads]
  have result {run : Runner} {v : Value} {t : Session} (ends : g.call run [] s = .ok v t) :
      getMember run e name s = handOut v t := by
    rw [calls]
    simp only [bind, EStateM.bind, ends]
  refine ⟨calls, fun run stop t ends => ?_,
    fun run v t ends plain => (result ends).trans (handOut_of_plain plain),
    fun run b callable d t ends method dLive =>
      (result ends).trans (handOut_of_declared method dLive), fun run bodies => ?_,
    fun affords => ?_⟩
  · rw [calls]
    simp only [bind, EStateM.bind, ends]
  · rw [Chronicle.getMember_of_resolve leads, Chronicle.get_of_computed leads]
  · exact reachable.runsFor_of_own live own (by simp [Cell.owned]) getter (List.forall_mem_nil _)
      nullary.symm affords

theorem readsAlong_of_computed {route : Route} (reachable : s.Reachable)
    (live : s.isLive owner = true)
    (own : (Request.member name).own s.heap owner = some (.computed g b?))
    (getter : s.heap.binding g = ⟨get, .declared owner⟩) (nullary : get.arity = 0)
    (known : route.Known s) (leads : route.resolve s name = some (x, .computed g b?)) :
    s.ReadsAlong route name get owner g := by
  obtain ⟨later, lives⟩ := route.later_within reachable.sound known
  refine ⟨fun run => (Route.get_of_computed leads run).1,
    fun run => (Route.get_of_computed leads run).2, fun affords => ?_⟩
  exact (reachable.later later).runsFor_of_own (lives owner live) own (by simp [Cell.owned]) getter
    (List.forall_mem_nil _) nullary.symm ⟨affords.depth, affords.budget⟩

theorem writesBy_of_computed (reachable : s.Reachable) (live : s.isLive owner = true)
    (own : (Request.member name).own s.heap owner = some (.computed g (some b)))
    (setter : s.heap.binding b = ⟨set, .declared owner⟩) (unary : set.arity = 1)
    (leads : s.heap.resolve (s.heap.entity e).members name = some (x, .computed g (some b))) :
    s.WritesBy e name set owner b := by
  have calls (run : Runner) (v : Value) :
      setMember run e name v s = (b.call run [v] >>= fun _ => pure ()) s :=
    (setMember_eq leads run v).trans (ScopeId.set_of_setter leads run v)
  refine ⟨calls, fun run v t => ?_, fun run v stop t => ?_, fun run bodies v => ?_,
    fun affords v known => ?_⟩
  · rw [calls]
    simp only [bind, EStateM.bind]
    cases b.call run [v] s with
    | ok w u => exact ⟨fun is => ⟨w, by cases is; rfl⟩, fun ⟨_, is⟩ => by cases is; rfl⟩
    | error stop u => exact ⟨nofun, nofun⟩
  · rw [calls]
    simp only [bind, EStateM.bind]
    cases b.call run [v] s with
    | ok w u => exact ⟨nofun, nofun⟩
    | error stop u => exact ⟨fun is => by cases is; rfl, fun is => by cases is; rfl⟩
  · rw [Chronicle.setMember_of_resolve leads]
    simp only [Chronicle.set, leads]
  · obtain ⟨u, runs⟩ := reachable.runsFor_of_own live own (by simp [Cell.owned]) setter
      (List.forall_mem_singleton.2 known) unary.symm affords
    obtain ⟨param, only⟩ := List.length_eq_one_iff.1 unary
    exact ⟨param, u, only, runs, runs.lookup_argument (i := 0) (by rw [only]; rfl) rfl⟩

theorem unwritable_of_computed
    (leads : s.heap.resolve (s.heap.entity e).members name = some (x, .computed g none)) :
    s.Unwritable e name where
  fails run v := (setMember_eq leads run v).trans (ScopeId.set_of_no_setter leads run v)
  told run bodies v := by
    rw [Chronicle.setMember_of_resolve leads]
    simp only [Chronicle.set, leads, Chronicle.quietly, Chronicle.step,
      ScopeId.set_of_no_setter leads]

/-- A layer that the name of a property leads to from an entity alive is alive, and the cell that is
found there is that of the property. -/
theorem DeclaredProperty.reached {set? : Option Callable} (reachable : s.Reachable)
    (declared : s.DeclaredProperty owner name get set?) (live : s.isLive e = true)
    (leads : s.heap.resolve (s.heap.entity e).members name =
      some ((s.heap.entity owner).members, cell)) :
    s.isLive owner = true ∧ (Request.member name).own s.heap owner = some cell ∧
      s.heap.Computes owner get set? cell := by
  have sound := reachable.sound
  obtain ⟨cell', own, computes⟩ := declared.own
  have same : some cell = some cell' := (Heap.cell?_of_resolve leads).symm.trans own
  cases same
  have found : (Request.member name).resolve s.heap e =
      some ((Request.member name).table (s.heap.entity owner), cell) := leads
  have on := Request.builtOn_of_resolve sound.heap reachable.ordered (sound.has_of_isLive live)
    declared.has found
  exact ⟨sound.isLive_of_builtOn on live, own, computes⟩

/-- Computed properties, from their declaration to their use. Accessors that take another number of
arguments than they will be given are not declared, and nothing changes. Whatever has been declared
serves every entity alive whose name leads to it, from any layer: to read the property, along any
route, is to call the getter once, and to write to it is to call the setter once, if there is one.
-/
theorem computed_properties (reachable : s.Reachable) (owner : EntityId) (name : String)
    (get : Callable) (set? : Option Callable) :
    (get.arity ≠ 0 → declareProperty owner name (.computed get set?) s =
      .error (.failure (.ofCause (.arityMismatch get.name 0 get.arity))) s) ∧
    (get.arity = 0 → ∀ set, set? = some set → set.arity ≠ 1 →
      declareProperty owner name (.computed get set?) s =
        .error (.failure (.ofCause (.arityMismatch set.name 1 set.arity))) s) ∧
    (s.DeclaredProperty owner name get set? → ∀ e cell, s.isLive e = true →
      s.heap.resolve (s.heap.entity e).members name =
        some ((s.heap.entity owner).members, cell) →
      ∃ g, s.ReadsBy e name get owner g ∧
        (∀ route : Route, route.Known s →
          route.resolve s name = some ((s.heap.entity owner).members, cell) →
            s.ReadsAlong route name get owner g) ∧
        (∀ set, set? = some set → ∃ b, s.WritesBy e name set owner b) ∧
        (set? = none → s.Unwritable e name)) := by
  refine ⟨fun other => declareProperty_of_getter_arity other set? owner name s, ?_, ?_⟩
  · rintro nullary set rfl other
    exact declareProperty_of_setter_arity nullary other owner name s
  · intro declared e cell live leads
    obtain ⟨ownerLive, own, computes⟩ := declared.reached reachable live leads
    cases computes with
    | readOnly getter nullary =>
      exact ⟨_, readsBy_of_computed reachable ownerLive own getter nullary leads,
        fun route known there =>
          readsAlong_of_computed reachable ownerLive own getter nullary known there,
        nofun, fun _ => unwritable_of_computed leads⟩
    | readWrite getter nullary setter unary =>
      refine ⟨_, readsBy_of_computed reachable ownerLive own getter nullary leads,
        fun route known there =>
          readsAlong_of_computed reachable ownerLive own getter nullary known there,
        fun set is => ?_, nofun⟩
      cases is
      exact ⟨_, writesBy_of_computed reachable ownerLive own setter unary leads⟩

/-- A property of the lower of two layers, as the upper one has it. -/
theorem computed_property_of_lower_layer : ∃ s : Session, s.isLive ⟨1⟩ = true ∧ ∃ g b get set u,
    s.ReadsBy ⟨1⟩ "p" get ⟨0⟩ g ∧ s.WritesBy ⟨1⟩ "p" set ⟨0⟩ b ∧ s.RunsFor g get ⟨0⟩ [] u ∧
      u.machine.currentFrame.owner = .entity ⟨1⟩ := by
  let get : Callable := .nullary "p" (.root .text)
  let set : Callable := ⟨"p", ["v"], .root .text, by decide +kernel, by decide⟩
  let declares : Action Unit := declareProperty ⟨0⟩ "p" (.computed get (some set))
  let upper : Expr := .bind "b" (.apply (.command (.entity .entity)) [.str "B", .var "a"])
  obtain ⟨first, reachable, has, succeeds, facts⟩ : ∃ first : Session, first.Reachable ∧
      0 < first.heap.entities.size ∧ declares.succeeds first = true ∧
      let s := (Program.runSteps [upper]).after (declares.after first)
      s.isLive ⟨1⟩ = true ∧ s.heap.resolve (s.heap.entity ⟨1⟩).members "p" =
          some ((s.heap.entity ⟨0⟩).members, .computed ⟨0⟩ (some ⟨1⟩)) ∧
        s.receiver ⟨0⟩ = ⟨1⟩ ∧ s.machine.stack.limit = none ∧
        (s.machine.countCall .method).overBudget? = none :=
    ⟨_, Program.reachable_runSteps {}
      [.bind "a" (.apply (.command (.entity .entity)) [.str "A"])], by decide +kernel⟩
  have fit := reachable.sound.fit
  have declared : first.Later (declares.after first) :=
    (runs_declareProperty fit has "p" (Heap.hasAll_nil _)).after.steps fit
  have later := Program.later_runSteps (declared.sound reachable.sound) [upper]
  have property : DeclaredProperty _ ⟨0⟩ "p" get (some set) :=
    ⟨first, _, reachable, has, Action.eq_ok_of_succeeds succeeds, later⟩
  generalize (Program.runSteps [upper]).after (declares.after first) = s
    at facts later property
  obtain ⟨live, leads, receiver, unlimited, budget⟩ := facts
  obtain ⟨g, reads, -, writes, -⟩ :=
    (computed_properties (reachable.later (declared.trans later)) ⟨0⟩ "p" get (some set)).2.2
      property ⟨1⟩ _ live leads
  obtain ⟨b, writes⟩ := writes set rfl
  obtain ⟨u, runs⟩ := reads.runs ⟨by simp [unlimited], budget⟩
  exact ⟨s, live, g, b, get, set, u, reads, writes, runs, receiver ▸ runs.serves⟩

end Session

end Delegation
