import Delegation.Proofs.Balance
import Delegation.Proofs.Chains
import Delegation.Proofs.Fetching
import Delegation.Proofs.Isolation
import Delegation.Proofs.Moments

/-!
# What a body sees

The free names of a body are looked for in a list of tables that is settled when the body begins. A
function has its parameters, then the scope that encloses it with its ancestors, then the globals. A
method has its parameters, `self` and `super`, the fields of the entity it is declared on, the
members of that entity and of the layers below it, and then the globals. Of the layers above it has
nothing, and of those below no fields.

The list holds whenever the frame of the body is current and nothing has been put in front of its
chain, whatever has been declared, assigned or called in the meantime. Tables gain names and cells
gain values, but a scope keeps its ancestors and an entity its tables.
-/

namespace Delegation

variable {s t u : Session} {b : BindingId} {callable : Callable} {args : List Value}
  {body : Body} {frame : Frame} {owner e : EntityId} {layers : List EntityId} {p x : ScopeId}

theorem Heap.Widens.flatten {heap after : Heap} {chain : Chain} (widens : heap.Widens after)
    (known : ∀ x ∈ chain, heap.Has (.scope x)) : after.flatten chain = heap.flatten chain :=
  List.flatMap_congr fun x place => widens.path (known x place)

/-! ## The course of a body -/

namespace Session

/-- A session in the course of a body: one that its chronicle tells of, or one that comes about when
it evaluates an expression or does something to the heap. -/
inductive During (u : Session) (body : Body) : Session → Prop
  | start : During u body u
  | told {nesting : Nat} {moment : Moment} (place : moment ∈ body.chronicle nesting u) :
      During u body moment.session
  | within {t : Session} {nesting : Nat} {e : Expr} {moment : Moment} (before : During u body t)
      (place : moment ∈ e.chronicle nesting t) : During u body moment.session
  | after {t : Session} (nesting : Nat) (e : Expr) (before : During u body t) :
      During u body ((eval (runBody nesting) e).after t)
  | later {t t' : Session} (before : During u body t) (later : t.Later t') : During u body t'

theorem During.widens (during : u.During body t) : u.heap.Widens t.heap := by
  have keeps (t : Session) (nesting : Nat) (e : Expr) :
      (eval (runBody nesting) e).Keeps Heap.Widens t (e.chronicle nesting t) :=
    Action.logic_keeps.holds_expr nesting (.inl rfl)
  induction during with
  | start => exact .refl _
  | told place => exact body.widens _ u _ place
  | within _ place ih => exact ih.trans ((keeps _ _ _).moments _ place)
  | after nesting e _ ih => exact ih.trans (keeps _ nesting e).after
  | later _ later ih => exact ih.trans later.heap.widens

theorem During.constant {name : String} {v : Value} (during : u.During body t)
    (has : u.heap.Has (.scope x)) (found : (u.heap.scope x).cell? name = some (.constant v)) :
    (t.heap.scope x).cell? name = some (.constant v) := by
  obtain ⟨cell, there, became⟩ := (during.widens.scope x has).cells name _ found
  rw [there, became.constant]

/-- Free names are those of a list of tables: whatever is read or assigned to is what the first
table has that declares the name. -/
structure SeesIn (t : Session) (tables : List ScopeId) : Prop where
  lookup : ∀ run name, lookup run name t =
    holding (.ofScopes t.machine.currentChain) (readIn run tables name) t
  assign : ∀ run name v, assign run name v t =
    holding (.ofScopes t.machine.currentChain) (writeIn run tables name v) t

/-- The tables of a body: as often as the frame in which it begins is current, free names are looked
for there, and each expression it evaluates leaves that frame behind as it was. -/
structure Views (u : Session) (body : Body) (tables : List ScopeId) : Prop where
  sees : ∀ t, u.During body t → t.machine.stack.current = u.machine.stack.current → t.SeesIn tables
  again : ∀ t, u.During body t → t.machine.stack.current = u.machine.stack.current → t.Sound →
    t.running.index < t.machines.size → (∀ body ∈ t.code, Expr.guardedAll body = true) →
    ∀ nesting e, e.guarded = true →
      ((eval (runBody nesting) e).after t).machine.stack.current = u.machine.stack.current

/-- What a body sees is settled by the chain of the frame in which it begins. -/
theorem views_flatten (current : u.machine.stack.current = some frame)
    (known : ∀ x ∈ frame.chain, u.heap.Has (.scope x)) :
    u.Views body (u.heap.flatten frame.chain) where
  sees t during same := by
    have chain : t.machine.currentChain = frame.chain := by
      simp only [Machine.currentChain, same, current]
    have flat : t.heap.flatten t.machine.currentChain = u.heap.flatten frame.chain := by
      rw [chain, during.widens.flatten known]
    exact ⟨fun run name => flat ▸ Chain.get_eq run _ name t,
      fun run name v => flat ▸ Chain.set_eq run _ name v t⟩
  again t _ same sound present code nesting e guarded := by
    rw [CallStack.current, (stack_after_eval nesting sound present code guarded).1]
    exact same

/-! ## Scopes made for a call -/

/-- The scope with the parameters of a call, which stand for the arguments throughout the body. -/
structure Passes (s u : Session) (callable : Callable) (args : List Value) (p : ScopeId) :
    Prop where
  fresh : ¬s.heap.Has (.scope p)
  symbols : (u.heap.scope p).symbols = callable.params
  values : ∀ t, u.During callable.body t → ∀ (i : Nat) name (v : Value),
    callable.params[i]? = some name → args[i]? = some v →
      (t.heap.scope p).cell? name = some (.constant v)

theorem passes_of_made (fresh : ¬s.heap.Has (.scope p)) (has : u.heap.Has (.scope p))
    (made : u.heap.scope p = callable.parameters args) (enough : args.length = callable.arity) :
    s.Passes u callable args p where
  fresh := fresh
  symbols := by rw [made, Callable.symbols_parameters enough]
  values t during i name v param arg :=
    during.constant has (made ▸ Callable.cell?_parameters param arg)

/-- The scope in which a method finds throughout its body who received the call, and what the entity
it is declared on is built on. -/
structure Identifies (s u : Session) (body : Body) (owner : EntityId) (x : ScopeId) : Prop where
  fresh : ¬s.heap.Has (.scope x)
  symbols : (u.heap.scope x).symbols = ["self", "super"]
  self : ∀ t, u.During body t →
    (t.heap.scope x).cell? "self" = some (.constant (.entity (s.receiver owner)))
  super : ∀ t, u.During body t →
    (t.heap.scope x).cell? "super" = some (.constant (.ofEntity? (s.heap.entity owner).super))

theorem identifies_of_made (fresh : ¬s.heap.Has (.scope x)) (has : u.heap.Has (.scope x))
    (made : u.heap.scope x = identityScope s.heap owner (s.receiver owner)) :
    s.Identifies u body owner x where
  fresh := fresh
  symbols := by rw [made]; rfl
  self t during := during.constant has (made ▸ rfl)
  super t during := by
    refine during.constant has (made ▸ ?_)
    unfold identityScope
    cases (s.heap.entity owner).super <;> rfl

end Session

/-! ## Calls that do not come to a body -/

theorem fails_callMethod {cause : Cause}
    (full : ∀ frame, s.machine.stack.push frame = .error cause) (callable : Callable)
    (owner : EntityId) (args : List Value) :
    Fails (fun run => callMethod run callable owner args) s :=
  .holding (.after (fun _ => rfl) (.after (fun _ => rfl) (.withFrame (full _))))

/-- A call that the limit on the depth or the budget leaves no room for fails before a body begins,
whatever is called. -/
theorem BindingId.fails_of_not_affords (b : BindingId) (args : List Value) (full : ¬s.Affords) :
    Fails (fun run => b.call run args) s := by
  refine .holding (.after (fun _ => rfl) ?_)
  dsimp only
  let counted : Session :=
    { s with
      held := .value (.binding b) :: s.held
      machine := s.machine.countCall (s.heap.binding b).strategy.kind }
  have weighs := s.machine.overBudget?_countCall (s.heap.binding b).strategy.kind
  cases budget : (s.machine.countCall .method).overBudget? with
  | some cause =>
    refine ⟨.ofCause cause, counted, fun run => ?_⟩
    have refused : countCall (s.heap.binding b).strategy.kind
        { s with held := .value (.binding b) :: s.held } =
          .error (.failure (.ofCause cause)) counted := countCall_over (weighs.trans budget)
    simp only [bind, EStateM.bind, refused]
  | none =>
    have within : countCall (s.heap.binding b).strategy.kind
        { s with held := .value (.binding b) :: s.held } = .ok () counted :=
      countCall_within (weighs.trans budget)
    refine .after (fun _ => within) ?_
    obtain ⟨limit, limited, reached⟩ := Session.deep_of_not_affords full budget
    have deep (frame : Frame) : counted.machine.stack.push frame = .error (.depthExceeded limit) :=
      CallStack.push_eq_error_iff.2 ⟨limit, limited, reached, rfl⟩
    clear_value counted
    cases (s.heap.binding b).strategy with
    | function => exact .after (fun _ => rfl) (.withFrame (deep _))
    | method owner => exact fails_callMethod deep _ owner args
    | closure => exact .withFrame (deep _)
    | declared owner =>
      refine .after (fun _ => rfl) ?_
      split
      · exact fails_callMethod deep _ owner args
      · exact ⟨_, _, fun _ => rfl⟩

/-! ## Functions -/

namespace Session

/-- A call runs the body of a function, which sees its parameters, the scope that encloses it with
its ancestors, and the globals. -/
structure RunsFunction (s : Session) (b : BindingId) (callable : Callable)
    (enclosing : Option ScopeId) (args : List Value) (u : Session) : Prop where
  enters : Enters (fun run => b.call run args) s callable.body u
  later : s.Later u
  views : ∃ p outer globals, s.Passes u callable args p ∧
    (∀ x, enclosing = some x → s.heap.Ascends x outer) ∧ (enclosing = none → outer = []) ∧
    s.heap.Ascends s.machine.globals globals ∧
    u.Views callable.body (p :: outer ++ globals)

theorem enters_function {enclosing : Option ScopeId}
    (function : s.heap.binding b = ⟨callable, .function enclosing⟩) (affords : s.Affords)
    (enough : args.length = callable.arity) :
    Enters (fun run => b.call run args) s callable.body
      (s.framing .function b callable
        ⟨.binding b, callable.name, enclosing.toList ++ [s.machine.globals]⟩ args) := by
  refine .holding (.after (fun _ => rfl) ?_)
  dsimp only
  simp only [function]
  have within := (s.machine.overBudget?_countCall .function).trans affords.budget
  refine .after (fun _ => countCall_within within) (.after (fun _ => rfl) ?_)
  exact .withFrame (CallStack.push_of_room _ affords.depth) (callable.enters_invoke enough nofun)

theorem Reachable.runsFunction {enclosing : Option ScopeId} (reachable : s.Reachable)
    (has : s.heap.Has (.binding b)) (known : ∀ v ∈ args, s.heap.HasAll v.owned)
    (enough : args.length = callable.arity) (affords : s.Affords)
    (function : s.heap.binding b = ⟨callable, .function enclosing⟩) :
    ∃ u, s.RunsFunction b callable enclosing args u := by
  have sound := reachable.sound
  have ordered := reachable.ordered
  let frame : Frame := ⟨.binding b, callable.name, enclosing.toList ++ [s.machine.globals]⟩
  let made := s.heap.addScope (callable.parameters args)
  let u := s.framing .function b callable frame args
  have globalsHas : s.heap.Has (.scope s.machine.globals) := sound.fit.globals
  have enclosingHas : ∀ x ∈ enclosing.toList, s.heap.Has (.scope x) := by
    intro x place
    have refs := sound.heap.has_binding has
    rw [function] at refs
    exact refs _ (List.mem_map_of_mem place)
  have chainHas : ∀ x ∈ frame.chain, s.heap.Has (.scope x) :=
    List.forall_mem_append.2 ⟨enclosingHas, List.forall_mem_singleton.2 globalsHas⟩
  have frameKnown : s.heap.HasAll frame.owned :=
    Heap.hasAll_cons.2 ⟨has, hasAll_chain.2 chainHas⟩
  have later : s.Later u := sound.later_framing has .function frameKnown known enough
  have madeHas : u.heap.Has (.scope made.1) := s.heap.has_addScope _
  have madeIs : u.heap.scope made.1 = callable.parameters args := Heap.scope_addScope _ _
  have tables : u.heap.flatten (made.1 :: frame.chain) =
      made.1 :: s.heap.flatten enclosing.toList ++ s.heap.path s.machine.globals := by
    rw [Heap.flatten_cons, later.heap.widens.flatten chainHas, Heap.flatten_append,
      Heap.flatten_singleton, Heap.path_of_root (madeIs ▸ rfl)]
    rfl
  refine ⟨u, enters_function function affords enough, later, made.1,
    s.heap.flatten enclosing.toList, s.heap.path s.machine.globals,
    passes_of_made (s.heap.not_has_addScope _) madeHas madeIs enough, ?_, ?_,
    (ordered.path globalsHas).1, ?_⟩
  · rintro x rfl
    rw [Option.toList_some, Heap.flatten_singleton]
    exact (ordered.path (enclosingHas x List.mem_cons_self)).1
  · rintro rfl
    rfl
  · have current : u.machine.stack.current = some (frame.pushInner made.1) := rfl
    rw [← tables]
    exact views_flatten current
      (List.forall_mem_cons.2 ⟨madeHas, fun x place => later.heap.grows.has _ (chainHas x place)⟩)

end Session

/-! ## Tables of layers -/

namespace Heap

variable {heap : Heap}

theorem BuiltOn.older {d base : EntityId} (on : heap.BuiltOn d base) (sound : heap.Sound)
    (has : heap.Has (.entity d)) : base = d ∨ base.index < d.index := by
  induction on with
  | refl => exact .inl rfl
  | @tail middle base on is ih =>
    have middleHas := BuiltOn.has on sound has
    have derived := sound.derivedOfSuper middle base middleHas is
    have older := (sound.superOfDerived base middle (sound.has_super middleHas is) derived).2
    rcases ih with rfl | ih
    · exact .inr older
    · exact .inr (Nat.lt_trans older ih)

/-- The tables that a method has of entities: the fields of the one it is declared on, and the
members of that one and of the layers below it. -/
def tablesOf (heap : Heap) (owner : EntityId) (layers : List EntityId) : List ScopeId :=
  (heap.entity owner).fields :: layers.map fun d => (heap.entity d).members

section Tables

variable (sound : heap.Sound) (ordered : heap.Ordered) (ownerHas : heap.Has (.entity owner))
  (walk : heap.Descends owner layers)

include sound ownerHas walk

theorem has_tablesOf : ∀ x ∈ heap.tablesOf owner layers, heap.Has (.scope x) := by
  refine List.forall_mem_cons.2 ⟨(sound.has_tables ownerHas).1, fun x place => ?_⟩
  obtain ⟨d, listed, rfl⟩ := List.mem_map.1 place
  exact (sound.has_tables (sound.has_of_descends ownerHas walk d listed)).2.2

include ordered

theorem fields_mem_tablesOf_iff (has : heap.Has (.entity e)) :
    (heap.entity e).fields ∈ heap.tablesOf owner layers ↔ e = owner := by
  refine ⟨fun place => ?_, fun same => same ▸ List.mem_cons_self⟩
  rcases List.mem_cons.1 place with same | listed
  · by_contra other
    exact (ordered.tables_ne has ownerHas other).1 same
  · obtain ⟨d, listed, same⟩ := List.mem_map.1 listed
    have dHas := sound.has_of_descends ownerHas walk d listed
    exact absurd same.symm (ordered.fields_ne_members has dHas)

theorem members_mem_tablesOf_iff (has : heap.Has (.entity e)) :
    (heap.entity e).members ∈ heap.tablesOf owner layers ↔ heap.BuiltOn owner e := by
  rw [BuiltOn, ← walk.mem_iff]
  refine ⟨fun place => ?_, fun listed => List.mem_cons_of_mem _ (List.mem_map_of_mem listed)⟩
  rcases List.mem_cons.1 place with same | listed
  · exact absurd same.symm (ordered.fields_ne_members ownerHas has)
  · obtain ⟨d, listed, same⟩ := List.mem_map.1 listed
    have dHas := sound.has_of_descends ownerHas walk d listed
    by_contra missing
    have other : d ≠ e := fun same => missing (same ▸ listed)
    exact (ordered.tables_ne dHas has other).2 same

end Tables

end Heap

/-! ## Methods -/

namespace Session

/-- Whose tables are in a list for a method that is called: of all entities there are at some time,
those of the owner, and the members of those it was built on; nothing of the layers above. -/
structure Reserves (s t : Session) (tables : List ScopeId) (owner e : EntityId) : Prop where
  fields : (t.heap.entity e).fields ∈ tables ↔ e = owner
  members : (t.heap.entity e).members ∈ tables ↔ s.heap.BuiltOn owner e
  above : s.heap.BuiltOn e owner → e ≠ owner → (t.heap.entity e).members ∉ tables

/-- A call runs the body of a method, which sees its parameters, `self` and `super`, the tables that
it has of entities, and the globals. -/
structure RunsMethod (s : Session) (b : BindingId) (callable : Callable) (owner : EntityId)
    (args : List Value) (u : Session) : Prop where
  enters : Enters (fun run => b.call run args) s callable.body u
  later : s.Later u
  views : ∃ p identity layers globals, s.Passes u callable args p ∧
    s.Identifies u callable.body owner identity ∧ s.heap.Descends owner layers ∧
    s.heap.Ascends s.machine.globals globals ∧
    u.Views callable.body (p :: identity :: s.heap.tablesOf owner layers ++ globals) ∧
    ∀ t, u.During callable.body t → ∀ e, t.heap.Has (.entity e) →
      s.Reserves t (p :: identity :: s.heap.tablesOf owner layers) owner e

/-- New scopes are tables of no entity there was, and the tables of new entities are newer still. -/
theorem reserves_of_widens {front : List ScopeId} (sound : s.heap.Sound) (ordered : s.heap.Ordered)
    (ownerHas : s.heap.Has (.entity owner)) (walk : s.heap.Descends owner layers)
    (fresh : ∀ x ∈ front, ¬s.heap.Has (.scope x)) (grows : s.heap.Grows u.heap)
    (entities : u.heap.entities = s.heap.entities) (made : ∀ x ∈ front, u.heap.Has (.scope x))
    (widens : u.heap.Widens t.heap) (has : t.heap.Has (.entity e)) :
    s.Reserves t (front ++ s.heap.tablesOf owner layers) owner e := by
  by_cases old : s.heap.Has (.entity e)
  · have still : u.heap.Has (.entity e) := grows.has _ old
    have same : u.heap.entity e = s.heap.entity e := by simp only [Heap.entity, entities]
    obtain ⟨fields, members⟩ := widens.tables e still
    obtain ⟨fieldsHas, -, membersHas⟩ := sound.has_tables old
    have membersIff : (t.heap.entity e).members ∈ front ++ s.heap.tablesOf owner layers ↔
        s.heap.BuiltOn owner e := by
      rw [members, same, List.mem_append, or_iff_right fun new => fresh _ new membersHas]
      exact Heap.members_mem_tablesOf_iff sound ordered ownerHas walk old
    refine ⟨?_, membersIff, fun on other place => ?_⟩
    · rw [fields, same, List.mem_append, or_iff_right fun new => fresh _ new fieldsHas]
      exact Heap.fields_mem_tablesOf_iff sound ordered ownerHas walk old
    · rcases on.older sound old with same | older
      · exact other same.symm
      · rcases (membersIff.1 place).older sound ownerHas with same | younger
        · exact other same
        · exact Nat.lt_asymm older younger
  · have absent : ¬u.heap.Has (.entity e) := by simpa only [Heap.Has, entities] using old
    obtain ⟨fields, members⟩ := widens.fresh e has absent
    have listed : ∀ x ∈ front ++ s.heap.tablesOf owner layers, u.heap.Has (.scope x) :=
      List.forall_mem_append.2 ⟨made, fun x place =>
        grows.has _ (Heap.has_tablesOf sound ownerHas walk x place)⟩
    have other : e ≠ owner := fun same => old (same ▸ ownerHas)
    have apart : ¬s.heap.BuiltOn owner e := fun on => old (on.has sound ownerHas)
    exact ⟨iff_of_false (fun place => fields (listed _ place)) other,
      iff_of_false (fun place => members (listed _ place)) apart,
      fun _ _ place => members (listed _ place)⟩

theorem Reachable.runsMethod (reachable : s.Reachable)
    (has : s.heap.Has (.binding b)) (known : ∀ v ∈ args, s.heap.HasAll v.owned)
    (enough : args.length = callable.arity) (affords : s.Affords)
    (method : s.heap.binding b = ⟨callable, .method owner⟩ ∨
      s.heap.binding b = ⟨callable, .declared owner⟩)
    (kept : ¬s.Released (.binding b)) (live : s.isLive owner = true) :
    ∃ u, s.RunsMethod b callable owner args u := by
  have sound := reachable.sound
  have ordered := reachable.ordered
  have ownerHas := sound.has_of_isLive live
  have globalsHas : s.heap.Has (.scope s.machine.globals) := sound.fit.globals
  obtain ⟨fieldsHas, -, membersHas⟩ := sound.heap.has_tables ownerHas
  obtain ⟨layers, walk⟩ := sound.heap.exists_descends ownerHas
  -- To be called leaves everything alive as it was, so the receiver is the one there was before.
  obtain ⟨steady, calls⟩ := sound.steady_calling_kept live has kept
  obtain ⟨before, -⟩ := sound.steady_calling live (.inl rfl) [.binding b]
    (by simp [Value.owned, has]) (by simp [Value.owned, kept]) rfl
  have enters := b.enters_call
    (method.imp id fun is => ⟨is, (before.isLive_eq sound ownerHas).trans live⟩) affords enough
  rw [steady.receiver sound ownerHas] at enters
  let u := (s.calling b owner).serving callable owner (s.receiver owner) args
  let identity := s.heap.addScope (identityScope s.heap owner (s.receiver owner))
  let made := identity.2.addScope (callable.parameters args)
  have receiverHas := sound.has_of_isLive (sound.isLive_receiver live)
  have later : s.Later u :=
    calls.trans ((calls.sound sound).later_serving ownerHas receiverHas known enough)
  have grows := later.heap.grows
  have madeHas : u.heap.Has (.scope made.1) := identity.2.has_addScope _
  have madeIs : u.heap.scope made.1 = callable.parameters args := Heap.scope_addScope _ _
  have identityMade : identity.2.Has (.scope identity.1) := s.heap.has_addScope _
  have identityHas : u.heap.Has (.scope identity.1) :=
    (Heap.grows_addScope _ _).has _ identityMade
  have identityIs : u.heap.scope identity.1 = identityScope s.heap owner (s.receiver owner) :=
    (Heap.scope_addScope_of_lt _ identityMade).trans (Heap.scope_addScope _ _)
  have fresh : ∀ x ∈ [made.1, identity.1], ¬s.heap.Has (.scope x) := by
    have new : ¬s.heap.Has (.scope made.1) := fun old =>
      identity.2.not_has_addScope _ ((Heap.grows_addScope _ _).has _ old)
    exact List.forall_mem_cons.2 ⟨new, List.forall_mem_singleton.2 (s.heap.not_has_addScope _)⟩
  have chainHas : ∀ x ∈ methodChain s owner, s.heap.Has (.scope x) := by
    simp [methodChain, Heap.privateView, fieldsHas, membersHas, globalsHas]
  have tables : u.heap.flatten (made.1 :: identity.1 :: methodChain s owner) =
      made.1 :: identity.1 :: s.heap.tablesOf owner layers ++ s.heap.path s.machine.globals := by
    have chain : s.heap.flatten (methodChain s owner) =
        s.heap.tablesOf owner layers ++ s.heap.path s.machine.globals := by
      rw [methodChain, Heap.privateView, Heap.flatten_append, Heap.flatten_cons,
        Heap.flatten_singleton, Heap.flatten_singleton, sound.heap.path_fields ownerHas,
        sound.heap.path_members ownerHas walk]
      rfl
    rw [Heap.flatten_cons, Heap.flatten_cons, later.heap.widens.flatten chainHas, chain,
      Heap.path_of_root (madeIs ▸ rfl), Heap.path_of_root (identityIs ▸ rfl)]
    rfl
  refine ⟨u, enters, later, made.1, identity.1, layers, s.heap.path s.machine.globals,
    passes_of_made (fresh _ List.mem_cons_self) madeHas madeIs enough, ?_, walk,
    (ordered.path globalsHas).1, ?_, fun t during e eHas => ?_⟩
  · exact identifies_of_made (s.heap.not_has_addScope _) identityHas identityIs
  · have current : u.machine.stack.current = some ⟨.entity (s.receiver owner), callable.name,
        made.1 :: identity.1 :: methodChain s owner⟩ := rfl
    rw [← tables]
    exact views_flatten current
      (List.forall_mem_cons.2 ⟨madeHas, List.forall_mem_cons.2 ⟨identityHas, fun x place =>
        grows.has _ (chainHas x place)⟩⟩)
  · have hasBoth : ∀ x ∈ [made.1, identity.1], u.heap.Has (.scope x) :=
      List.forall_mem_cons.2 ⟨madeHas, List.forall_mem_singleton.2 identityHas⟩
    have reserves := reserves_of_widens sound.heap ordered ownerHas walk fresh grows rfl hasBoth
      during.widens eHas
    exact reserves

/-! ## All bodies -/

/-- What a body sees. A call that the limit on the depth or the budget leaves no room for does not
come to a body. Otherwise functions and methods whose entity is alive, if they are called with as
many arguments as they have parameters, find their free names in tables that are settled by the
call. Whoever calls a method has it in hand, so it has not been released. -/
theorem body_sight (reachable : s.Reachable) (has : s.heap.Has (.binding b))
    (known : ∀ v ∈ args, s.heap.HasAll v.owned) :
    (¬s.Affords → Fails (fun run => b.call run args) s) ∧
      (s.Affords → ∀ callable, args.length = callable.arity →
        (∀ enclosing, s.heap.binding b = ⟨callable, .function enclosing⟩ →
          ∃ u, s.RunsFunction b callable enclosing args u) ∧
        ∀ owner, s.heap.binding b = ⟨callable, .method owner⟩ ∨
            s.heap.binding b = ⟨callable, .declared owner⟩ →
          ¬s.Released (.binding b) → s.isLive owner = true →
            ∃ u, s.RunsMethod b callable owner args u) :=
  ⟨b.fails_of_not_affords args, fun affords _ enough =>
    ⟨fun _ function => reachable.runsFunction has known enough affords function,
      fun _ method kept live => reachable.runsMethod has known enough affords method kept live⟩⟩

/-- A method of the lower of two layers, which the upper one overrides. -/
theorem body_sight_below_override :
    let s := (Program.runSteps
      [.bind "a" (.apply (.command (.entity .entity)) [.str "A"]),
        .apply (.command (.entity .method)) [.var "a", .str "m", .nullary "m" [.void]],
        .bind "b" (.apply (.command (.entity .entity)) [.str "B", .var "a"]),
        .apply (.command (.entity .method)) [.var "b", .str "m", .nullary "m" [.void]]]).after
          (Program.ready {})
    s.Reachable ∧ s.heap.Has (.binding ⟨0⟩) ∧ s.Affords ∧ ¬s.Released (.binding ⟨0⟩) ∧
      s.isLive ⟨0⟩ = true ∧ s.heap.BuiltOn ⟨1⟩ ⟨0⟩ ∧
      ∃ u own globals,
        Enters (fun run => BindingId.call run ⟨0⟩ []) s (.script 0) u ∧
        u.SeesIn (own ++ globals) ∧ (u.heap.entity ⟨1⟩).members ∉ own := by
  let steps : List Expr :=
    [.bind "a" (.apply (.command (.entity .entity)) [.str "A"]),
      .apply (.command (.entity .method)) [.var "a", .str "m", .nullary "m" [.void]],
      .bind "b" (.apply (.command (.entity .entity)) [.str "B", .var "a"]),
      .apply (.command (.entity .method)) [.var "b", .str "m", .nullary "m" [.void]]]
  intro s
  have reachable : s.Reachable := Program.reachable_runSteps {} steps
  have facts : (0 < s.heap.bindings.size ∧ 1 < s.heap.entities.size) ∧ s.isLive ⟨0⟩ = true ∧
      (s.heap.entity ⟨1⟩).super = some ⟨0⟩ ∧
      (Request.member "m").own s.heap ⟨0⟩ = some (.constant (.binding ⟨0⟩)) ∧
      s.heap.binding ⟨0⟩ = ⟨.nullary "m" (.script 0), .declared ⟨0⟩⟩ ∧
      s.machine.stack.limit = none ∧ (s.machine.countCall .method).overBudget? = none := by
    decide +kernel
  obtain ⟨⟨has, upperHas⟩, live, super, declares, binding, unlimited, budget⟩ := facts
  have affords : s.Affords :=
    ⟨fun limit limited => absurd (unlimited.symm.trans limited) nofun, budget⟩
  have kept := Request.not_released (reachable.sound.isLive_iff.1 live) declares
  have on : s.heap.BuiltOn ⟨1⟩ ⟨0⟩ := .single super
  have sight := (body_sight reachable has (List.forall_mem_nil _)).2 affords
    (.nullary "m" (.script 0)) rfl
  obtain ⟨u, enters, later, p, identity, layers, globals, -, -, -, -, views, reserves⟩ :=
    sight.2 ⟨0⟩ (.inr binding) kept live
  have upper := reserves u .start ⟨1⟩ (later.heap.grows.has _ upperHas)
  exact ⟨reachable, has, affords, kept, live, on, u, _, globals, enters,
    views.sees u .start rfl, upper.above on nofun⟩

end Session

end Delegation
