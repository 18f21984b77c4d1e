import Delegation.Proofs.Asking

/-!
# Answering requests

An entity that is alive answers a request that leads to a method: nothing can get lost between the
look-up and the beginning of the body, and nothing that was gone comes back, so the body runs for
the receiver that the entity had when it was asked.
-/

namespace Delegation

variable {s t : Session} {request : Request} {e owner : EntityId} {callable : Callable}
  {args : List Value}

theorem Heap.BuiltOn.has {heap : Heap} {d base : EntityId} (on : heap.BuiltOn d base)
    (sound : heap.Sound) (has : heap.Has (.entity d)) : heap.Has (.entity base) := by
  induction on with
  | refl => exact has
  | tail _ is ih => exact sound.has_super ih is

/-! ## What a table keeps alive -/

theorem Scope.owned_of_cell? {scope : Scope} {name : String} {cell : Cell}
    (found : scope.cell? name = some cell) : cell.owned ⊆ scope.owned := by
  intro x owned
  have entry : (name, cell) ∈ scope.cells := by
    obtain ⟨before, after, is, _⟩ := List.lookup_eq_some_iff.1 found
    simp [is]
  have held : x ∈ Cell.ownedByAll scope.cells := Cell.mem_ownedByAll.2 ⟨_, entry, owned⟩
  unfold Scope.owned
  split
  · exact List.mem_cons_of_mem _ held
  · exact held

theorem Session.Released.owned {x y : Node} (released : s.Released x) (owns : x ∈ s.heap.owned y) :
    s.Released y := by
  cases released with
  | intro _ _ owners => exact owners y owns

/-- The cells in the tables of an entity keep what they own for as long as it lives. -/
theorem Request.not_released_of_own {cell : Cell} {x : Node} (live : ¬s.Released (.entity owner))
    (found : request.own s.heap owner = some cell) (owns : x ∈ cell.owned) : ¬s.Released x := by
  intro released
  have table : s.Released (.scope (request.table (s.heap.entity owner))) :=
    released.owned (Scope.owned_of_cell? found owns)
  refine live (table.owned ?_)
  cases request <;> simp [Heap.owned, Entity.owned, Request.table]

theorem Request.not_released {b : BindingId} (live : ¬s.Released (.entity owner))
    (found : request.own s.heap owner = some (.constant (.binding b))) :
    ¬s.Released (.binding b) := not_released_of_own live found List.mem_cons_self

/-- A session may go on with the same heap and no less in hand, and everyone stays alive. -/
theorem Session.Sound.later_of_beside (sound : s.Sound) (beside : s.Beside t)
    (heap : t.heap = s.heap) (machine : t.machine = s.machine) (held : s.held ⊆ t.held)
    (grounded : t.Grounded) : s.Later t ∧ ∀ e, s.isLive e = true → t.isLive e = true := by
  have later : s.Later t := .single ⟨.inl heap, grounded⟩
  have retains : s.Retains t :=
    ⟨beside.roots_subset (machine ▸ List.Subset.refl _) held, fun y _ => heap ▸ List.Subset.refl _⟩
  exact ⟨later, fun e => retains.isLive sound (later.sound sound)⟩

theorem Session.Sound.later_hold (sound : s.Sound) {xs : List Object}
    (known : ∀ x ∈ xs, s.heap.HasAll x.refs) : s.Later { s with held := xs ++ s.held } ∧
      ∀ e, s.isLive e = true → Session.isLive { s with held := xs ++ s.held } e = true :=
  sound.later_of_beside ⟨rfl, rfl, rfl, rfl, rfl, rfl⟩ rfl rfl (List.subset_append_right _ _)
    { sound.toGrounded with held := List.forall_mem_append.2 ⟨known, sound.held⟩ }

/-- Nobody comes back to life if what is taken in hand owns nothing but what is alive. -/
theorem Session.Sound.steady_hold (sound : s.Sound) {xs : List Object}
    (known : ∀ x ∈ xs, s.heap.HasAll x.refs)
    (alive : ∀ y ∈ xs, ∀ x ∈ Session.ownedBy { s with held := xs ++ s.held } y,
      s.heap.Has x → ¬s.Released x) : s.Steady { s with held := xs ++ s.held } :=
  have beside : s.Beside { s with held := xs ++ s.held } := ⟨rfl, rfl, rfl, rfl, rfl, rfl⟩
  beside.steady ((sound.later_hold known).1.sound sound) rfl rfl alive (.inl rfl)

theorem Request.later_declare (request : Request) (fit : s.Fit true) (has : s.heap.Has (.entity e))
    (declares : request.declare e callable s = .ok () t) : s.Later t := by
  cases request with
  | member name => exact ((runs_declareMethod fit has name callable).result declares).1.steps fit
  | hook name => exact ((runs_declareHook fit has name callable).result declares).1.steps fit
  | call => exact ((runs_declareHook fit has callHook callable).result declares).1.steps fit

theorem Session.Declared.has (declared : s.Declared request e callable) :
    s.heap.Has (.entity e) := by
  obtain ⟨before, after, reachable, has, declares, later⟩ := declared
  have declared := request.later_declare reachable.sound.fit has declares
  exact later.heap.grows.has _ (declared.heap.grows.has _ has)

/-! ## The way to the body -/

theorem Session.Sound.steady_calling (sound : s.Sound) (live : s.isLive owner = true) {heap : Heap}
    (made : heap = s.heap ∨ ∃ callable, heap = (s.heap.addBinding ⟨callable, .method owner⟩).2)
    (vs : List Value) (known : ∀ v ∈ vs, heap.HasAll v.owned)
    (alive : ∀ v ∈ vs, ∀ x ∈ v.owned, s.heap.Has x → ¬s.Released x) {t : Session}
    (is : t = { s with
      heap
      machine := s.machine.countCall .method
      held := vs.map Object.value ++ s.held }) : s.Steady t ∧ s.Later t := by
  have ownerHas := sound.has_of_isLive live
  have step : heap = s.heap ∨
      Heap.Step (fun frame => frame = s.machine.currentFrame) s.heap heap := by
    rcases made with same | ⟨_, added⟩
    · exact .inl same
    · exact .inr (added ▸ .addBinding (Heap.hasAll_cons.2 ⟨ownerHas, Heap.hasAll_nil _⟩) nofun)
  have fit : Session.Fit true { s with heap } := by
    rcases step with same | step
    · rw [same]
      exact sound.fit
    · exact sound.fit.step step
  have after : t.Sound := by
    rw [is]
    refine { fit with held := fun x place => ?_ }
    rcases List.mem_append.1 place with new | old
    · obtain ⟨v, listed, rfl⟩ := List.mem_map.1 new
      exact known v listed
    · exact fit.held x old
  have beside : s.Beside t := by
    rw [is]
    exact ⟨rfl, rfl, rfl, rfl, rfl, rfl⟩
  have held : t.held = vs.map Object.value ++ s.held := by rw [is]
  refine ⟨beside.steady after (by rw [is]; rfl) held ?_ ?_, .single ⟨?_, after.toGrounded⟩⟩
  · intro y listed
    obtain ⟨v, place, rfl⟩ := List.mem_map.1 listed
    exact alive v place
  · rw [is]
    refine made.imp id fun ⟨_, added⟩ => ⟨_, added, fun x owned => ?_⟩
    rw [List.mem_singleton.1 owned]
    exact sound.isLive_iff.1 live
  · rw [is]
    exact step

theorem Session.Sound.steady_calling_kept {b : BindingId} (sound : s.Sound)
    (live : s.isLive owner = true) (has : s.heap.Has (.binding b))
    (kept : ¬s.Released (.binding b)) :
    s.Steady (s.calling b owner) ∧ s.Later (s.calling b owner) := by
  have ownerHas := sound.has_of_isLive live
  have ownerKept := sound.isLive_iff.1 live
  exact sound.steady_calling live (.inl rfl) [.entity owner, .binding b]
    (by simp [Value.owned, ownerHas, has]) (by simp [Value.owned, ownerKept, kept]) rfl

theorem Heap.Finds.steady {b : BindingId} (finds : s.heap.Finds request e owner callable)
    (sound : s.Sound) (live : s.isLive e = true)
    (resolved : request.resolve s.heap e =
      some (request.table (s.heap.entity owner), .constant (.binding b)))
    (vs : List Value) (within : vs ⊆ [.entity e, .binding b, .entity owner]) {t : Session}
    (is : t = { s with
      machine := s.machine.countCall .method
      held := vs.map Object.value ++ s.held }) : s.Steady t ∧ s.Later t := by
  have ownerLive := sound.isLive_of_builtOn finds.on live
  have eHas := sound.has_of_isLive live
  have eKept := sound.isLive_iff.1 live
  have ownerHas := sound.has_of_isLive ownerLive
  have ownerKept := sound.isLive_iff.1 ownerLive
  obtain ⟨_, bKnown, own⟩ := sound.heap.has_resolve (request.has_table sound.heap eHas) resolved
  have bHas : s.heap.Has (.binding b) := bKnown _ List.mem_cons_self
  have bKept := request.not_released ownerKept own
  refine sound.steady_calling ownerLive (.inl rfl) vs (fun v place => ?_) (fun v place => ?_) is
  · have known := within place
    simp only [List.mem_cons, List.not_mem_nil, or_false] at known
    rcases known with rfl | rfl | rfl <;> simp [Value.owned, eHas, bHas, ownerHas]
  · have known := within place
    simp only [List.mem_cons, List.not_mem_nil, or_false] at known
    rcases known with rfl | rfl | rfl <;> simp [Value.owned, eKept, bKept, ownerKept]

/-- The session in which it is decided who receives a call of a method that has just been read from
an entity. -/
def Session.fetching (s : Session) (callable : Callable) (owner : EntityId) : Session :=
  let made := s.heap.addBinding ⟨callable, .method owner⟩
  { s with heap := made.2 }.calling made.1 owner

theorem Session.Sound.steady_fetching (sound : s.Sound) (live : s.isLive owner = true)
    (callable : Callable) : s.Steady (s.fetching callable owner) ∧
      s.Later (s.fetching callable owner) := by
  let made := s.heap.addBinding ⟨callable, .method owner⟩
  have madeHas : made.2.Has (.binding made.1) := by simp [made, Heap.Has, Heap.addBinding]
  have madeNew : ¬s.heap.Has (.binding made.1) := by simp [made, Heap.Has, Heap.addBinding]
  have ownerStays : made.2.Has (.entity owner) := sound.has_of_isLive live
  have ownerKept := sound.isLive_iff.1 live
  exact sound.steady_calling live (.inr ⟨callable, rfl⟩) [.entity owner, .binding made.1]
    (by simp [Value.owned, made, madeHas, ownerStays]) (by simp [Value.owned, ownerKept, madeNew])
    rfl

theorem enters_invokeMember {name : String} (sound : s.Sound)
    (finds : s.heap.Finds (.member name) e owner callable) (live : s.isLive owner = true)
    (affords : s.Affords) (enough : args.length = callable.arity) :
    ∃ t, s.Steady t ∧ s.Later t ∧ Enters (fun run => invokeMember run e name args) s callable.body
      (t.serving callable owner (s.receiver owner) args) := by
  obtain ⟨steady, later⟩ := sound.steady_fetching live callable
  have enters := (s.heap.addBinding ⟨callable, .method owner⟩).1.enters_call
    (s := { s with heap := (s.heap.addBinding ⟨callable, .method owner⟩).2 })
    (.inl (Heap.binding_addBinding _ _)) ⟨affords.depth, affords.budget⟩ enough
  have receiver : (s.fetching callable owner).receiver owner = s.receiver owner :=
    steady.receiver sound (sound.has_of_isLive live)
  refine ⟨_, steady, later, .after (getMember_of_finds finds live) ?_⟩
  rw [← receiver]
  exact enters

/-- The method in the table of a layer is called there, whether or not the entity is in hand that has
been asked for it. -/
theorem Heap.Finds.enters_call (finds : s.heap.Finds request e owner callable) (sound : s.Sound)
    (live : s.isLive e = true) (affords : s.Affords) (enough : args.length = callable.arity)
    (resolved : request.resolve s.heap e =
      some (request.table (s.heap.entity owner), .constant (.binding b)))
    (binding : s.heap.binding b = ⟨callable, .declared owner⟩) (inHand : List Value)
    (within : inHand ⊆ [.entity e]) :
    ∃ t, s.Steady t ∧ s.Later t ∧
      Enters (fun run => b.call run args) { s with held := inHand.map Object.value ++ s.held }
        callable.body (t.serving callable owner (s.receiver owner) args) := by
  have ownerLive := sound.isLive_of_builtOn finds.on live
  have ownerHas := sound.has_of_isLive ownerLive
  have all : .binding b :: inHand ⊆ [.entity e, .binding b, .entity owner] :=
    List.cons_subset.2 ⟨by simp, List.Subset.trans within (by simp)⟩
  let inside : Session := { s with held := inHand.map Object.value ++ s.held }
  obtain ⟨steady, later⟩ := finds.steady sound live resolved (.entity owner :: .binding b :: inHand)
    (List.cons_subset.2 ⟨by simp, all⟩) (t := inside.calling b owner) rfl
  obtain ⟨before, _⟩ := finds.steady sound live resolved (.binding b :: inHand) all rfl
  have enters := b.enters_call (s := inside)
    (.inr ⟨binding, (before.isLive_eq sound ownerHas).trans ownerLive⟩)
    ⟨affords.depth, affords.budget⟩ enough
  rw [steady.receiver sound ownerHas] at enters
  exact ⟨_, steady, later, enters⟩

theorem enters_invokeHook {name : String} (sound : s.Sound)
    (finds : s.heap.Finds (.hook name) e owner callable) (live : s.isLive e = true)
    (affords : s.Affords) (enough : args.length = callable.arity) :
    ∃ t, s.Steady t ∧ s.Later t ∧ Enters (fun run => invokeHook run e name args) s callable.body
      (t.serving callable owner (s.receiver owner) args) := by
  obtain ⟨b, resolved, binding⟩ := finds.resolved
  obtain ⟨t, steady, later, enters⟩ :=
    finds.enters_call sound live affords enough resolved binding [] (List.nil_subset _)
  exact ⟨t, steady, later, enters.of_eq fun run => invokeHook_eq resolved run args⟩

theorem enters_callValue (sound : s.Sound) (finds : s.heap.Finds .call e owner callable)
    (live : s.isLive e = true) (affords : s.Affords) (enough : args.length = callable.arity) :
    ∃ t, s.Steady t ∧ s.Later t ∧ Enters (fun run => callValue run (.entity e) args) s callable.body
      (t.serving callable owner (s.receiver owner) args) := by
  obtain ⟨b, resolved, binding⟩ := finds.resolved
  obtain ⟨t, steady, later, enters⟩ :=
    finds.enters_call sound live affords enough resolved binding [.entity e] (List.Subset.refl _)
  exact ⟨t, steady, later, enters.holding.of_eq fun run => callValue_entity_eq resolved run args⟩

theorem Request.enters_ask (sound : s.Sound) (finds : s.heap.Finds request e owner callable)
    (live : s.isLive e = true) (affords : s.Affords) (enough : args.length = callable.arity) :
    ∃ t, s.Steady t ∧ s.Later t ∧
      Enters (fun run => request.ask run e args) s callable.body
        (t.serving callable owner (s.receiver e) args) := by
  rw [← sound.receiver_of_builtOn finds.on live]
  cases request with
  | member name =>
    have ownerLive := sound.isLive_of_builtOn finds.on live
    exact enters_invokeMember sound finds ownerLive affords enough
  | hook name => exact enters_invokeHook sound finds live affords enough
  | call => exact enters_callValue sound finds live affords enough

/-! ## The beginning of the body -/

theorem Session.Sound.later_serving (sound : s.Sound) {receiver : EntityId}
    (has : s.heap.Has (.entity owner)) (receiverHas : s.heap.Has (.entity receiver))
    (known : ∀ v ∈ args, s.heap.HasAll v.owned) (enough : args.length = callable.arity) :
    s.Later (s.serving callable owner receiver args) := by
  let identity := s.heap.addScope (identityScope s.heap owner receiver)
  let parameters := identity.2.addScope (callable.parameters args)
  have grows : s.heap.Grows identity.2 := Heap.grows_addScope _ _
  have grows' : identity.2.Grows parameters.2 := Heap.grows_addScope _ _
  have step : Heap.Step (fun frame => frame = s.machine.currentFrame) s.heap identity.2 :=
    .addScope (admits_identityScope sound.heap has receiverHas)
  have step' : Heap.Step (fun frame => frame = s.machine.currentFrame) identity.2 parameters.2 :=
    .addScope (Callable.admits_parameters (fun v place => grows.hasAll (known v place)) enough)
  have fit : Session.Fit true { s with heap := identity.2 } := sound.fit.step step
  have fit' : Session.Fit true { s with heap := parameters.2 } := fit.step step'
  have scopes : parameters.2.Has (.scope parameters.1) ∧ parameters.2.Has (.scope identity.1) := by
    simp only [Heap.Has, parameters, identity, Heap.addScope, Array.size_push]
    omega
  have chain := (grows.trans grows').hasAll (hasAll_methodChain sound.fit has)
  have self := (grows.trans grows').has _ receiverHas
  have served : (s.serving callable owner receiver args).Grounded := by
    refine (fit'.withStack (Heap.hasAll_append.2 ⟨?_, fit'.stack⟩)).toGrounded
    exact Heap.hasAll_cons.2
      ⟨self, Heap.hasAll_cons.2 ⟨scopes.1, Heap.hasAll_cons.2 ⟨scopes.2, chain⟩⟩⟩
  have first : s.Step { s with heap := identity.2 } := ⟨.inr step, fit.toGrounded⟩
  have second : Session.Step { s with heap := identity.2 } { s with heap := parameters.2 } :=
    ⟨.inr step', fit'.toGrounded⟩
  exact ((Relation.ReflTransGen.single first).tail second).tail ⟨.inl rfl, served⟩

theorem Session.retains_serving (s : Session) (callable : Callable) (owner receiver : EntityId)
    (args : List Value) : s.Retains (s.serving callable owner receiver args) where
  roots := by
    have beside : s.Beside (s.serving callable owner receiver args) :=
      ⟨rfl, rfl, rfl, rfl, rfl, rfl⟩
    have machine : s.machine.owned ⊆ (s.serving callable owner receiver args).machine.owned := by
      simp only [Machine.owned, Session.serving, CallStack.owned, List.flatMap_cons,
        List.append_assoc]
      exact List.subset_append_right _ _
    exact beside.roots_subset machine (List.Subset.refl _)
  owned y has :=
    List.Subset.trans (Heap.owned_subset_addScope has _)
      (Heap.owned_subset_addScope ((Heap.grows_addScope _ _).has y has) _)

/-! ## Who is alive in the body -/

section Serving

variable {receiver : EntityId} (sound : s.Sound) (live : s.isLive owner = true)
  (receiverLive : s.isLive receiver = true)
  (alive : ∀ v ∈ args, ∀ x ∈ v.owned, s.heap.Has x → ¬s.Released x)

include sound live

/-- The chain of a method is that of an entity alive, and the registry holds the globals. -/
theorem Session.Sound.not_released_methodChain :
    ∀ x ∈ Chain.owned (methodChain s owner), ¬s.Released x := by
  have kept := sound.isLive_iff.1 live
  have table {x : ScopeId} (owns : .scope x ∈ s.heap.owned (.entity owner)) :
      ¬s.Released (.scope x) := fun released => kept (released.owned owns)
  have globals : ¬s.Released (.scope s.machine.globals) := fun released =>
    released.not_rooted (List.mem_append_right _ (List.mem_append_right _ List.mem_cons_self))
  simp only [methodChain, Heap.privateView, Chain.owned, List.map_append, List.map_cons,
    List.map_nil, List.forall_mem_append, List.forall_mem_cons]
  exact ⟨⟨table (by simp [Heap.owned, Entity.owned]), table (by simp [Heap.owned, Entity.owned]),
    List.forall_mem_nil _⟩, globals, List.forall_mem_nil _⟩

include receiverLive

theorem Session.Sound.not_released_identityScope :
    ∀ x ∈ (identityScope s.heap owner receiver).owned, ¬s.Released x := by
  have kept := sound.isLive_iff.1 live
  intro x owned
  rcases List.mem_cons.1 owned with rfl | super
  · exact sound.isLive_iff.1 receiverLive
  · cases is : (s.heap.entity owner).super with
    | none => simp [is, Cell.ownedByAll, Cell.owned, Value.owned] at super
    | some base =>
      obtain rfl : x = .entity base := by
        simpa [is, Cell.ownedByAll, Cell.owned, Value.owned] using super
      exact fun released => kept (released.of_super is)

include alive

/-- The beginning of a body brings nobody back to life, as long as the arguments are alive. -/
theorem Session.Sound.revivesNothing_serving (known : ∀ v ∈ args, s.heap.HasAll v.owned)
    (enough : args.length = callable.arity) :
    s.RevivesNothing (s.serving callable owner receiver args) := by
  let identity := s.heap.addScope (identityScope s.heap owner receiver)
  let parameters := identity.2.addScope (callable.parameters args)
  have later := sound.later_serving (sound.has_of_isLive live) (sound.has_of_isLive receiverLive)
    known enough
  have beside : s.Beside (s.serving callable owner receiver args) :=
    ⟨rfl, rfl, rfl, rfl, rfl, rfl⟩
  let frame : Frame :=
    ⟨.entity receiver, callable.name, parameters.1 :: identity.1 :: methodChain s owner⟩
  let made := (identityScope s.heap owner receiver).owned ++ (callable.parameters args).owned
  refine (later.sound sound).revivesNothing (frame.owned ++ made) ?_ ?_ ?_
  · refine beside.symm.roots (fun x owned => ?_) fun x place => .inl place
    simp only [Machine.owned, Session.serving, CallStack.owned, List.flatMap_cons,
      List.mem_append] at owned ⊢
    rcases owned with (new | old) | registry
    · exact .inr (.inl new)
    · exact .inl (.inl old)
    · exact .inl (.inr registry)
  · intro y has x owned
    rcases Heap.owned_addScope has owned with ⟨has, owned⟩ | passed
    · exact (Heap.owned_addScope has owned).imp id fun identity =>
        List.mem_append_right _ (List.mem_append_left _ identity)
    · exact .inr (List.mem_append_right _ (List.mem_append_right _ passed))
  · intro x more has
    simp only [frame, made, Frame.owned, Value.owned, Chain.owned, List.map_cons, List.mem_append,
      List.mem_cons, List.not_mem_nil, or_false] at more
    rcases more with (rfl | rfl | rfl | chain) | identified | passed
    · exact sound.isLive_iff.1 receiverLive
    · exact absurd ((Heap.grows_addScope _ _).has _ has) (identity.2.not_has_addScope _)
    · exact absurd has (s.heap.not_has_addScope _)
    · exact sound.not_released_methodChain live x chain
    · exact sound.not_released_identityScope live receiverLive x identified
    · obtain ⟨v, argument, owned⟩ :=
        Callable.exists_owned_of_mem_refs (Scope.owned_subset_refs _ passed)
      exact alive v argument x owned has

theorem Session.Sound.isLive_serving (known : ∀ v ∈ args, s.heap.HasAll v.owned)
    (enough : args.length = callable.arity) {d : EntityId} (has : s.heap.Has (.entity d)) :
    (s.serving callable owner receiver args).isLive d = s.isLive d :=
  (s.retains_serving callable owner receiver args).isLive_eq
    (sound.revivesNothing_serving live receiverLive alive known enough) sound has

end Serving

end Delegation
