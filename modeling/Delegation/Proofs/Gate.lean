import Delegation.Proofs.Accessors

/-!
# Who is turned away

A method in a table of its entity does not own it, so it may be called by someone who has read it
there when the entity is gone. Such a call is counted and then turned away. No other call is turned
away for want of a receiver, however it ends: not that of a method whose entity is alive, and not
that of a method which has been fetched from an entity, for it owns the layer that declares it.

Whoever asks an entity that is alive is asking all layers below it too, and these are alive with it.
So what an entity declares is never out of reach of the layers above, whatever has been let go.
-/

namespace Delegation

variable {α : Type} {s t u : Session} {b g : BindingId} {callable get : Callable}
  {set? : Option Callable} {args : List Value} {e owner : EntityId} {x : ScopeId} {name : String}
  {request : Request} {cell : Cell} {v : Value} {call inner outer : Runner → Action Value}

theorem Heap.has_of_declared {heap : Heap}
    (declared : heap.binding b = ⟨callable, .declared owner⟩) : heap.Has (.binding b) := by
  by_contra absent
  rw [show heap.binding b = default from dif_neg absent] at declared
  cases declared

namespace Session

/-! ## The gate -/

/-- A call is turned away because the entity of a method is gone: it is counted, and nothing else is
done. -/
structure Detaches (s : Session) (b : BindingId) (args : List Value) (name : String) : Prop where
  fails : ∀ run, b.call run args s = .error (.failure (.ofCause (.detachedReceiver name)))
    { s with machine := s.machine.countCall .method }
  /-- No frame is entered and no body is run. -/
  told : ∀ run bodies, Chronicle.call run bodies b args s = [⟨.call b args, s⟩,
    ⟨.raise (.ofCause (.detachedReceiver name)), s.counting .method b⟩]

/-- A call is not turned away for want of a receiver: however bodies are run, it comes to one, or it
fails for another reason before it does. -/
def Admits (s : Session) (call : Runner → Action Value) : Prop :=
  (∃ body u, Enters call s body u) ∨ ∃ failure t,
    (∀ name, failure.cause ≠ .detachedReceiver name) ∧
      ∀ run, call run s = .error (.failure failure) t

theorem Detaches.not_admits (detaches : s.Detaches b args name) :
    ¬s.Admits fun run => b.call run args := by
  rintro (⟨body, u, enters⟩ | ⟨failure, t, other, fails⟩)
  · exact enters.not_fails ⟨_, _, detaches.fails⟩
  · have same := (fails fun _ => pure .void).symm.trans (detaches.fails _)
    cases same
    exact other name rfl

namespace Admits

theorem of_eq (admits : s.Admits inner) (is : ∀ run, outer run s = inner run s) :
    s.Admits outer := by
  rcases admits with ⟨body, u, enters⟩ | ⟨failure, t, other, fails⟩
  · exact .inl ⟨body, u, enters.of_eq is⟩
  · exact .inr ⟨failure, t, other, fun run => (is run).trans (fails run)⟩

theorem holding {x : Object} (admits : Admits { s with held := x :: s.held } inner) :
    s.Admits fun run => holding x (inner run) := by
  rcases admits with ⟨body, u, enters⟩ | ⟨failure, t, other, fails⟩
  · exact .inl ⟨body, u, enters.holding⟩
  · refine .inr ⟨failure, { t with held := s.held }, other, fun run => ?_⟩
    simp only [Delegation.holding, fails]

theorem after {f : Runner → Action α} {next : Runner → α → Action Value} {a : α}
    (ends : ∀ run, f run s = .ok a t) (admits : t.Admits fun run => next run a) :
    s.Admits fun run => f run >>= next run := by
  rcases admits with ⟨body, u, enters⟩ | ⟨failure, u, other, fails⟩
  · exact .inl ⟨body, u, .after ends enters⟩
  · refine .inr ⟨failure, u, other, fun run => ?_⟩
    simp only [bind, EStateM.bind, ends]
    exact fails run

end Admits

/-- What comes to a body or fails, and does not fail for want of a receiver while bodies do nothing.
-/
theorem admits_of_sees {base : Heap} {names : List String} {chain : Chain}
    (sees : Sees base names chain call s)
    (spares : ∀ name, (call fun _ => pure .void).Spares (.detachedReceiver name)) :
    s.Admits call := by
  rcases sees with ⟨failure, t, fails⟩ | ⟨body, u, begins⟩
  · exact .inr ⟨failure, t, fun name => spares name s failure t (fails _), fails⟩
  · exact .inl ⟨body, u, begins.enters⟩

theorem admits_callMethod (s : Session) (callable : Callable) (owner : EntityId)
    (args : List Value) : s.Admits fun run => callMethod run callable owner args :=
  admits_of_sees (.callMethod (.refl _) (List.Subset.refl _) owner args)
    fun _ => callMethod_spares rfl callable owner args

theorem admits_withFrame (s : Session) (frame : Frame) (callable : Callable) (args : List Value) :
    s.Admits fun run => withFrame frame (callable.invoke run args) :=
  admits_of_sees
    (.withFrame (.invoke (List.cons_ne_nil _ _) (.refl _) (List.Subset.refl _) args))
    fun _ => (callable.invoke_spares rfl args).withFrame (depthExceeded_ne rfl) frame

/-- A call is turned away for nothing but that the entity of a method which does not own it is gone.
-/
theorem admits_call (args : List Value)
    (attached : ∀ callable owner, s.heap.binding b = ⟨callable, .declared owner⟩ →
      (s.counting .method b).isLive owner = true) : s.Admits fun run => b.call run args := by
  cases budget : (s.machine.countCall (s.heap.binding b).strategy.kind).overBudget? with
  | some cause =>
    exact .inr ⟨_, _, fun name => countCall_spares rfl _ s _ _ (countCall_over budget),
      BindingId.call_of_over budget⟩
  | none =>
    refine .holding (.after (fun _ => rfl) (.after (fun _ => countCall_within budget) ?_))
    dsimp only
    cases is : s.heap.binding b with
    | mk callable strategy =>
      cases strategy with
      | function enclosing => exact .after (fun _ => rfl) (admits_withFrame _ _ callable args)
      | method owner => exact admits_callMethod _ callable owner args
      | closure captured => exact admits_withFrame _ captured callable args
      | declared owner =>
        refine .after (fun _ => rfl) ?_
        have live := attached callable owner is
        exact (admits_callMethod _ callable owner args).of_eq fun run => congrFun (if_pos live) _

theorem admits_of_declared (sound : s.Sound)
    (declared : s.heap.binding b = ⟨callable, .declared owner⟩) (live : s.isLive owner = true)
    (args : List Value) : s.Admits fun run => b.call run args := by
  refine admits_call args fun callable' owner' is => ?_
  rw [declared] at is
  cases is
  exact (sound.isLive_counting (Heap.has_of_declared declared) declared .method owner).trans live

/-- The gate looks at the entity when the call has been counted. -/
theorem detaches_of_gone (args : List Value)
    (declared : s.heap.binding b = ⟨callable, .declared owner⟩)
    (within : (s.machine.countCall .method).overBudget? = none)
    (gone : (s.counting .method b).isLive owner = false) :
    s.Detaches b args callable.name := by
  have counts : countCall .method { s with held := .value (.binding b) :: s.held } =
      .ok () (s.counting .method b) := countCall_within within
  refine ⟨fun run => ?_, fun run bodies => ?_⟩
  · simp only [BindingId.call, Delegation.holding, bind, EStateM.bind, Action.get_eq_ok, declared,
      Strategy.kind, counts, gone]
    rfl
  · simp only [Chronicle.call, Chronicle.keeping, Chronicle.step, declared, Strategy.kind, counts,
      gone]
    rfl

/-! ## What an entity alive leads to -/

theorem Declared.finds (reachable : s.Reachable) (declared : s.Declared request owner callable)
    (live : s.isLive e = true) (leads : request.resolve s.heap e =
      some (request.table (s.heap.entity owner), cell)) :
    s.heap.Finds request e owner callable := by
  have sound := reachable.sound
  obtain ⟨b, own, binding⟩ := declared.own
  have same : some cell = some (.constant (.binding b)) :=
    (Heap.cell?_of_resolve leads).symm.trans own
  cases same
  exact ⟨Request.builtOn_of_resolve sound.heap reachable.ordered (sound.has_of_isLive live)
    declared.has leads, b, leads, binding⟩

theorem admits_ask (sound : s.Sound) (finds : s.heap.Finds request e owner callable)
    (live : s.isLive e = true) (args : List Value) :
    s.Admits fun run => request.ask run e args := by
  have ownerLive := sound.isLive_of_builtOn finds.on live
  have ownerHas := sound.has_of_isLive ownerLive
  obtain ⟨b, resolved, binding⟩ := finds.resolved
  cases request with
  | member name =>
    refine .after (getMember_of_finds finds ownerLive)
      (admits_call args fun callable' owner' is => ?_)
    rw [Heap.binding_addBinding] at is
    cases is
  | hook name =>
    exact (admits_of_declared sound binding ownerLive args).of_eq fun run =>
      invokeHook_eq resolved run args
  | call =>
    -- The entity is held too while its method is looked at.
    obtain ⟨steady, -⟩ := finds.steady sound live resolved [.binding b, .entity e] (by simp) rfl
    have admits : Admits { s with held := .value (.entity e) :: s.held } fun run =>
        b.call run args := by
      refine admits_call args fun callable' owner' is => ?_
      have same := binding.symm.trans is
      cases same
      exact (steady.isLive_eq sound ownerHas).trans ownerLive
    exact admits.holding.of_eq fun run => callValue_entity_eq resolved run args

/-- From now on a binding is never turned away, whatever is let go; and if it is a method that owns
its entity, the entity is there for as long as the binding. -/
structure Attached (s : Session) (b : BindingId) : Prop where
  admits : ∀ t, s.Later t → ∀ args, t.Admits fun run => b.call run args
  keeps : ∀ t callable owner, s.Later t → t.heap.binding b = ⟨callable, .method owner⟩ →
    ¬t.Released (.binding b) → t.isLive owner = true

theorem attached_of_not_declared (sound : s.Sound) (has : s.heap.Has (.binding b))
    (other : ∀ callable owner, s.heap.binding b ≠ ⟨callable, .declared owner⟩) : s.Attached b where
  admits t later args := admits_call args fun callable owner is => by
    rw [later.heap.grows.binding b has] at is
    exact absurd is (other callable owner)
  keeps t callable owner later is kept := by
    refine (later.sound sound).isLive_iff.2 fun released => kept (released.owned ?_)
    simp [Heap.owned, is, Strategy.owned]

theorem attached_of_getMember {run : Runner} (sound : t.Sound)
    (reads : getMember run e name s = .ok (.binding b) t) (has : t.heap.Has (.binding b)) :
    t.Attached b ∨ ∃ callable owner, t.heap.binding b = ⟨callable, .declared owner⟩ ∧
      t.isLive owner = false := by
  cases leads : (Request.member name).resolve s.heap e with
  | none =>
    rw [getMember_of_none leads] at reads
    cases reads
  | some found =>
    rw [getMember_eq leads] at reads
    simp only [bind, EStateM.bind] at reads
    cases gives : (s.heap.entity e).members.get run name s with
    | error stop u =>
      rw [gives] at reads
      cases reads
    | ok v u =>
      rw [gives] at reads
      rcases u.plain_or_copied v with plain | ⟨b', callable, owner, rfl, binding, live⟩
      · have same := (handOut_of_plain plain).symm.trans reads
        cases same
        by_cases declared : ∃ callable owner, t.heap.binding b = ⟨callable, .declared owner⟩
        · obtain ⟨callable, owner, is⟩ := declared
          exact .inr ⟨callable, owner, is, plain b callable owner rfl is⟩
        · exact .inl (attached_of_not_declared sound has fun callable owner is =>
            declared ⟨callable, owner, is⟩)
      · have same := (handOut_of_declared binding live).symm.trans reads
        cases same
        refine .inl (attached_of_not_declared sound has fun callable' owner' is => ?_)
        rw [Heap.binding_addBinding] at is
        cases is

/-- An entity alive is asked for a method that a layer declares. Whichever way it is asked, the call
is not turned away. If the method is read, what comes is never turned away again, and it cannot be
replaced. -/
structure ReachesMethod (s : Session) (request : Request) (e : EntityId) : Prop where
  ask : ∀ args, s.Admits fun run => request.ask run e args
  getMember : ∀ name, request = .member name → ∃ b t,
    (∀ run, getMember run e name s = .ok (.binding b) t) ∧ s.Later t ∧ t.Attached b
  setMember : ∀ name, request = .member name → ∀ run v,
    setMember run e name v s = .error (.failure (.ofCause (.constantAssignment name))) s

theorem reachesMethod_of_finds (sound : s.Sound)
    (finds : s.heap.Finds request e owner callable) (live : s.isLive e = true) :
    s.ReachesMethod request e := by
  have ownerLive := sound.isLive_of_builtOn finds.on live
  refine ⟨admits_ask sound finds live, ?_, ?_⟩
  · rintro name rfl
    have reads := getMember_of_finds finds ownerLive
    obtain ⟨ran, known⟩ := (runs_getMember (runs_runBody 0) sound.fit (sound.has_of_isLive live)
      name).result (reads (runBody 0))
    have later := ran.steps sound.fit
    refine ⟨_, _, reads, later, attached_of_not_declared (later.sound sound)
      (known _ List.mem_cons_self) fun callable' owner' is => ?_⟩
    rw [Heap.binding_addBinding] at is
    cases is
  · rintro name rfl run v
    obtain ⟨b, resolved, -⟩ := finds.resolved
    exact (setMember_eq resolved run v).trans (ScopeId.set_of_constant resolved run v)

/-- An entity alive is asked for a property that methods of a layer compute. To read it, or to send
a message to what it is, begins with a call of the getter, and to write to it is a call of the
setter if there is one, and none of these calls is turned away. -/
structure ReachesProperty (s : Session) (e owner : EntityId) (name : String) (get : Callable)
    (set? : Option Callable) : Prop where
  getter : ∃ g : BindingId, s.ReadsBy e name get owner g ∧
    (∀ run args, invokeMember run e name args s =
      (g.call run [] >>= fun v => handOut v >>= fun v => callValue run v args) s) ∧
    s.Admits fun run => g.call run []
  setter : ∀ set, set? = some set → ∃ b : BindingId, s.WritesBy e name set owner b ∧
    ∀ v, s.Admits fun run => b.call run [v]
  none : set? = none → s.Unwritable e name

theorem reachesProperty_of_declared (reachable : s.Reachable)
    (declared : s.DeclaredProperty owner name get set?) (live : s.isLive e = true)
    (leads : s.heap.resolve (s.heap.entity e).members name =
      some ((s.heap.entity owner).members, cell)) : s.ReachesProperty e owner name get set? := by
  obtain ⟨ownerLive, own, computes⟩ := declared.reached reachable live leads
  have admits {b : BindingId} {accessor : Callable} (args : List Value)
      (binding : s.heap.binding b = ⟨accessor, .declared owner⟩) :
      s.Admits fun run => b.call run args :=
    admits_of_declared reachable.sound binding ownerLive args
  have sends {g : BindingId} (reads : s.ReadsBy e name get owner g) (run : Runner)
      (args : List Value) : invokeMember run e name args s =
        (g.call run [] >>= fun v => handOut v >>= fun v => callValue run v args) s := by
    simp only [invokeMember, bind, EStateM.bind, reads.calls]
    cases g.call run [] s <;> rfl
  cases computes with
  | readOnly getter nullary =>
    have reads := readsBy_of_computed reachable ownerLive own getter nullary leads
    refine ⟨⟨_, reads, sends reads, admits [] getter⟩, fun set is => ?_,
      fun _ => unwritable_of_computed leads⟩
    cases is
  | readWrite getter nullary setter unary =>
    have reads := readsBy_of_computed reachable ownerLive own getter nullary leads
    refine ⟨⟨_, reads, sends reads, admits [] getter⟩, fun set is => ?_, fun is => ?_⟩ <;> cases is
    exact ⟨_, writesBy_of_computed reachable ownerLive own setter unary leads,
      fun v => admits [v] setter⟩

/-- Methods that have been read in a table of their entity are turned away exactly if the entity is
gone when they are called, and then nothing is done but to count the call. Whatever way an entity
alive is asked for what a layer declares, the call this comes to is not turned away; and what has
been read of an entity is never turned away afterwards, unless its own entity was gone by then. -/
theorem detached_receivers (reachable : s.Reachable) :
    (∀ (request : Request) owner callable (route : Route) cell,
      s.Declared request owner callable →
      route.resolve s request.name = some (request.table (s.heap.entity owner), cell) →
      ∃ b, s.heap.binding b = ⟨callable, .declared owner⟩ ∧
        ∀ run, route.get run request.name s = .ok (.binding b) s) ∧
    (∀ b callable owner args, s.heap.binding b = ⟨callable, .declared owner⟩ →
      (s.isLive owner = true → s.Admits fun run => b.call run args) ∧
      ((s.machine.countCall .method).overBudget? = none →
        (s.Detaches b args callable.name ↔ s.isLive owner = false))) ∧
    (∀ (request : Request) e owner callable cell, s.isLive e = true →
      s.Declared request owner callable →
      request.resolve s.heap e = some (request.table (s.heap.entity owner), cell) →
      s.ReachesMethod request e) ∧
    (∀ e owner name get set? cell, s.isLive e = true → s.DeclaredProperty owner name get set? →
      s.heap.resolve (s.heap.entity e).members name =
        some ((s.heap.entity owner).members, cell) →
      s.ReachesProperty e owner name get set?) ∧
    ∀ run e name b t, getMember run e name s = .ok (.binding b) t → s.Later t →
      t.heap.Has (.binding b) → t.Attached b ∨ ∃ callable owner,
        t.heap.binding b = ⟨callable, .declared owner⟩ ∧ t.isLive owner = false := by
  have sound := reachable.sound
  refine ⟨fun request owner callable route cell declared leads => ?_,
    fun b callable owner args binding => ?_,
    fun request e owner callable cell live declared leads =>
      reachesMethod_of_finds sound (declared.finds reachable live leads) live,
    fun e owner name get set? cell live declared leads =>
      reachesProperty_of_declared reachable declared live leads,
    fun run e name b t reads later has => attached_of_getMember (later.sound sound) reads has⟩
  · obtain ⟨b, own, binding⟩ := declared.own
    have same : some cell = some (.constant (.binding b)) :=
      (route.cell?_of_resolve leads).symm.trans own
    cases same
    exact ⟨b, binding, fun run => route.get_of_constant leads run⟩
  · refine ⟨fun live => admits_of_declared sound binding live args,
      fun within => ⟨fun detaches => ?_, fun gone => detaches_of_gone args binding within ?_⟩⟩
    · exact Bool.eq_false_iff.2 fun live =>
        detaches.not_admits (admits_of_declared sound binding live args)
    · exact (sound.isLive_counting (Heap.has_of_declared binding) binding .method owner).trans gone

/-- Two methods that have been read in the tables of their entities, one of which is let go. -/
theorem detached_receivers_of_dropped :
    let entity (name : String) : Expr := .apply (.command (.entity .entity)) [.str name]
    let method (e name : String) : Expr :=
      .apply (.command (.entity .method)) [.var e, .str name, .nullary name [.int 1]]
    let raw (e name : String) : Expr :=
      .apply (.command (.table .get)) [.apply (.query (.entity .members)) [.var e], .str name]
    let s := (Program.runSteps
      [.bind "e" (entity "E"), method "e" "m", .bind "m" (raw "e" "m"),
        .bind "f" (entity "F"), method "f" "n", .bind "n" (raw "f" "n"), .drop "e"]).after
          (Program.ready {})
    s.isLive ⟨0⟩ = false ∧ s.Detaches ⟨0⟩ [] "m" ∧
      s.isLive ⟨1⟩ = true ∧ ¬s.Detaches ⟨1⟩ [] "n" ∧
        s.Admits fun run => BindingId.call run ⟨1⟩ [] := by
  intro entity method raw s
  have reachable : s.Reachable := Program.reachable_runSteps {} _
  obtain ⟨gone, live, detached, attached, budget⟩ :
      s.isLive ⟨0⟩ = false ∧ s.isLive ⟨1⟩ = true ∧
      s.heap.binding ⟨0⟩ = ⟨.nullary "m" (.script 0), .declared ⟨0⟩⟩ ∧
      s.heap.binding ⟨1⟩ = ⟨.nullary "n" (.script 1), .declared ⟨1⟩⟩ ∧
      (s.machine.countCall .method).overBudget? = none := by decide +kernel
  clear_value s
  obtain ⟨-, gate, -⟩ := detached_receivers reachable
  have kept := gate ⟨1⟩ _ _ [] attached
  refine ⟨gone, ((gate ⟨0⟩ _ _ [] detached).2 budget).2 gone, live, fun turned => ?_, kept.1 live⟩
  rw [(kept.2 budget).1 turned] at live
  cases live

end Session

end Delegation
