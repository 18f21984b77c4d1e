import Delegation.Proofs.Answering

/-!
# Fetched methods

A method that is read from an entity can be called at any later time. It keeps alive the layer that
declares it, and with it all layers below; the layers above that one, the one it was read from among
them, live only as long as something else keeps them. The body runs on behalf of the last layer that
is alive then. So while the entity it was read from is alive the method has the same receiver as one
that the entity is asked for, and when that entity is gone the receiver is a layer below it, but
never one below the declaration.
-/

namespace Delegation

theorem Heap.BuiltOn.later {heap after : Heap} {d base : EntityId} (on : heap.BuiltOn d base)
    (sound : heap.Sound) (grows : heap.Grows after) (has : heap.Has (.entity d)) :
    after.BuiltOn d base := by
  induction on with
  | refl => exact .refl
  | @tail middle base on is ih =>
    have middleHas := Heap.BuiltOn.has on sound has
    exact ih.tail ((grows.entity middle middleHas).super.trans is)

namespace Session

variable {s t : Session} {e d base owner : EntityId} {callable : Callable} {b : BindingId}
  {name : String}

theorem Sound.builtOn_receiver (sound : s.Sound) (on : s.heap.BuiltOn d base)
    (has : s.heap.Has (.entity d)) (live : s.isLive base = true) (gone : s.isLive d = false) :
    s.heap.BuiltOn d (s.receiver base) := by
  induction on with
  | refl =>
    rw [live] at gone
    cases gone
  | @tail middle base on is ih =>
    have middleHas := Heap.BuiltOn.has on sound.heap has
    cases middleLive : s.isLive middle with
    | true =>
      rw [sound.receiver_of_upgrade (sound.upgrade_of_super middleLive is).2]
      exact ih middleLive
    | false =>
      have last : s.upgrade? base = none := by
        rw [upgrade?, sound.heap.derivedOfSuper middle base middleHas is, Option.filter_some,
          middleLive]
        rfl
      rw [sound.receiver_of_none (sound.has_of_isLive live) last]
      exact on.tail is

/-- How a method stands that has been read from an entity: a receiver is there to run it for, the
last layer alive on top of the one that declares it. -/
structure Fetched (t : Session) (name : String) (e owner : EntityId) (callable : Callable)
    (b : BindingId) (receiver : EntityId) : Prop where
  kept : t.isLive owner = true
  live : t.isLive receiver = true
  above : t.heap.BuiltOn receiver owner
  last : t.upgrade? receiver = none
  runs : ∀ args, args.length = callable.arity → t.Affords → "self" ∉ callable.params →
    ∃ u, Enters (fun run => b.call run args) t callable.body u ∧ u.Serves receiver
  /-- While the entity is alive the method runs for what the entity would run its methods for. -/
  asked : t.isLive e = true → receiver = t.receiver e ∧ t.heap.BuiltOn receiver e ∧
    ∀ owner' callable', t.heap.Finds (.member name) e owner' callable' →
      ∀ args, args.length = callable'.arity → t.Affords → "self" ∉ callable'.params →
        ∃ u, Enters (fun run => invokeMember run e name args) t callable'.body u ∧ u.Serves receiver
  gone : t.isLive e = false → t.heap.BuiltOn e receiver ∧ receiver ≠ e

theorem Sound.isLive_owner (sound : s.Sound)
    (method : s.heap.binding b = ⟨callable, .method owner⟩) (kept : ¬s.Released (.binding b)) :
    s.isLive owner = true := by
  refine sound.isLive_iff.2 fun released => kept (released.owned ?_)
  rw [Heap.owned, method]
  exact List.mem_cons_self

theorem Sound.enters_call (sound : s.Sound) (has : s.heap.Has (.binding b))
    (method : s.heap.binding b = ⟨callable, .method owner⟩) (kept : ¬s.Released (.binding b))
    {args : List Value} (enough : args.length = callable.arity) (affords : s.Affords)
    (unhidden : "self" ∉ callable.params) :
    ∃ u, Enters (fun run => b.call run args) s callable.body u ∧ u.Serves (s.receiver owner) := by
  have live := sound.isLive_owner method kept
  have ownerHas := sound.has_of_isLive live
  obtain ⟨steady, _⟩ := sound.steady_calling_kept live has kept
  have enters := b.enters_call (.inl method) affords enough
  rw [steady.receiver sound ownerHas] at enters
  exact ⟨_, enters, serves_serving enough unhidden⟩

theorem Sound.fetched (sound : s.Sound) (has : s.heap.Has (.binding b))
    (method : s.heap.binding b = ⟨callable, .method owner⟩) (kept : ¬s.Released (.binding b))
    (on : s.heap.BuiltOn e owner) (eHas : s.heap.Has (.entity e)) :
    s.Fetched name e owner callable b (s.receiver owner) := by
  have ownerLive := sound.isLive_owner method kept
  have ownerHas := sound.has_of_isLive ownerLive
  have live := sound.isLive_receiver ownerLive
  refine ⟨ownerLive, live, sound.receiver_builtOn ownerHas, (sound.reaches_receiver ownerHas).2,
    fun args enough affords unhidden => sound.enters_call has method kept enough affords unhidden,
    fun eLive => ?_, fun gone => ⟨sound.builtOn_receiver on eHas ownerLive gone, ?_⟩⟩
  · rw [sound.receiver_of_builtOn on eLive]
    refine ⟨rfl, sound.receiver_builtOn eHas,
      fun owner' callable' finds args enough affords unhidden => ?_⟩
    obtain ⟨t, _, _, enters⟩ := Request.enters_ask sound finds eLive affords enough
    exact ⟨_, enters, serves_serving enough unhidden⟩
  · rintro same
    rw [same, gone] at live
    cases live

/-- A method that an entity leads to can be read from it, and called in whatever session comes after
in which the method is kept, whatever else has been dropped. -/
theorem fetched_method (reachable : s.Reachable) (live : s.isLive e = true)
    (finds : s.heap.Finds (.member name) e owner callable) :
    ∃ b after, (∀ run, getMember run e name s = .ok (.binding b) after) ∧
      ∀ t, after.Later t → ¬t.Released (.binding b) →
        ∃ receiver, t.Fetched name e owner callable b receiver := by
  have sound := reachable.sound
  have eHas := sound.has_of_isLive live
  have ownerLive := sound.isLive_of_builtOn finds.on live
  have ownerHas := sound.has_of_isLive ownerLive
  let made := s.heap.addBinding ⟨callable, .method owner⟩
  have step : Heap.Step (fun frame => frame = s.machine.currentFrame) s.heap made.2 :=
    .addBinding (Heap.hasAll_cons.2 ⟨ownerHas, Heap.hasAll_nil _⟩) nofun
  have fit : Session.Fit true { s with heap := made.2 } := sound.fit.step step
  refine ⟨made.1, { s with heap := made.2 }, getMember_of_finds finds ownerLive,
    fun t later kept => ?_⟩
  have soundAfter := later.sound fit.toSound
  have grows := later.heap.grows
  have madeHas : made.2.Has (.binding made.1) := by simp [made, Heap.Has, Heap.addBinding]
  have method : t.heap.binding made.1 = ⟨callable, .method owner⟩ :=
    (grows.binding _ madeHas).trans (Heap.binding_addBinding _ _)
  have on : t.heap.BuiltOn e owner := finds.on.later sound.heap (step.grows.trans grows) eHas
  exact ⟨_, soundAfter.fetched (grows.has _ madeHas) method kept on
    (grows.has _ (step.grows.has _ eHas))⟩

/-- A method of the lower of two layers is read from the upper one, and everything else is dropped.
-/
theorem fetched_method_alone : ∃ (s after : Session) (b : BindingId) (receiver : EntityId),
    (∀ run, getMember run ⟨1⟩ "m" s = .ok (.binding b) after) ∧
      let t := { after with vars := [("m", .value (.binding b))] }
      t.Fetched "m" ⟨1⟩ ⟨0⟩ (.nullary "m" (.script 0)) b receiver ∧
        ∃ u, Enters (fun run => b.call run []) t (.script 0) u ∧ u.Serves receiver := by
  obtain ⟨s, reachable, live, super, resolved, binding, unlimited, budget⟩ : ∃ s : Session,
      s.Reachable ∧ s.isLive ⟨1⟩ = true ∧ (s.heap.entity ⟨1⟩).super = some ⟨0⟩ ∧
        (Request.member "m").resolve s.heap ⟨1⟩ =
          some ((s.heap.entity ⟨0⟩).members, .constant (.binding ⟨0⟩)) ∧
        s.heap.binding ⟨0⟩ = ⟨.nullary "m" (.script 0), .declared ⟨0⟩⟩ ∧
        s.machine.stack.limit = none ∧ (s.machine.countCall .method).overBudget? = none :=
    ⟨_, Program.reachable_runSteps {}
      [.bind "a" (.apply (.command (.entity .entity)) [.str "A"]),
        .apply (.command (.entity .method)) [.var "a", .str "m", .nullary "m" [.void]],
        .bind "b" (.apply (.command (.entity .entity)) [.str "B", .var "a"])], by decide +kernel⟩
  have finds : s.heap.Finds (.member "m") ⟨1⟩ ⟨0⟩ (.nullary "m" (.script 0)) :=
    ⟨.single super, ⟨0⟩, resolved, binding⟩
  obtain ⟨b, after, reads, stands⟩ := fetched_method reachable live finds
  have fit := reachable.sound.fit
  have has := reachable.sound.has_of_isLive live
  have ran := (runs_getMember (runs_runBody 0) fit has "m").result (reads (runBody 0))
  have kept : Session.Fit true { after with vars := [("m", .value (.binding b))] } :=
    { ran.1.fit fit with vars := List.forall_mem_singleton.2 ran.2 }
  have rooted : .binding b ∈ { after with vars := [("m", .value (.binding b))] }.roots := by
    exact List.mem_append_left _ (List.mem_append_left _ List.mem_cons_self)
  obtain ⟨receiver, fetched⟩ := stands { after with vars := [("m", .value (.binding b))] }
    (.single ⟨.inl rfl, kept.toGrounded⟩) fun released => released.not_rooted rooted
  have machine : after.machine = s.machine := by
    have same := (reads (runBody 0)).symm.trans
      (getMember_of_finds finds (reachable.sound.isLive_of_builtOn finds.on live) (runBody 0))
    rw [EStateM.Result.ok.injEq] at same
    rw [same.2]
  have affords : Affords { after with vars := [("m", .value (.binding b))] } := by
    refine ⟨fun limit is => ?_, ?_⟩
    · dsimp only at is
      rw [machine, unlimited] at is
      cases is
    · dsimp only
      rw [machine]
      exact budget
  exact ⟨s, after, b, receiver, reads, fetched, fetched.runs [] rfl affords nofun⟩

/-- A method of the lower of two layers that gives its receiver. While the upper one, from which it
is read, is alive, that is the receiver; once the upper one has been dropped it is the lower one. -/
theorem receiver_below_dropped_layer :
    let s := (Program.runSteps
      [.bind "a" (.apply (.command (.entity .entity)) [.str "A"]),
        .apply (.command (.entity .method))
          [.var "a", .str "m", .nullary "m" [.apply (.command (.call .lookup)) [.str "self"]]],
        .bind "b" (.apply (.command (.entity .entity)) [.str "B", .var "a"]),
        .bind "m" (.apply (.command (.entity .getMember)) [.var "b", .str "m"])]).after
          (Program.ready {})
    let gives (t : Session) (e : Expr) (receiver : EntityId) : Bool :=
      match eval (runBody nestingBound) e t with
      | .ok (.value v) _ => decide (v = .entity receiver)
      | _ => false
    s.isLive ⟨1⟩ = true ∧ (s.heap.entity ⟨1⟩).super = some ⟨0⟩ ∧
      gives s (.apply (.command (.entity .send)) [.var "b", .str "m"]) ⟨1⟩ = true ∧
      gives s (.apply (.command (.call .callBinding)) [.var "m"]) ⟨1⟩ = true ∧
      gives ((dropVariable "b").after s) (.apply (.command (.call .callBinding)) [.var "m"]) ⟨0⟩ =
        true := by
  decide +kernel

end Session

end Delegation
