import Delegation.Proofs.Run.Operands

/-!
# Runs keep sessions sound

Whatever a run does, it leaves a sound session behind, all of whose bodies may be run, and a heap
that steps have made from the one before. So what was in the heap before a run is in it afterwards.
-/

namespace Delegation

/-! ## Commands on stacks -/

/-- A session that differs from another at most in its stacks, which refer to what is in the heap.
-/
def Restacked (s t : Session) : Prop :=
  ∃ stack sharedStacks, t = { s with machine := { s.machine with stack }, sharedStacks } ∧
    s.heap.HasAll stack.owned ∧ ∀ shared ∈ sharedStacks, s.heap.HasAll shared.owned

namespace Restacked

variable {s t u : Session}

theorem trans (first : Restacked s t) (second : Restacked t u) : Restacked s u := by
  obtain ⟨_, _, rfl, _, _⟩ := first
  obtain ⟨stack, sharedStacks, rfl, stackKnown, sharedKnown⟩ := second
  exact ⟨stack, sharedStacks, rfl, stackKnown, sharedKnown⟩

theorem refl (grounded : s.Grounded) : Restacked s s :=
  ⟨s.machine.stack, s.sharedStacks, rfl, (Heap.hasAll_append.1 grounded.machine).1,
    grounded.sharedStacks⟩

theorem heap (restacked : Restacked s t) : t.heap = s.heap := by
  obtain ⟨_, _, rfl, _, _⟩ := restacked
  rfl

theorem grounded (restacked : Restacked s t) (before : s.Grounded) : t.Grounded := by
  obtain ⟨stack, sharedStacks, rfl, stackKnown, sharedKnown⟩ := restacked
  exact { before with
    machine := Heap.hasAll_append.2 ⟨stackKnown, (Heap.hasAll_append.1 before.machine).2⟩
    sharedStacks := sharedKnown }

end Restacked

/-! ## What stacks own -/

namespace Frame

theorem owned_pushInner_subset (frame : Frame) (x : ScopeId) :
    (frame.pushInner x).owned ⊆ .scope x :: frame.owned := by
  have moved : frame.owner.owned ++ .scope x :: Chain.owned frame.chain ⊆
      .scope x :: (frame.owner.owned ++ Chain.owned frame.chain) := by simp
  exact moved

theorem owned_popInner_subset (frame : Frame) : frame.popInner.owned ⊆ frame.owned := by
  have rest : Chain.owned frame.chain.tail ⊆ Chain.owned frame.chain :=
    List.map_subset _ (List.tail_sublist _).subset
  exact List.append_subset.2
    ⟨List.subset_append_left _ _, List.subset_append_of_subset_right _ rest⟩

end Frame

namespace CallStack

variable {stack : CallStack}

theorem eq_of_push {pushed : CallStack} {frame : Frame} (fits : stack.push frame = .ok pushed) :
    pushed = { stack with frames := frame :: stack.frames } := by
  unfold push at fits
  split at fits
  · cases fits
    rfl
  · split at fits <;> cases fits
    rfl

theorem owned_push {pushed : CallStack} {frame : Frame} (fits : stack.push frame = .ok pushed) :
    pushed.owned = frame.owned ++ stack.owned := by
  rw [eq_of_push fits]
  rfl

theorem owned_pop_subset (stack : CallStack) : stack.pop.owned ⊆ stack.owned := by
  obtain ⟨frames, limit⟩ := stack
  cases frames with
  | nil => exact List.Subset.refl _
  | cons frame rest => exact List.subset_append_right _ _

theorem owned_mapCurrent_subset {f : Frame → Frame} (xs : List Node)
    (changes : ∀ frame, (f frame).owned ⊆ xs ++ frame.owned) (stack : CallStack) :
    (stack.mapCurrent f).owned ⊆ xs ++ stack.owned := by
  obtain ⟨frames, limit⟩ := stack
  cases frames with
  | nil => exact List.subset_append_right _ _
  | cons frame rest =>
    have changed : (f frame).owned ++ rest.flatMap Frame.owned ⊆
        (xs ++ frame.owned) ++ rest.flatMap Frame.owned :=
      List.append_subset.2 ⟨List.subset_append_of_subset_left _ (changes frame),
        List.subset_append_right _ _⟩
    rwa [List.append_assoc] at changed

theorem owned_pushInner_subset (stack : CallStack) (x : ScopeId) :
    (stack.mapCurrent (·.pushInner x)).owned ⊆ .scope x :: stack.owned :=
  owned_mapCurrent_subset [.scope x] (fun frame => frame.owned_pushInner_subset x) stack

theorem owned_popInner_subset (stack : CallStack) :
    (stack.mapCurrent Frame.popInner).owned ⊆ stack.owned :=
  owned_mapCurrent_subset [] Frame.owned_popInner_subset stack

end CallStack

namespace Restacked

open Delegation.Action

variable {s t : Session}

theorem leads_setStack (grounded : s.Grounded) (target : Option StackId) {stack : CallStack}
    (known : s.heap.HasAll stack.owned) :
    (setStack target stack).Leads Restacked s fun _ _ => True := by
  cases target with
  | none => exact ⟨⟨stack, s.sharedStacks, rfl, known, grounded.sharedStacks⟩, trivial⟩
  | some shared =>
    refine ⟨⟨s.machine.stack, _, rfl, (Heap.hasAll_append.1 grounded.machine).1, ?_⟩, trivial⟩
    intro other place
    rcases Array.mem_or_eq_of_mem_setIfInBounds place with old | rfl
    · exact grounded.sharedStacks other old
    · exact known

theorem leads_newStack (grounded : s.Grounded) {stack : CallStack}
    (known : s.heap.HasAll stack.owned) :
    (newStack stack).Leads Restacked s fun _ _ => True := by
  refine ⟨⟨s.machine.stack, _, rfl, (Heap.hasAll_append.1 grounded.machine).1, ?_⟩, trivial⟩
  intro other place
  rcases Array.mem_push.1 place with old | rfl
  · exact grounded.sharedStacks other old
  · exact known

/-- A change of stacks may be followed by a result that the heap knows. -/
theorem leads_give {α : Type} (grounded : s.Grounded) {action : Action α}
    (leads : action.Leads Restacked s fun _ _ => True) {give : α → Object}
    (known : ∀ a t, Restacked s t → t.heap.HasAll (give a).refs) :
    (action >>= fun a => pure (give a)).Leads Restacked s fun t x => t.heap.HasAll x.refs :=
  leads.bind .trans fun t a done _ =>
    leads_pure (.refl (done.grounded grounded)) (known a t done)

/-- A command on stacks only moves frames and scopes about. -/
theorem leads_act (grounded : s.Grounded) (command : StackCommand) {xs : List Object}
    (known : s.heap.HasAll (Object.refsAll xs)) :
    (command.act xs).Leads Restacked s fun t x => t.heap.HasAll x.refs := by
  have here := Restacked.refl grounded
  cases command with
  | stack =>
    apply leads_lift_bind here
    intro limit _
    exact leads_give grounded (leads_newStack grounded (Heap.hasAll_nil _))
      fun _ _ _ => Heap.hasAll_nil _
  | push =>
    apply leads_lift_bind here
    intro target _
    apply leads_lift_bind here
    intro frame read
    apply leads_get_bind
    split
    · next pushed fits =>
      have pushedKnown : s.heap.HasAll pushed.owned := by
        rw [CallStack.owned_push fits]
        exact Heap.hasAll_append.2
          ⟨operand_known reads_asFrame known read, grounded.stackOr target⟩
      exact leads_give grounded (leads_setStack grounded target pushedKnown)
        fun _ _ _ => Heap.hasAll_nil _
    · exact leads_fail here _
  | pop =>
    apply leads_lift_bind here
    intro target _
    apply leads_get_bind
    have before := grounded.stackOr target
    have popped := before.subset (CallStack.owned_pop_subset _)
    refine leads_give grounded (leads_setStack grounded target popped) fun _ t done => ?_
    apply hasAll_ofOption
    intro frame is
    rw [done.heap]
    exact hasAll_frames before (List.mem_of_mem_head? is)
  | pushInner =>
    apply leads_lift_bind here
    intro target _
    apply leads_lift_bind here
    intro scope read
    apply leads_get_bind
    have scopeKnown := operand_has reads_asScope known read
    have changed := (Heap.hasAll_cons.2 ⟨scopeKnown, grounded.stackOr target⟩).subset
      (CallStack.owned_pushInner_subset _ scope)
    exact leads_give grounded (leads_setStack grounded target changed)
      fun _ _ _ => Heap.hasAll_nil _
  | popInner =>
    apply leads_lift_bind here
    intro target _
    apply leads_get_bind
    have before := grounded.stackOr target
    have changed := before.subset (CallStack.owned_popInner_subset _)
    refine leads_give grounded (leads_setStack grounded target changed) fun _ t done =>
      hasAll_ofOption fun scope is => ?_
    obtain ⟨frame, first, innermost⟩ := Option.bind_eq_some_iff.1 is
    have frameKnown := hasAll_frames before (List.mem_of_mem_head? first)
    have has := hasAll_chain.1 (Heap.hasAll_append.1 frameKnown).2 scope
      (List.mem_of_mem_head? innermost)
    rw [done.heap]
    exact Heap.hasAll_cons.2 ⟨has, Heap.hasAll_nil _⟩
  | suspend =>
    apply leads_get_bind
    apply (leads_setStack grounded none (Heap.hasAll_nil _)).bind .trans
    intro t _ done _
    have live : t.heap.HasAll s.machine.stack.owned := by
      rw [done.heap]
      exact grounded.stackOr none
    have grounded' := done.grounded grounded
    exact leads_give grounded' (leads_newStack grounded' live) fun _ _ _ => Heap.hasAll_nil _
  | resume =>
    apply leads_lift_bind here
    intro shared _
    apply leads_get_bind
    refine (leads_setStack grounded none (grounded.stackOr (some shared))).bind .trans
      fun t _ done _ => ?_
    have grounded' := done.grounded grounded
    refine (leads_setStack grounded' (some shared) (Heap.hasAll_nil _)).bind .trans
      fun u _ done' _ => ?_
    have grounded'' := done'.grounded grounded'
    have replaced : u.heap.HasAll s.machine.stack.owned := by
      rw [done'.heap, done.heap]
      exact grounded.stackOr none
    exact leads_give grounded'' (leads_newStack grounded'' replaced)
      fun _ _ _ => Heap.hasAll_nil _

theorem fit {raw : Bool} (restacked : Restacked s t) (fit : s.Fit raw) : t.Fit raw where
  toGrounded := restacked.grounded fit.toGrounded
  heap := restacked.heap ▸ fit.heap
  allowed := by
    obtain ⟨_, _, rfl, _, _⟩ := restacked
    exact fit.allowed

end Restacked

/-! ## Runs -/

namespace Session

variable {session : Session} {raw : Bool}

/-- A session that refers to what is in its heap does so when the heap has grown. -/
theorem Grounded.grow {heap : Heap} (grounded : session.Grounded)
    (grows : session.heap.Grows heap) : { session with heap }.Grounded where
  inhabited := grows.has (.scope ⟨0⟩) grounded.inhabited
  vars entry place := grows.hasAll (grounded.vars entry place)
  held x place := grows.hasAll (grounded.held x place)
  machine := grows.hasAll grounded.machine
  machines machine place := grows.hasAll (grounded.machines machine place)
  chains chain place := grows.hasAll (grounded.chains chain place)
  sharedStacks stack place := grows.hasAll (grounded.sharedStacks stack place)
  builders registry place := grows.hasAll (grounded.builders registry place)

theorem Fit.step {captures : Frame → Prop} {heap : Heap} (fit : session.Fit raw)
    (step : Heap.Step captures session.heap heap) : { session with heap }.Fit raw :=
  { fit.grow step.grows with
    heap := step.sound fit.heap
    allowed := fit.allowed }

/-- The session on another live stack. -/
def withStack (session : Session) (stack : CallStack) : Session :=
  { session with machine := { session.machine with stack } }

theorem Fit.withStack {stack : CallStack} (fit : session.Fit raw)
    (known : session.heap.HasAll stack.owned) : (session.withStack stack).Fit raw :=
  { fit with machine := Heap.hasAll_append.2 ⟨known, (Heap.hasAll_append.1 fit.machine).2⟩ }

theorem Fit.stack (fit : session.Fit raw) : session.heap.HasAll session.machine.stack.owned :=
  (Heap.hasAll_append.1 fit.machine).1

theorem Fit.hold {x : Object} (fit : session.Fit raw) (known : session.heap.HasAll x.refs) :
    { session with held := x :: session.held }.Fit raw :=
  { fit with held := List.forall_mem_cons.2 ⟨known, fit.held⟩ }

theorem Fit.pushInner {s : ScopeId} (fit : session.Fit raw) (known : session.heap.Has (.scope s)) :
    (session.mapFrame (·.pushInner s)).Fit raw :=
  fit.withStack ((Heap.hasAll_cons.2 ⟨known, fit.stack⟩).subset
    (CallStack.owned_pushInner_subset _ s))

theorem Fit.popInner (fit : session.Fit raw) : (session.mapFrame Frame.popInner).Fit raw :=
  fit.withStack (fit.stack.subset (CallStack.owned_popInner_subset _))

theorem Fit.popFrame (fit : session.Fit raw) : session.popFrame.Fit raw :=
  fit.withStack (fit.stack.subset (CallStack.owned_pop_subset _))

theorem Fit.globals (fit : session.Fit raw) : session.heap.Has (.scope session.machine.globals) :=
  (Heap.hasAll_cons.1 (Heap.hasAll_append.1 fit.machine).2).1

theorem Fit.switch (fit : session.Fit raw) (m : MachineId) : (session.switch m).Fit raw := by
  unfold Session.switch
  split
  · exact fit
  · refine { fit with
      machine := fit.machineOr m
      machines := fun machine place => ?_ }
    rcases Array.mem_or_eq_of_mem_setIfInBounds place with old | rfl
    · exact fit.machines machine old
    · exact fit.machine

end Session

namespace Run

variable {raw : Bool} {s t : Session}

/-- A run makes steps on the heap, and leaves a fit session behind. -/
theorem keeps (run : Run raw s t) (fit : s.Fit raw) : s.heap.Later t.heap ∧ t.Fit raw := by
  induction run with
  | refl => exact ⟨.refl, fit⟩
  | trans _ _ first second =>
    have middle := first fit
    have last := second middle.2
    exact ⟨middle.1.trans last.1, last.2⟩
  | heap step => exact ⟨.single (step.mono fun _ _ => trivial), fit.step step⟩
  | count s kind => exact ⟨.refl, { fit with }⟩
  | setVariable name known =>
    refine ⟨.refl, { fit with vars := List.forall_mem_cons.2 ⟨known, fun entry place => ?_⟩ }⟩
    exact fit.vars entry (List.mem_filter.1 place).1
  | dropVariable s name =>
    exact ⟨.refl,
      { fit with vars := fun entry place => fit.vars entry (List.mem_filter.1 place).1 }⟩
  | report s reported log => exact ⟨.refl, { fit with }⟩
  | script s allowed =>
    refine ⟨.refl, { fit with allowed := fun body place => ?_ }⟩
    rcases Array.mem_push.1 place with old | rfl
    · exact fit.allowed body old
    · exact allowed
  | chains known => exact ⟨.refl, { fit with chains := known }⟩
  | builders known => exact ⟨.refl, { fit with builders := known }⟩
  | stack s limit =>
    refine ⟨.refl, { fit with sharedStacks := fun stack place => ?_ }⟩
    rcases Array.mem_push.1 place with old | rfl
    · exact fit.sharedStacks stack old
    · exact Heap.hasAll_nil _
  | machine config known =>
    refine ⟨.refl, { fit with machines := fun machine place => ?_ }⟩
    rcases Array.mem_push.1 place with old | rfl
    · exact fit.machines machine old
    · exact known
  | install _ config known => exact ⟨.refl, { fit with machine := known }⟩
  | handle _ command known =>
    have restacked := (Restacked.leads_act fit.toGrounded command known).after
    exact ⟨restacked.heap ▸ .refl, restacked.fit fit⟩
  | holding known _ inner =>
    have after := inner (fit.hold known)
    exact ⟨after.1, { after.2 with held := fun x place => after.1.grows.hasAll (fit.held x place) }⟩
  | frame known pushed _ inner =>
    have fits := fit.withStack
      (by rw [CallStack.owned_push pushed]; exact Heap.hasAll_append.2 ⟨known, fit.stack⟩)
    have after := inner fits
    exact ⟨after.1, after.2.popFrame⟩
  | shadow known _ inner =>
    have after := inner (fit.pushInner known)
    exact ⟨after.1, after.2.popInner⟩
  | @switch s t m _ inner =>
    have after := inner (fit.switch m)
    rw [Session.heap_switch] at after
    exact ⟨by rw [Session.heap_switch]; exact after.1, after.2.switch _⟩

theorem later (run : Run raw s t) (fit : s.Fit raw) : s.heap.Later t.heap := (run.keeps fit).1

theorem fit (run : Run raw s t) (fit : s.Fit raw) : t.Fit raw := (run.keeps fit).2

/-- What was in the heap before a run is in it afterwards. -/
theorem known (run : Run raw s t) (fit : s.Fit raw) {xs : List Node} (known : s.heap.HasAll xs) :
    t.heap.HasAll xs := (run.later fit).grows.hasAll known

theorem has (run : Run raw s t) (fit : s.Fit raw) {x : Node} (has : s.heap.Has x) : t.heap.Has x :=
  (run.later fit).grows.has x has

end Run

end Delegation
