import Delegation.Proofs.Course
import Delegation.Proofs.Logic.Evaluation

/-!
# Heaps along the way

A run changes its heap in two ways only: directly, in changes that need no calls, and by the bodies
that it runs. Machines, stacks and frames come and go without a change to the heap. So a relation
between heaps that all direct changes respect holds between the heap in which a run starts and every
heap that it comes by, the last one and those at the moments of its chronicle.

One such relation says what is left of a heap at every later moment. Its scopes have grown, its
entities have the tables that they had, and the entities that have come up since have tables of
their own.
-/

namespace Delegation

variable {α β : Type} {W : Heap → Heap → Prop} {s t : Session} {c : Chronicle}

namespace Action

/-! ## What a run keeps to -/

/-- From a session, all heaps that the action comes by stand in a relation to the first one. -/
structure Keeps (W : Heap → Heap → Prop) (s : Session) (action : Action α) (c : Chronicle) :
    Prop where
  after : W s.heap (action.after s).heap
  moments : ∀ moment ∈ c, W s.heap moment.session.heap

theorem Keeps.of_bracket {outer inner : Action α} {inside : Session} (leave : Session → Session)
    (keeps : inner.Keeps W inside c) (is : outer s = bracket inside leave inner)
    (enters : inside.heap = s.heap) (leaves : ∀ t, (leave t).heap = t.heap) :
    outer.Keeps W s c := by
  have after : (outer.after s).heap = (inner.after inside).heap := by
    rw [after_of_bracket is, leaves]
  exact ⟨after ▸ enters ▸ keeps.after, enters ▸ keeps.moments⟩

theorem Keeps.holding {action : Action α} {x : Object}
    (keeps : action.Keeps W { s with held := x :: s.held } c) : (holding x action).Keeps W s c :=
  keeps.of_bracket (fun t => { t with held := s.held }) rfl rfl fun _ => rfl

theorem Keeps.of_after {action : Action α} {action' : Action β} (keeps : action'.Keeps W s c)
    (same : (action.after s).heap = (action'.after s).heap) : action.Keeps W s c :=
  ⟨same ▸ keeps.after, keeps.moments⟩

variable [Harmless fun s t : Session => W s.heap t.heap]

theorem keeps_refl (W : Heap → Heap → Prop) [Harmless fun s t : Session => W s.heap t.heap]
    (s : Session) : W s.heap s.heap := Harmless.refl (R := fun s t : Session => W s.heap t.heap) s

theorem keeps_trans {u : Session} (first : W s.heap t.heap) (second : W t.heap u.heap) :
    W s.heap u.heap :=
  Harmless.trans (R := fun s t : Session => W s.heap t.heap) (s := s) (t := t) (u := u) first second

theorem Keeps.note {action : Action α} (keeps : action.Keeps W s c) (deed : Deed) :
    action.Keeps W s (⟨deed, s⟩ :: c) :=
  { keeps with moments := List.forall_mem_cons.2 ⟨keeps_refl W s, keeps.moments⟩ }

theorem keeps_bind {action : Action α} {next : α → Action β} {rest : α → Session → Chronicle}
    (change : W s.heap (action.after s).heap)
    (second : ∀ a t, action s = .ok a t → (next a).Keeps W t (rest a t)) :
    W s.heap ((action >>= next).after s).heap ∧
      ∀ a t, action s = .ok a t → ∀ moment ∈ rest a t, W s.heap moment.session.heap := by
  have reached (a : α) (t : Session) (ends : action s = .ok a t) : W s.heap t.heap :=
    after_of_ok ends ▸ change
  refine ⟨?_, fun a t ends moment place =>
    keeps_trans (reached a t ends) ((second a t ends).moments moment place)⟩
  cases ends : action s with
  | ok a t =>
    rw [after_bind_of_ok ends]
    exact keeps_trans (reached a t ends) (second a t ends).after
  | error stop t =>
    rw [after_bind_of_error ends, ← after_of_error ends]
    exact change

theorem keeps_step {action : Action α} {next : α → Action β} {rest : α → Session → Chronicle}
    (change : W s.heap (action.after s).heap)
    (second : ∀ a t, action s = .ok a t → (next a).Keeps W t (rest a t)) :
    (action >>= next).Keeps W s (Chronicle.step action rest s) := by
  obtain ⟨after, further⟩ := keeps_bind change second
  exact ⟨after, Chronicle.forall_mem_step (fun _ _ ends => after_of_error ends ▸ change) further⟩

theorem keeps_seq {action : Action α} {next : α → Action β} {rest : α → Session → Chronicle}
    (first : action.Keeps W s c)
    (second : ∀ a t, action s = .ok a t → (next a).Keeps W t (rest a t)) :
    (action >>= next).Keeps W s (c ++ Chronicle.next action rest s) := by
  obtain ⟨after, further⟩ := keeps_bind first.after second
  exact ⟨after, List.forall_mem_append.2 ⟨first.moments, Chronicle.forall_mem_next further⟩⟩

theorem keeps_quietly {action : Action α} (change : W s.heap (action.after s).heap) :
    action.Keeps W s (Chronicle.quietly action s) := by
  have keeps : (action >>= pure).Keeps W s (Chronicle.quietly action s) :=
    keeps_step change fun a t _ => ⟨keeps_refl W t, List.forall_mem_nil _⟩
  rwa [bind_pure] at keeps

/-- An action in a frame, whose failures may gain a trace on the way out. -/
theorem keeps_inFrame {traced : Bool} {frame : Frame} {outer inner action : Action α}
    {rest : Session → Chronicle} (is : outer = enterFrame frame inner)
    (same : ∀ t, inner.after t = action.after t) (keeps : ∀ t, action.Keeps W t (rest t)) :
    outer.Keeps W s (Chronicle.inFrame traced frame action rest s) := by
  subst is
  cases pushed : s.machine.stack.push frame with
  | error cause =>
    simp only [Chronicle.inFrame, Chronicle.step, pushFrame, pushed]
    refine ⟨?_, List.forall_mem_singleton.2 (keeps_refl W s)⟩
    simp only [Action.after, enterFrame_of_full pushed]
    exact keeps_refl W s
  | ok stack =>
    have inside : inner.Keeps W (s.withStack stack) (rest (s.withStack stack)) :=
      (keeps _).of_after (congrArg _ (same _))
    have framed : (enterFrame frame inner).Keeps W s (rest (s.withStack stack)) :=
      inside.of_bracket Session.popFrame (enterFrame_of_push pushed _) rfl fun _ => rfl
    simp only [Chronicle.inFrame, Chronicle.step, pushFrame, pushed]
    refine { framed with moments := List.forall_mem_cons.2 ⟨keeps_refl W s, ?_⟩ }
    exact List.forall_mem_append.2 ⟨framed.moments,
      List.forall_mem_singleton.2 (keeps (s.withStack stack)).after⟩

omit [Harmless fun s t : Session => W s.heap t.heap] in
theorem Keeps.caught {action : Action α} {rest : Failure → Session → Chronicle}
    (keeps : action.Keeps W s c)
    (further : ∀ failure t, W s.heap t.heap → ∀ moment ∈ rest failure t,
      W s.heap moment.session.heap) :
    action.Keeps W s (c ++ Chronicle.caught action rest s) := by
  refine { keeps with moments := List.forall_mem_append.2 ⟨keeps.moments, ?_⟩ }
  refine Chronicle.forall_mem_caught fun failure t ends => ?_
  have reached : W s.heap t.heap := after_of_error ends ▸ keeps.after
  exact ⟨reached, further failure t reached⟩

theorem keeps_counted {b : BindingId} {args : List Value} {next : Unit → Action α}
    {rest : Unit → Session → Chronicle}
    (keeps : ∀ t, t.heap = s.heap → (next ()).Keeps W t (rest () t)) :
    (holding (.value (.binding b))
      (countCall (s.heap.binding b).strategy.kind >>= next)).Keeps W s
      (⟨.call b args, s⟩ :: Chronicle.keeping (.value (.binding b))
        (Chronicle.step (countCall (s.heap.binding b).strategy.kind) rest) s) := by
  have counted : (countCall (s.heap.binding b).strategy.kind >>= next).Keeps W
      { s with held := .value (.binding b) :: s.held }
      (Chronicle.step (countCall (s.heap.binding b).strategy.kind) rest
        { s with held := .value (.binding b) :: s.held }) := by
    refine keeps_step ?_ fun _ t ends => ?_
    · rw [after_countCall]
      exact keeps_refl W s
    · have same := heap_of_countCall ends
      exact keeps t same
  exact counted.holding.note _

theorem quiet_stackCommand (command : StackCommand) (xs : List Object) :
    Quiet (fun s t : Session => W s.heap t.heap) (command.act xs) := by
  have made (stack : CallStack) : Quiet (fun s t : Session => W s.heap t.heap) (newStack stack) :=
    fun s => .of_change rfl (keeps_refl W s) fun _ => rfl
  have sets (target : Option StackId) (stack : CallStack) :
      Quiet (fun s t : Session => W s.heap t.heap) (setStack target stack) := by
    intro s
    cases target <;> exact .of_change rfl (keeps_refl W s) fun _ => rfl
  cases command with
  | stack => exact quiet_lift_bind fun limit => (made _).map _
  | push =>
    refine quiet_lift_bind fun target => quiet_lift_bind fun frame => ?_
    refine quiet_get_bind (fun _ => rfl) fun s => ?_
    split
    · exact (sets _ _).map _
    · exact (quiet_fail _).map _
  | pop =>
    exact quiet_lift_bind fun target => quiet_get_bind (fun _ => rfl) fun s => (sets _ _).map _
  | pushInner =>
    exact quiet_lift_bind fun target => quiet_lift_bind fun x =>
      quiet_get_bind (fun _ => rfl) fun s => (sets _ _).map _
  | popInner =>
    exact quiet_lift_bind fun target => quiet_get_bind (fun _ => rfl) fun s => (sets _ _).map _
  | suspend => exact quiet_get_bind (fun _ => rfl) fun s => (sets _ _).bind fun _ => (made _).map _
  | resume =>
    exact quiet_lift_bind fun x => quiet_get_bind (fun _ => rfl) fun s =>
      (sets _ _).bind fun _ => (sets _ _).bind fun _ => (made _).map _

/-- To keep to a relation is a judgement with the rules of a logic. -/
theorem logic_keeps : Logic true (fun s t : Session => W s.heap t.heap)
    fun {_} _ s action c => action.Keeps W s c where
  congr {_ _ s _ _ _} holds same := holds.of_after (by simp only [Action.after, same s (.refl s)])
  code holds := holds fun _ _ => .inl rfl
  script s _ _ := keeps_refl W s
  result _ s _ := ⟨keeps_refl W s, List.forall_mem_nil _⟩
  step quiet := keeps_step quiet.change
  seq := keeps_seq
  note holds _ := holds.note _
  ask {s q xs c} holds := by
    have asked : Keeps W s (do q.answer (← get) xs : Action Object) c := holds.of_after rfl
    exact asked.note _
  serve _ holds := holds.note _
  hold holds := holds.holding
  frame _ holds := keeps_inFrame rfl (fun _ => after_tracing _) holds
  enter _ holds := keeps_inFrame rfl (fun _ => rfl) holds
  shadow x holds := (holds _).of_bracket (·.mapFrame Frame.popInner) rfl rfl fun _ => rfl
  switch {_ s action inner} m _ holds := by
    have held : (holding (.machine s.running) action).Keeps W (s.switch m)
        (Chronicle.keeping (.machine s.running) inner (s.switch m)) := (holds _).holding
    have switched : (onMachine m action).Keeps W s _ :=
      held.of_bracket (·.switch s.running) rfl (s.heap_switch m) fun t => t.heap_switch s.running
    exact switched.note _
  rescue {_ s action c} holds :=
    (holds.caught fun _ _ _ => List.forall_mem_nil _).of_after
      (congrArg Session.heap (after_attempt action s))
  annotate {s action c} note holds :=
    (holds.caught fun _ _ here => List.forall_mem_singleton.2 here).of_after
      (congrArg Session.heap (after_mapFailure _ action s))
  call := keeps_counted
  build s _ _ := ⟨keeps_refl W s, List.forall_mem_singleton.2 (keeps_refl W s)⟩
  install _ s _ _ := ⟨keeps_refl W s, List.forall_mem_singleton.2 (keeps_refl W s)⟩
  handle s command xs _ := (keeps_quietly (quiet_stackCommand command xs s).change).note _

end Action

/-! ## Heaps that widen -/

namespace Heap

/-- What may become of a heap whatever is done to it. -/
structure Widens (before after : Heap) : Prop where
  has : ∀ x, before.Has x → after.Has x
  scope : ∀ x, before.Has (.scope x) → (before.scope x).Grows (after.scope x)
  tables : ∀ e, before.Has (.entity e) →
    (after.entity e).fields = (before.entity e).fields ∧
      (after.entity e).members = (before.entity e).members
  fresh : ∀ e, after.Has (.entity e) → ¬before.Has (.entity e) →
    ¬before.Has (.scope (after.entity e).fields) ∧ ¬before.Has (.scope (after.entity e).members)

namespace Widens

variable {heap after : Heap}

theorem refl (heap : Heap) : heap.Widens heap :=
  ⟨fun _ has => has, fun _ _ => .refl _, fun _ _ => ⟨rfl, rfl⟩, fun _ has new => absurd has new⟩

theorem trans {a b c : Heap} (first : a.Widens b) (second : b.Widens c) : a.Widens c where
  has x has := second.has x (first.has x has)
  scope x has := (first.scope x has).trans (second.scope x (first.has _ has))
  tables e has := by
    obtain ⟨fields, members⟩ := second.tables e (first.has _ has)
    exact ⟨fields.trans (first.tables e has).1, members.trans (first.tables e has).2⟩
  fresh e has new := by
    by_cases middle : b.Has (.entity e)
    · obtain ⟨fields, members⟩ := second.tables e middle
      rw [fields, members]
      exact first.fresh e middle new
    · obtain ⟨fields, members⟩ := second.fresh e has middle
      exact ⟨mt (first.has _) fields, mt (first.has _) members⟩

theorem path {x : ScopeId} (widens : heap.Widens after) (has : heap.Has (.scope x)) :
    after.path x = heap.path x := by rw [Heap.path, Heap.path, (widens.scope x has).lineage]

theorem of_same_entities (has : ∀ x, heap.Has x → after.Has x)
    (scope : ∀ x, heap.Has (.scope x) → (heap.scope x).Grows (after.scope x))
    (entities : after.entities = heap.entities) : heap.Widens after where
  has := has
  scope := scope
  tables e _ := by simp only [Heap.entity, entities, and_self]
  fresh e is new := absurd (by simpa only [Has, entities] using is) new

theorem of_grows (grows : heap.Grows after) (entities : after.entities = heap.entities) :
    heap.Widens after := of_same_entities grows.has grows.scope entities

theorem modifyScope {x : ScopeId} {f : Scope → Scope}
    (grows : (heap.scope x).Grows (f (heap.scope x))) : heap.Widens (heap.modifyScope x f) := by
  refine of_same_entities (fun y has => ?_) (grows_modifyScope grows) rfl
  cases y with
  | scope => simpa [Has, Heap.modifyScope] using has
  | entity | binding => exact has

theorem setScope {x : ScopeId} {scope : Scope} (grows : (heap.scope x).Grows scope) :
    heap.Widens (heap.setScope x scope) := by
  refine of_same_entities (fun y has => ?_) (fun y has => ?_) rfl
  · cases y with
    | scope => simpa [Has, Heap.setScope] using has
    | entity | binding => exact has
  · by_cases same : y = x
    · subst same
      rw [scope_setScope has, if_pos rfl]
      exact grows
    · rw [scope_setScope_of_ne heap scope same]
      exact .refl _

/-- An entity is added with tables behind all scopes there were; whatever it is built on. -/
theorem addEntity (heap : Heap) (super type : Option EntityId) (name : String) :
    heap.Widens (heap.addEntity super type name).2 := by
  let pushed := heap.entities.push (heap.freshEntity super type name)
  have tables (e : EntityId) :
      ((heap.addEntity super type name).2.entity e).fields =
          (pushed.getD e.index default).fields ∧
        ((heap.addEntity super type name).2.entity e).members =
          (pushed.getD e.index default).members := by
    simp only [Heap.entity, Array.getD_eq_getD_getElem?, entities_addEntity]
    cases super with
    | none => exact ⟨rfl, rfl⟩
    | some base =>
      simp only [Option.elim_some, Array.getElem?_modify]
      split
      · cases (heap.entities.push (heap.freshEntity (some base) type name))[e.index]? <;>
          exact ⟨rfl, rfl⟩
      · exact ⟨rfl, rfl⟩
  refine ⟨fun x has => ?_, fun x has => ?_, fun e has => ?_, fun e has new => ?_⟩
  · cases x <;> simp only [Has, size_scopes_addEntity, size_entities_addEntity,
      bindings_addEntity] at * <;> omega
  · rw [scope_addEntity_of_lt super type name has]
    exact .refl _
  · have old : pushed.getD e.index default = heap.entity e :=
      (Array.getD_push _ _ _ _).trans (if_neg (Nat.ne_of_lt has))
    rw [(tables e).1, (tables e).2, old]
    exact ⟨rfl, rfl⟩
  · have last : e.index = heap.entities.size := by
      simp only [Has, size_entities_addEntity] at has new
      omega
    have made : pushed.getD e.index default = heap.freshEntity super type name :=
      (Array.getD_push _ _ _ _).trans (if_pos last)
    rw [(tables e).1, (tables e).2, made]
    simp [freshEntity, Has]

end Widens

theorem Step.widens {captures : Frame → Prop} {heap after : Heap}
    (step : Step captures heap after) : heap.Widens after := by
  have grows := step.grows
  cases step with
  | addEntity name _ _ _ => exact .addEntity heap _ _ name
  | addScope | addBinding | declare | store | close => exact .of_grows grows rfl

theorem Later.widens {heap after : Heap} (later : Later heap after) : heap.Widens after := by
  induction later with
  | refl => exact .refl heap
  | tail _ step ih => exact ih.trans step.widens

end Heap

instance : Harmless fun s t : Session => s.heap.Widens t.heap where
  refl s := .refl s.heap
  trans := .trans
  addScope s scope := .of_grows (s.heap.grows_addScope scope) rfl
  addBinding s binding _ := .of_grows (s.heap.grows_addBinding binding) rfl
  addEntity s super type name := .addEntity s.heap super type name
  declare declared := .setScope (Scope.grows_of_declare declared)
  store v found := .modifyScope (Scope.grows_store found v)
  close _ _ := .modifyScope (Scope.grows_close _)
  chains s _ := .refl s.heap
  builders s _ := .refl s.heap
  vars s _ := .refl s.heap
  report s _ _ := .refl s.heap

/-- At every moment of a body the heap has widened since the body began. -/
theorem Body.widens (nesting : Nat) (body : Body) (s : Session) :
    ∀ moment ∈ body.chronicle nesting s, s.heap.Widens moment.session.heap :=
  have keeps : (runBody nesting body).Keeps Heap.Widens s (body.chronicle nesting s) :=
    Action.logic_keeps.told_runBody nesting body s
  keeps.moments

end Delegation
