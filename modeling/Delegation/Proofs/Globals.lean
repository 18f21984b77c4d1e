import Delegation.Proofs.Course
import Delegation.Proofs.Logic.Evaluation
import Delegation.Proofs.Run.Start

/-!
# Globals close every chain

The frames that calls push see the globals, and so does the frame in which scopes are put outside any
call; a closure captures such a frame, with scopes in front of its chain at most, and enters it again.
So as long as frames come from nowhere else, the chain of every frame and every chain that a closure
has captured ends in the globals of the machine, wherever a run has got to.

The stack and the closures of the heap have to be looked at together, since each gets its frames from
the other. A scope that is put in front of a chain is taken away again by position; this leaves the
chain of the frame behind because a run leaves the stack as it was.
-/

namespace Delegation

variable {α : Type} {first s t : Session} {c : Chronicle}

/-! ## Environments -/

/-- The chains in which code looks for free names: now, later on in a frame that is on the stack, or
when a closure is called. -/
inductive Session.Environment (s : Session) : Chain → Prop
  | current : Environment s s.machine.currentChain
  | live {frame : Frame} (place : frame ∈ s.machine.stack.frames) : Environment s frame.chain
  | captured {b : BindingId} {frame : Frame}
      (is : (s.heap.binding b).strategy = .closure frame) : Environment s frame.chain

/-- What stays true of a machine since a first session, as long as it runs homebound scripts. -/
structure Session.Home (s first : Session) : Prop where
  globals : s.machine.globals = first.machine.globals
  frames : ∀ frame ∈ s.machine.stack.frames, frame.chain.getLast? = some first.machine.globals
  captured : ∀ b frame, (s.heap.binding b).strategy = .closure frame →
    frame.chain.getLast? = some first.machine.globals
  code : ∀ body ∈ s.code, Expr.homeboundAll body = true
  constants : ∀ name v,
    (first.heap.scope first.machine.globals).cell? name = some (.constant v) →
      (s.heap.scope first.machine.globals).cell? name = some (.constant v)

/-- A change that leaves the machine alone and brings homebound code only. Closures that it makes
capture the current frame. -/
structure Session.Modest (s t : Session) : Prop where
  machine : t.machine = s.machine
  code : ∀ body ∈ t.code, body ∈ s.code ∨ Expr.homeboundAll body = true
  captured : ∀ b frame, (t.heap.binding b).strategy = .closure frame →
    frame = s.machine.currentFrame ∨ ∃ b', (s.heap.binding b').strategy = .closure frame
  constants : ∀ x name v, (s.heap.scope x).cell? name = some (.constant v) →
    (t.heap.scope x).cell? name = some (.constant v)

/-! ## Modest changes -/

theorem Heap.has_of_cell? {heap : Heap} {x : ScopeId} {name : String} {cell : Cell}
    (found : (heap.scope x).cell? name = some cell) : heap.Has (.scope x) := by
  refine Classical.byContradiction fun absent => ?_
  have none : heap.scope x = default := by
    rw [Heap.scope, Array.getD_eq_getD_getElem?, Array.getElem?_eq_none (Nat.le_of_not_lt absent)]
    rfl
  rw [none] at found
  cases found

theorem Heap.constants_of_grows {before after : Heap}
    (grows : ∀ x, before.Has (.scope x) → (before.scope x).Grows (after.scope x)) (x : ScopeId)
    (name : String) (v : Value) (found : (before.scope x).cell? name = some (.constant v)) :
    (after.scope x).cell? name = some (.constant v) := by
  obtain ⟨cell, there, became⟩ := (grows x (Heap.has_of_cell? found)).cells name _ found
  rw [there, became.constant]

namespace Session.Modest

theorem of_heap {heap : Heap} (captured : ∀ b frame, (heap.binding b).strategy = .closure frame →
      frame = s.machine.currentFrame ∨ ∃ b', (s.heap.binding b').strategy = .closure frame)
    (grows : ∀ x, s.heap.Has (.scope x) → (s.heap.scope x).Grows (heap.scope x)) :
    s.Modest { s with heap } where
  machine := rfl
  code _ place := .inl place
  captured := captured
  constants := Heap.constants_of_grows grows

theorem of_same (machine : t.machine = s.machine) (code : t.code = s.code) (heap : t.heap = s.heap) :
    s.Modest t where
  machine := machine
  code _ place := .inl (code ▸ place)
  captured b _ is := .inr ⟨b, heap ▸ is⟩
  constants _ _ _ found := heap ▸ found

instance : Harmless Session.Modest where
  refl _ := of_same rfl rfl rfl
  trans first second := {
    machine := second.machine.trans first.machine
    code := fun body place => (second.code body place).elim (first.code body) .inr
    captured := fun b frame is => by
      rcases second.captured b frame is with now | ⟨b', old⟩
      · exact .inl (first.machine ▸ now)
      · exact first.captured b' frame old
    constants := fun x name v found =>
      second.constants x name v (first.constants x name v found) }
  addScope s scope := of_heap (fun b _ is => .inr ⟨b, is⟩) (s.heap.grows_addScope scope).scope
  addBinding s binding captured := by
    refine of_heap (fun b frame is => ?_) (s.heap.grows_addBinding binding).scope
    have pushed : (s.heap.addBinding binding).2.binding b =
        if b.index = s.heap.bindings.size then binding else s.heap.binding b :=
      Array.getD_push _ _ _ _
    rw [pushed] at is
    split at is
    · exact .inl (captured frame is)
    · exact .inr ⟨b, is⟩
  addEntity s super type name := by
    refine of_heap (fun b frame is => ?_) fun x has => ?_
    · exact .inr ⟨b, by simpa only [Heap.binding, Heap.bindings_addEntity] using is⟩
    · rw [Heap.scope_addEntity_of_lt super type name has]
      exact .refl _
  declare {s x name cell scope} declared := by
    refine of_heap (fun b _ is => .inr ⟨b, is⟩) fun y has => ?_
    by_cases same : y = x
    · subst same
      rw [Heap.scope_setScope has, if_pos rfl]
      exact Scope.grows_of_declare declared
    · rw [Heap.scope_setScope_of_ne s.heap scope same]
      exact .refl _
  store v found :=
    of_heap (fun b _ is => .inr ⟨b, is⟩) (Heap.grows_modifyScope (Scope.grows_store found v))
  close _ _ :=
    of_heap (fun b _ is => .inr ⟨b, is⟩) (Heap.grows_modifyScope (Scope.grows_close _))
  chains _ _ := of_same rfl rfl rfl
  builders _ _ := of_same rfl rfl rfl
  vars _ _ := of_same rfl rfl rfl
  report _ _ _ := of_same rfl rfl rfl

end Session.Modest

/-! ## Sessions at home -/

namespace Session.Home

/-- What a session is made of besides its machine, its heap and its code does not matter. -/
theorem congr (home : s.Home first) (globals : t.machine.globals = s.machine.globals)
    (stack : t.machine.stack = s.machine.stack) (heap : t.heap = s.heap) (code : t.code = s.code) :
    t.Home first where
  globals := globals.trans home.globals
  frames := stack ▸ home.frames
  captured := heap ▸ home.captured
  code := code ▸ home.code
  constants := heap ▸ home.constants

theorem withStack (home : s.Home first) {stack : CallStack}
    (frames : ∀ frame ∈ stack.frames, frame.chain.getLast? = some first.machine.globals) :
    (s.withStack stack).Home first := { home with frames }

theorem currentFrame (home : s.Home first) :
    s.machine.currentFrame.chain.getLast? = some first.machine.globals := by
  unfold Machine.currentFrame CallStack.current
  cases is : s.machine.stack.frames with
  | nil => exact congrArg some home.globals
  | cons frame rest => exact home.frames frame (is ▸ List.mem_cons_self)

theorem change (home : s.Home first) (modest : s.Modest t) : t.Home first where
  globals := modest.machine ▸ home.globals
  frames := modest.machine ▸ home.frames
  captured b frame is := by
    rcases modest.captured b frame is with rfl | ⟨b', old⟩
    · exact home.currentFrame
    · exact home.captured b' frame old
  code body place := (modest.code body place).elim (home.code body) id
  constants name v found := modest.constants _ name v (home.constants name v found)

theorem calls (home : s.Home first) {frame : Frame} (calls : s.Calls frame) :
    frame.chain.getLast? = some first.machine.globals := by
  rcases calls with own | ⟨b, is⟩
  · rw [own, home.globals]
  · exact home.captured b frame is

end Session.Home

/-! ## Actions that stay at home -/

namespace Action

/-- From a session at home, an action never leaves it, and puts back the stack. -/
structure Homing (first s : Session) (action : Action α) (c : Chronicle) : Prop where
  after : (action.after s).Home first
  stack : (action.after s).machine.stack = s.machine.stack
  moments : ∀ moment ∈ c, moment.session.Home first

/-- If the session is at home, the action stays there. -/
def StaysHome (first s : Session) (action : Action α) (c : Chronicle) : Prop :=
  s.Home first → action.Homing first s c

theorem Homing.of_bracket {outer action : Action α} {inside : Session} {leave : Session → Session}
    (homing : action.Homing first inside c) (is : outer s = bracket inside leave action)
    (leaves : ∀ t, t.Home first → t.machine.stack = inside.machine.stack →
      (leave t).Home first ∧ (leave t).machine.stack = s.machine.stack) :
    outer.Homing first s c := by
  have after := after_of_bracket is
  obtain ⟨home, stack⟩ := leaves _ homing.after homing.stack
  exact ⟨after ▸ home, after ▸ stack, homing.moments⟩

theorem Homing.of_after {β : Type} {action : Action α} {action' : Action β}
    (homing : action'.Homing first s c) (same : action.after s = action'.after s) :
    action.Homing first s c := ⟨same ▸ homing.after, same ▸ homing.stack, homing.moments⟩

/-- Two actions in a row stay at home, whatever is told of the first one. -/
theorem homing_bind {β : Type} {action : Action α} {next : α → Action β}
    {rest : α → Session → Chronicle} (reached : (action.after s).Home first)
    (stack : (action.after s).machine.stack = s.machine.stack)
    (second : ∀ a t, action s = .ok a t → StaysHome first t (next a) (rest a t)) :
    ((action >>= next).after s).Home first ∧
      ((action >>= next).after s).machine.stack = s.machine.stack ∧
        ∀ a t, action s = .ok a t → ∀ moment ∈ rest a t, moment.session.Home first := by
  have homing (a : α) (t : Session) (ends : action s = .ok a t) :
      (next a).Homing first t (rest a t) := second a t ends (after_of_ok ends ▸ reached)
  cases ends : action s with
  | ok a t =>
    rw [after_of_ok ends] at stack
    rw [after_bind_of_ok ends]
    refine ⟨(homing a t ends).after, (homing a t ends).stack.trans stack, ?_⟩
    rintro _ _ ⟨⟩
    exact (homing a t ends).moments
  | error stop t =>
    rw [after_of_error ends] at reached stack
    rw [after_bind_of_error ends]
    exact ⟨reached, stack, nofun⟩

theorem staysHome_step {β : Type} {action : Action α} {next : α → Action β}
    {rest : α → Session → Chronicle}
    (change : s.Home first →
      (action.after s).Home first ∧ (action.after s).machine.stack = s.machine.stack)
    (second : ∀ a t, action s = .ok a t → StaysHome first t (next a) (rest a t)) :
    StaysHome first s (action >>= next) (Chronicle.step action rest s) := by
  intro home
  obtain ⟨reached, stack⟩ := change home
  obtain ⟨after, kept, further⟩ := homing_bind reached stack second
  exact ⟨after, kept,
    Chronicle.forall_mem_step (fun _ _ ends => after_of_error ends ▸ reached) further⟩

theorem staysHome_quietly {action : Action α} (change : s.Modest (action.after s)) :
    StaysHome first s action (Chronicle.quietly action s) := by
  have stays : StaysHome first s (action >>= pure) (Chronicle.quietly action s) :=
    staysHome_step (fun home => ⟨home.change change, congrArg Machine.stack change.machine⟩)
      fun a t _ home => ⟨home, rfl, List.forall_mem_nil _⟩
  rwa [bind_pure] at stays

theorem staysHome_seq {β : Type} {action : Action α} {next : α → Action β}
    {rest : α → Session → Chronicle} (stays : StaysHome first s action c)
    (second : ∀ a t, action s = .ok a t → StaysHome first t (next a) (rest a t)) :
    StaysHome first s (action >>= next) (c ++ Chronicle.next action rest s) := by
  intro home
  obtain ⟨middle, stack, moments⟩ := stays home
  obtain ⟨after, kept, further⟩ := homing_bind middle stack second
  exact ⟨after, kept, List.forall_mem_append.2 ⟨moments, Chronicle.forall_mem_next further⟩⟩

theorem StaysHome.note {action : Action α} (stays : StaysHome first s action c) (deed : Deed) :
    StaysHome first s action (⟨deed, s⟩ :: c) := fun home =>
  { stays home with moments := List.forall_mem_cons.2 ⟨home, (stays home).moments⟩ }

theorem staysHome_holding {x : Object} {action : Action α} {inner : Session → Chronicle}
    (stays : StaysHome first { s with held := x :: s.held } action
      (inner { s with held := x :: s.held })) :
    StaysHome first s (holding x action) (Chronicle.keeping x inner s) := fun home =>
  (stays (home.congr rfl rfl rfl rfl)).of_bracket rfl fun _ home stack =>
    ⟨home.congr rfl rfl rfl rfl, stack⟩

theorem staysHome_withFrame {frame : Frame} {action : Action α} {inner : Session → Chronicle}
    (own : s.Calls frame) (stays : ∀ t, StaysHome first t action (inner t)) :
    StaysHome first s (withFrame frame action)
      (Chronicle.inFrame true frame action inner s) := by
  intro home
  cases pushed : s.machine.stack.push frame with
  | error cause =>
    have failing : (fail cause : Action α).Homing first s (Chronicle.failing cause s) :=
      ⟨home, rfl, List.forall_mem_singleton.2 home⟩
    simp only [Chronicle.inFrame, Chronicle.step, pushFrame, pushed]
    exact failing.of_after (by simp only [Action.after, withFrame, enterFrame_of_full pushed])
  | ok stack =>
    have entered : (s.withStack stack).Home first := by
      refine home.withStack ?_
      rw [CallStack.eq_of_push pushed]
      exact List.forall_mem_cons.2 ⟨home.calls own, home.frames⟩
    have inside := stays _ entered
    have traced : (tracing action).Homing first (s.withStack stack) _ :=
      inside.of_after (after_tracing action)
    have homing : (withFrame frame action).Homing first s _ :=
      traced.of_bracket (enterFrame_of_push pushed _) fun t home same =>
        ⟨home.withStack fun frame place => home.frames frame (List.mem_of_mem_tail place),
          (congrArg CallStack.pop same).trans (CallStack.pop_of_push pushed)⟩
    simp only [Chronicle.inFrame, Chronicle.step, pushFrame, pushed]
    refine { homing with moments := List.forall_mem_cons.2 ⟨entered, ?_⟩ }
    exact List.forall_mem_append.2 ⟨homing.moments, List.forall_mem_singleton.2 inside.after⟩

/-- What is put in front of the current chain does not become its end, and is what is taken away
again, since the stack is then as it was put. -/
theorem staysHome_shadowing (x : ScopeId) {action : Action α} {inner : Session → Chronicle}
    (stays : ∀ t, StaysHome first t action (inner t)) :
    StaysHome first s (shadowing x action) (Chronicle.shadowed x inner s) := by
  intro home
  have inside : (s.mapFrame (·.pushInner x)).Home first := by
    refine home.withStack ?_
    unfold CallStack.mapCurrent
    split
    · exact home.frames
    · next frame rest is =>
      have known := is ▸ home.frames
      obtain ⟨here, further⟩ := List.forall_mem_cons.1 known
      refine List.forall_mem_cons.2 ⟨?_, further⟩
      have front : (frame.pushInner x).chain.getLast? = some (frame.chain.getLast?.getD x) :=
        List.getLast?_cons
      rw [front, here]
      rfl
  refine (stays _ inside).of_bracket rfl fun t ended same => ?_
  have back : (t.mapFrame Frame.popInner).machine.stack = s.machine.stack := by
    have undone := congrArg (·.machine.stack) (mapFrame_popInner_pushInner s x)
    simp only [Session.mapFrame] at undone same ⊢
    rw [same, undone]
  have frames : ∀ frame ∈ (t.mapFrame Frame.popInner).machine.stack.frames,
      frame.chain.getLast? = some first.machine.globals := back ▸ home.frames
  exact ⟨ended.withStack frames, back⟩

theorem Homing.caught {action : Action α} {rest : Failure → Session → Chronicle}
    (homing : action.Homing first s c)
    (further : ∀ failure t, t.Home first → ∀ moment ∈ rest failure t, moment.session.Home first) :
    action.Homing first s (c ++ Chronicle.caught action rest s) := by
  refine { homing with moments := List.forall_mem_append.2 ⟨homing.moments, ?_⟩ }
  refine Chronicle.forall_mem_caught fun failure t ends => ?_
  have reached : t.Home first := after_of_error ends ▸ homing.after
  exact ⟨reached, further failure t reached⟩

theorem staysHome_attempt {action : Action α} (stays : StaysHome first s action c) :
    StaysHome first s (attempt action) (c ++ Chronicle.caught action (fun _ _ => []) s) := by
  intro home
  exact ((stays home).caught fun _ _ _ => List.forall_mem_nil _).of_after (after_attempt action s)

theorem staysHome_annotate {action : Action Object} (note : String)
    (stays : StaysHome first s action c) :
    StaysHome first s (mapFailure (·.withNote note) action) (c ++ Chronicle.caught action
      (fun failure t => [⟨.raise (failure.withNote note), t⟩]) s) := by
  intro home
  exact ((stays home).caught fun _ _ here => List.forall_mem_singleton.2 here).of_after
    (after_mapFailure _ action s)

theorem staysHome_counted {b : BindingId} {args : List Value} {next : Unit → Action α}
    {rest : Unit → Session → Chronicle}
    (stays : ∀ t, t.heap = s.heap → StaysHome first t (next ()) (rest () t)) :
    StaysHome first s
      (holding (.value (.binding b)) (countCall (s.heap.binding b).strategy.kind >>= next))
      (⟨.call b args, s⟩ :: Chronicle.keeping (.value (.binding b))
        (Chronicle.step (countCall (s.heap.binding b).strategy.kind) rest) s) := by
  refine (staysHome_holding (staysHome_step (fun home => ?_) fun _ t ends => ?_)).note _
  · rw [after_countCall]
    exact ⟨home.congr rfl rfl rfl rfl, rfl⟩
  · have same := heap_of_countCall ends
    exact stays t same

end Action

open Delegation.Action in
/-- Staying at home is a judgement on homebound scripts with the rules of a logic. -/
theorem logic_staysHome :
    Logic false Session.Modest fun {_} _ s action c => StaysHome first s action c where
  congr {_ _ s _ _ _} holds same home :=
    (holds home).of_after (by simp only [Action.after, same s (.refl s)])
  code holds home := holds (fun body place => .inr (home.code body place)) home
  script s body allowed := {
    machine := rfl
    code := fun other place => by
      rcases Array.mem_push.1 place with old | rfl
      · exact .inl old
      · exact .inr (allowed.resolve_left Bool.false_ne_true)
    captured := fun b _ is => .inr ⟨b, is⟩
    constants := fun _ _ _ found => found }
  result _ s _ home := ⟨home, rfl, List.forall_mem_nil _⟩
  step quiet second :=
    staysHome_step (fun home => ⟨home.change quiet.change,
      congrArg Machine.stack quiet.change.machine⟩) second
  seq := staysHome_seq
  note holds _ := holds.note _
  ask {s q xs c} holds := by
    have asked : StaysHome first s (do q.answer (← get) xs : Action Object) c :=
      fun home => (holds home).of_after rfl
    exact asked.note _
  serve _ holds := holds.note _
  hold := staysHome_holding
  frame own := staysHome_withFrame (own.resolve_left Bool.false_ne_true)
  enter free := absurd free Bool.false_ne_true
  shadow x := staysHome_shadowing x
  switch _ free := absurd free Bool.false_ne_true
  rescue := staysHome_attempt
  annotate := staysHome_annotate
  call := staysHome_counted
  build s config registry home :=
    ⟨home.congr rfl rfl rfl rfl, rfl, List.forall_mem_singleton.2 home⟩
  install free := absurd free Bool.false_ne_true
  handle s command xs allowed := by
    cases command with
    | stack =>
      have made (limit : Option Nat) : Quiet Session.Modest (newStack { limit }) :=
        fun s => .of_change rfl (.of_same rfl rfl rfl) fun _ => rfl
      have quiet : Quiet Session.Modest (StackCommand.stack.act xs) :=
        quiet_lift_bind fun limit => (made limit).map _
      exact (staysHome_quietly (quiet s).change).note _
    | push | pop | pushInner | popInner | suspend | resume =>
      exact absurd (allowed.resolve_left Bool.false_ne_true) Bool.false_ne_true

/-! ## Registered names -/

/-- Whether a search through the chain comes by a scope that declares the name before it comes to the
globals. -/
def Heap.Shadows (heap : Heap) (chain : Chain) (globals : ScopeId) (name : String) : Prop :=
  ∃ x ∈ chain, ∃ y ∈ (heap.path x).takeWhile (· ≠ globals), (heap.scope y).declares name = true

instance (heap : Heap) (chain : Chain) (globals : ScopeId) (name : String) :
    Decidable (heap.Shadows chain globals name) :=
  inferInstanceAs (Decidable (∃ x ∈ chain, ∃ y ∈ (heap.path x).takeWhile (· ≠ globals), _))

section Names

variable {heap : Heap} {chain : Chain} {globals : ScopeId} {name : String} {cell : Cell}
  (registered : (heap.scope globals).cell? name = some cell)

include registered

theorem Heap.found_of_unshadowed {found : ScopeId × Cell} (path : List ScopeId)
    (clear : ∀ y ∈ path.takeWhile (· ≠ globals), (heap.scope y).declares name = false)
    (leads : path.findSome? (fun t => ((heap.scope t).cell? name).map (t, ·)) = some found) :
    found = (globals, cell) := by
  induction path with
  | nil => cases leads
  | cons y rest ih =>
    by_cases last : y = globals
    · subst last
      rw [List.findSome?_cons, registered] at leads
      exact (Option.some.inj leads).symm
    · rw [List.takeWhile_cons_of_pos (by simpa using last), List.forall_mem_cons] at clear
      have absent : (heap.scope y).cell? name = none := by
        simpa [Scope.declares] using clear.1
      rw [List.findSome?_cons, absent] at leads
      exact ih clear.2 leads

theorem Heap.exists_resolveIn (ends : chain.getLast? = some globals) :
    ∃ found, heap.resolveIn chain name = some found := by
  have contains : heap.contains globals name = true := by
    rw [Heap.contains_eq_isSome_resolve, Heap.resolve_of_cell? registered]
    rfl
  cases is : heap.findScope chain name with
  | none =>
    have absent := List.find?_eq_none.1 is globals (List.mem_of_getLast? ends)
    exact absurd contains absent
  | some x =>
    have known : heap.contains x name = true := List.find?_some (p := (heap.contains · name)) is
    rw [Heap.contains_eq_isSome_resolve] at known
    obtain ⟨found, leads⟩ := Option.isSome_iff_exists.1 known
    exact ⟨found, by rw [Heap.resolveIn, is]; exact leads⟩

theorem Heap.resolveIn_of_unshadowed (ends : chain.getLast? = some globals)
    (clear : ¬heap.Shadows chain globals name) :
    heap.resolveIn chain name = some (globals, cell) := by
  obtain ⟨found, leads⟩ := Heap.exists_resolveIn registered ends
  obtain ⟨x, first, there⟩ := Heap.resolveIn_eq_some leads
  rw [leads, Heap.found_of_unshadowed registered (heap.path x) (fun y place => ?_) there]
  rw [Bool.eq_false_iff]
  exact fun declares => clear ⟨x, List.mem_of_find?_eq_some first, y, place, declares⟩

end Names

/-! ## Programs -/

theorem Session.Home.environment (home : s.Home first) {chain : Chain}
    (environment : s.Environment chain) : chain.getLast? = some first.machine.globals := by
  cases environment with
  | current =>
    have is : s.machine.currentChain = s.machine.currentFrame.chain := by
      unfold Machine.currentChain Machine.currentFrame
      cases s.machine.stack.current <;> rfl
    rw [is]
    exact home.currentFrame
  | live place => exact home.frames _ place
  | captured is => exact home.captured _ _ is

/-- The sessions that a run of steps comes through: those of its chronicle, and the last one. -/
def Program.Visits (steps : List Expr) (s t : Session) : Prop :=
  (∃ moment ∈ chronicle steps s, moment.session = t) ∨ t = (runSteps steps).after s

theorem Program.visits_getD {steps : List Expr} {n : Nat} (moment : Moment)
    (place : n < (chronicle steps s).length) :
    Visits steps s ((chronicle steps s).getD n moment).session := by
  refine .inl ⟨_, ?_, rfl⟩
  rw [List.getD_eq_getElem?_getD, List.getElem?_eq_getElem place]
  exact List.getElem_mem place

namespace Session

/-- Globals close every chain. Wherever homebound steps have got to that began outside any call, the
machine has the globals it had, every chain in which code looks for names ends in them, and a name
that was registered there is found: with the value it was registered with, unless it is declared
further in. -/
theorem globals_close_chains {s t : Session} {steps : List Expr}
    (outside : s.machine.stack.frames = [])
    (captured : ∀ b frame, (s.heap.binding b).strategy = .closure frame →
      frame.chain.getLast? = some s.machine.globals)
    (brought : ∀ body ∈ s.code, Expr.homeboundAll body = true)
    (homebound : Expr.homeboundAll steps = true) (visits : Program.Visits steps s t) :
    t.machine.globals = s.machine.globals ∧ ∀ chain, t.Environment chain →
      chain.getLast? = some s.machine.globals ∧
        ∀ name v, (s.heap.scope s.machine.globals).cell? name = some (.constant v) →
          (∃ found, t.heap.resolveIn chain name = some found) ∧
            (¬t.heap.Shadows chain s.machine.globals name →
              ∀ run, Chain.get run chain name t = .ok v t) := by
  have begins : s.Home s := ⟨rfl, by simp [outside], captured, brought, fun _ _ found => found⟩
  have stays : Action.StaysHome s s (Program.runSteps steps) (Program.chronicle steps s) :=
    logic_staysHome.holds_runSteps (.inr homebound)
  have homing := stays begins
  have home : t.Home s := by
    rcases visits with ⟨moment, place, rfl⟩ | rfl
    · exact homing.moments moment place
    · exact homing.after
  refine ⟨home.globals, fun chain environment => ?_⟩
  have ends := home.environment environment
  refine ⟨ends, fun name v registered => ?_⟩
  have kept := home.constants name v registered
  exact ⟨Heap.exists_resolveIn kept ends, fun clear run =>
    Chain.get_of_constant (Heap.resolveIn_of_unshadowed kept ends clear) run⟩

/-- A function makes a closure, which another function calls. The body of the closure sees behind its
own scope the parameter of the one that made it, and then the globals: the parameter has the name of
one type, and hides it, while the parameter of the caller, which has the name of another, hides
nothing. -/
theorem globals_close_chains_of_closure :
    let function (name param : String) (body : Expr) : Expr :=
      .bind name (.apply (.command (.call .function)) [.callable name [param] [body], .void])
    let call (xs : List Expr) : Expr := .apply (.command (.call .callBinding)) xs
    let closure : Expr := .apply (.command (.call .closure)) [.nullary "k" []]
    let steps := [function "f" "Type" (.bind "k" closure), call [.var "f", .int 1],
      function "g" "Object" (call [.var "k"]), call [.var "g", .int 2]]
    let s := Program.ready { bootstrap := true }
    let inside := (Program.chronicle steps s).getD 18 ⟨.rescue, s⟩
    let t := inside.session
    t.machine.stack.frames.map (·.name) = ["f", "g"] ∧
      (t.machine.currentChain.length = 3 ∧
        t.machine.currentChain.getLast? = some s.machine.globals) ∧
      (∀ run, lookup run "Object" t = .ok (.entity ⟨1⟩) t) ∧
      t.heap.Shadows t.machine.currentChain s.machine.globals "Type" := by
  intro function call closure steps s inside t
  have place : 18 < (Program.chronicle steps s).length := by decide +kernel
  have visits : Program.Visits steps s t := Program.visits_getD _ place
  have captured : s.heap.bindings = #[] := by decide +kernel
  have brought : s.code = #[] := by decide +kernel
  obtain ⟨_, closed⟩ := globals_close_chains (s := s) (by decide +kernel)
    (by simp [Heap.binding, captured]) (by simp [brought]) (by decide +kernel) visits
  obtain ⟨ends, names⟩ := closed _ .current
  have registered : (s.heap.scope s.machine.globals).cell? "Object" =
      some (.constant (.entity ⟨1⟩)) := by decide +kernel
  have clear : ¬t.heap.Shadows t.machine.currentChain s.machine.globals "Object" := by
    decide +kernel
  have reads := (names "Object" _ registered).2 clear
  have frames : t.machine.stack.frames.map (·.name) = ["f", "g"] := by decide +kernel
  have length : t.machine.currentChain.length = 3 := by decide +kernel
  have hidden : t.heap.Shadows t.machine.currentChain s.machine.globals "Type" := by
    decide +kernel
  refine ⟨frames, ⟨length, ends⟩, fun run => ?_, hidden⟩
  rw [lookup_eq]
  exact reads run

end Session

end Delegation
