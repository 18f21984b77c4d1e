import Mathlib.Data.List.Induction
import Delegation.Proofs.Course.Machines

/-!
# Failures that surface

A failure passes through everything on its way out until it is caught. Frames that it leaves are
popped, and the innermost frame of all that were active where it arose gives it the trace of the
stack, which no frame further out changes; beyond that a failure comes out as it arose, and no
failure is lost.

The way out shows in the chronicle: once a failure has arisen nothing happens but that frames are
left, until it is caught or nothing is left to leave. So an account can be kept of the frames that
are active and of the failure that is afloat.
-/

namespace Delegation

variable {s t u : Session} {c d : Chronicle} {m : MachineId} {due : Bool} {ending : Ending}
  {failure : Failure}

/-! ## Failures afloat -/

/-- The failure as it comes out of the frames that are active: with the trace of the stack in the
innermost of them, unless it had one before. -/
def Heap.unwound (heap : Heap) (failure : Failure) : List Session → Failure
  | [] => failure
  | inside :: _ =>
      if failure.trace.isSome then failure
      else failure.withTrace (heap.trace inside.machine.stack)

/-- What frames are active, innermost first, each as the session in which it was entered; and which
failure is on its way out, if one is, with the heap as it has been since the failure arose. -/
structure Flight where
  active : List Session
  afloat : Option (Heap × Failure)

namespace Moment

/-- What becomes of active frames and a failure afloat. -/
def flight (a : Flight) (moment : Moment) : Flight :=
  match moment.deed with
  | .enterFrame _ _ => { a with active := moment.session :: a.active }
  | .leaveFrame =>
      ⟨a.active.tail, a.afloat.map fun (heap, failure) => (heap, heap.unwound failure a.active)⟩
  | .raise failure => { a with afloat := some (moment.session.heap, failure) }
  | .rescue => { a with afloat := none }
  | _ => a

/-- While a failure is afloat nothing happens but that frames are left and that the failure is
caught. -/
def Clear (a : Flight) (moment : Moment) : Prop :=
  ∀ afloat ∈ a.afloat,
    (moment.deed = .leaveFrame ∨ moment.deed = .rescue) ∧ moment.session.heap = afloat.1

theorem clear_of_none (active : List Session) (moment : Moment) : moment.Clear ⟨active, none⟩ :=
  nofun

/-- Whether a moment is free of what replaces stacks or changes them by hand, and of frames that
give no trace. Machines that take over are there. -/
def plain (moment : Moment) : Bool :=
  match moment.deed with
  | .operation operation _ => !operation.handlesStacks
  | .enterFrame traced _ => traced
  | .withMachine k => k.index < moment.session.machines.size
  | .install _ => false
  | _ => true

end Moment

namespace Chronicle

/-- The sessions in which the frames have been entered that are active after a chronicle, innermost
first. -/
def active (c : Chronicle) : List Session := (c.foldl Moment.flight ⟨[], none⟩).active

/-- Whether what follows a failure catches it. Frames may be left before. -/
def rescued : Chronicle → Bool
  | [] => false
  | moment :: rest =>
      match moment.deed with
      | .leaveFrame => rescued rest
      | .rescue => true
      | _ => false

/-- Nothing happens but that frames are left. -/
def Leaves (c : Chronicle) : Prop := ∀ moment ∈ c, moment.deed = .leaveFrame

end Chronicle

/-- The failure that is afloat in the end. -/
def Ending.afloat (heap : Heap) : Ending → Option (Heap × Failure)
  | .failed failure => some (heap, failure)
  | _ => none

/-! ## Balance -/

theorem Course.balanced (course : Course due s c ending t)
    (plain : ∀ moment ∈ c, moment.plain = true) : Balanced s t := by
  induction course with
  | still same => exact .of_same same.running same.machines (congrArg Machine.stack same.machine)
  | gone | raise | note | refuse => exact .refl _
  | onwards same _ inner =>
    exact (Balanced.of_same same.running same.machines (congrArg Machine.stack same.machine)).trans
      (inner plain)
  | seq _ _ first second =>
    rw [List.forall_mem_append] at plain
    exact (first plain.1).trans (second plain.2)
  | rescue _ inner => exact inner (List.forall_mem_append.1 plain).1
  | @handle _ s t command xs x acts =>
    cases command with
    | stack =>
      obtain ⟨limit, _, gives⟩ := StackCommand.ok_of_lift_bind acts
      cases gives
      exact .of_same rfl rfl rfl
    | push | pop | pushInner | popInner | suspend | resume => cases plain _ List.mem_cons_self
  | build => exact .newMachine _ _
  | install => cases plain _ List.mem_cons_self
  | @call _ s t b args c ending _ _ inner =>
    have counted : Balanced s
        { s with machine := s.machine.countCall (s.heap.binding b).strategy.kind } :=
      .of_same rfl rfl rfl
    have after := inner (List.forall_mem_cons.1 plain).2
    exact counted.trans ⟨after.running, after.machines, after.kept⟩
  | overBudget => exact .of_same rfl rfl rfl
  | serve _ inner => exact inner (List.forall_mem_cons.1 plain).2
  | holding _ inner =>
    have after := inner plain
    exact ⟨after.running, after.machines, after.kept⟩
  | frame pushed _ inner =>
    rw [List.cons_append, List.forall_mem_cons, List.forall_mem_append] at plain
    exact (inner plain.2.1).frame pushed
  | shadow _ inner => exact (inner plain).shadow
  | switch _ inner => exact (inner (List.forall_mem_cons.1 plain).2).switch

/-! ## The way out -/

theorem Heap.attachTrace_eq_unwound {heap : Heap} {stack : CallStack}
    (framed : stack.frames ≠ []) {inside : Session} (same : inside.machine.stack = stack)
    (active : List Session) (failure : Failure) :
    heap.attachTrace stack failure = heap.unwound failure (inside :: active) := by
  have some : stack.frames.isEmpty = false := by simpa using framed
  rw [attachTrace, unwound, some, Bool.or_false, same]

theorem flight_of_idle {deed : Deed} (idle : deed.idle) (a : Flight) :
    Moment.flight a ⟨deed, s⟩ = a := by
  cases deed <;> first | rfl | cases idle

/-- In the course of a run frames are left in the order in which they were entered, and the failure
that is afloat in the end is the one that comes out. -/
theorem Course.flight (course : Course due s c ending t)
    (plain : ∀ moment ∈ c, moment.plain = true) (present : s.running.index < s.machines.size)
    (active : List Session) :
    c.Accords Moment.flight Moment.Clear ⟨active, none⟩ ∧
      c.foldl Moment.flight ⟨active, none⟩ = ⟨active, ending.afloat t.heap⟩ := by
  have clear := Moment.clear_of_none
  induction course generalizing active with
  | still | gone => exact ⟨trivial, rfl⟩
  | raise | handle | refuse | build => exact ⟨⟨clear _ _, trivial⟩, rfl⟩
  | note s idle =>
    refine ⟨⟨clear _ _, trivial⟩, ?_⟩
    rw [List.foldl_cons, flight_of_idle idle]
    rfl
  | onwards same _ inner =>
    exact inner plain (by rw [same.running, same.machines]; exact present) active
  | seq first _ ih ih' =>
    rw [List.forall_mem_append] at plain
    obtain ⟨accords, after⟩ := ih plain.1 present active
    have machines := first.machines
    obtain ⟨accords', after'⟩ := ih' plain.2
      (by rw [machines.1]; exact Nat.lt_of_lt_of_le present machines.2) active
    rw [List.foldl_append, after]
    refine ⟨Chronicle.accords_append.2 ⟨accords, ?_⟩, after'⟩
    rw [after]
    exact accords'
  | rescue _ inner =>
    obtain ⟨accords, after⟩ := inner (List.forall_mem_append.1 plain).1 present active
    rw [List.foldl_append, after]
    refine ⟨Chronicle.accords_append.2 ⟨accords, ?_⟩, rfl⟩
    rw [after]
    -- what is caught is what the course before failed with, in the heap in which it ended
    refine ⟨fun afloat known => ?_, trivial⟩
    cases known
    exact ⟨.inr rfl, rfl⟩
  | install => cases plain _ List.mem_cons_self
  | call _ _ inner =>
    obtain ⟨accords, after⟩ := inner (List.forall_mem_cons.1 plain).2 present active
    exact ⟨⟨clear _ _, accords⟩, after⟩
  | overBudget => exact ⟨⟨clear _ _, clear _ _, trivial⟩, rfl⟩
  | serve _ inner =>
    obtain ⟨accords, after⟩ := inner (List.forall_mem_cons.1 plain).2 present active
    exact ⟨⟨clear _ _, accords⟩, after⟩
  | holding _ inner | shadow _ inner => exact inner plain present active
  | @frame _ s t traced frame stack c ending pushed course inner =>
    rw [List.cons_append, List.forall_mem_cons, List.forall_mem_append] at plain
    obtain ⟨accords, after⟩ := inner plain.2.1 present (s.withStack stack :: active)
    obtain rfl : traced = true := plain.1
    -- the course is balanced, so the stack the trace is taken from is the one it began on
    have kept : t.machine.stack = stack := (course.balanced plain.2.1).stack_eq present
    have framed : t.machine.stack.frames ≠ [] := by simp [kept, CallStack.eq_of_push pushed]
    have entered : Moment.flight ⟨active, none⟩ ⟨.enterFrame true frame, s.withStack stack⟩ =
        ⟨s.withStack stack :: active, none⟩ := rfl
    rw [List.cons_append, List.foldl_cons, List.foldl_append, entered, after, if_pos rfl]
    refine ⟨⟨clear _ _, Chronicle.accords_append.2 ⟨accords, ?_⟩⟩, ?_⟩
    · rw [entered, after]
      refine ⟨fun afloat known => ⟨.inl rfl, ?_⟩, trivial⟩
      cases ending <;> cases known
      rfl
    · cases ending with
      | failed failure =>
        have same : (s.withStack stack).machine.stack = t.machine.stack := kept.symm
        rw [Ending.traced, Heap.attachTrace_eq_unwound framed same active]
        rfl
      | done | gone => rfl
  | @switch _ s t k c ending _ inner =>
    obtain ⟨there, plain⟩ := List.forall_mem_cons.1 plain
    have inside : (s.switch k).running.index < (s.switch k).machines.size := by
      rw [Session.running_switch, Session.size_switch]
      exact of_decide_eq_true there
    obtain ⟨accords, after⟩ := inner plain inside active
    rw [Session.heap_switch]
    exact ⟨⟨clear _ _, accords⟩, after⟩

/-! ## Failures that are not caught -/

theorem Heap.unwound_cons (heap : Heap) (failure : Failure) (inside : Session)
    (active : List Session) : heap.unwound failure (inside :: active) =
      if failure.trace.isSome then failure
      else failure.withTrace (heap.trace inside.machine.stack) := rfl

@[simp] theorem Heap.cause_unwound (heap : Heap) (failure : Failure) (active : List Session) :
    (heap.unwound failure active).cause = failure.cause := by
  cases active with
  | nil => rfl
  | cons => rw [unwound_cons]; split <;> rfl

@[simp] theorem Heap.notes_unwound (heap : Heap) (failure : Failure) (active : List Session) :
    (heap.unwound failure active).notes = failure.notes := by
  cases active with
  | nil => rfl
  | cons => rw [unwound_cons]; split <;> rfl

theorem Heap.unwound_of_isSome (heap : Heap) (traced : failure.trace.isSome = true)
    (active : List Session) : heap.unwound failure active = failure := by
  cases active with
  | nil => rfl
  | cons => exact if_pos traced

theorem Heap.trace_unwound (heap : Heap) (untraced : failure.trace = none)
    (active : List Session) : (heap.unwound failure active).trace =
      active.head?.map fun inside => heap.trace inside.machine.stack := by
  cases active with
  | nil => exact untraced
  | cons => simp [unwound, untraced, Failure.withTrace]

/-- The innermost frame decides, and frames further out change nothing. -/
theorem Heap.unwound_unwound (heap : Heap) (failure : Failure) (active : List Session) :
    heap.unwound (heap.unwound failure active) active.tail = heap.unwound failure active := by
  cases active with
  | nil => rfl
  | cons inside rest =>
    refine heap.unwound_of_isSome ?_ rest
    rw [unwound_cons]
    split
    · next traced => exact traced
    · rfl

/-- A failure that is not caught leaves the frames that are active, one after another. -/
theorem flight_of_uncaught {heap : Heap} {active : List Session}
    (accords : c.Accords Moment.flight Moment.Clear ⟨active, some (heap, failure)⟩)
    (uncaught : c.rescued = false) : ∃ surfaced,
      c.foldl Moment.flight ⟨active, some (heap, failure)⟩ =
          ⟨active.drop c.length, some (heap, surfaced)⟩ ∧
        (active.length ≤ c.length → surfaced = heap.unwound failure active) := by
  induction c generalizing active failure with
  | nil =>
    refine ⟨failure, rfl, fun none => ?_⟩
    rw [List.eq_nil_of_length_eq_zero (Nat.le_zero.1 none)]
    rfl
  | cons moment rest ih =>
    obtain ⟨clear, accords⟩ := accords
    obtain ⟨deed, u⟩ := moment
    rcases (clear _ rfl).1 with rfl | rfl
    · obtain ⟨surfaced, ends, is⟩ := ih accords uncaught
      refine ⟨surfaced, ?_, fun all => ?_⟩
      · rw [List.foldl_cons, List.length_cons, ← List.drop_tail]
        exact ends
      · rw [is (by rw [List.length_tail]; exact Nat.sub_le_of_le_add all), heap.unwound_unwound]
    · cases uncaught

theorem Chronicle.Leaves.rescued (leaves : c.Leaves) : c.rescued = false := by
  induction c with
  | nil => rfl
  | cons moment rest ih =>
    obtain ⟨first, rest⟩ := List.forall_mem_cons.1 leaves
    rw [Chronicle.rescued, first]
    exact ih rest

/-- What is afloat has arisen, and has only left frames since. -/
theorem exists_raise_of_afloat {active : List Session} {afloat : Heap × Failure}
    (accords : c.Accords Moment.flight Moment.Clear ⟨active, none⟩)
    (ends : (c.foldl Moment.flight ⟨active, none⟩).afloat = some afloat) :
    ∃ before failure u after, c = before ++ ⟨.raise failure, u⟩ :: after ∧
      Chronicle.Leaves after := by
  induction c using List.reverseRecOn generalizing afloat with
  | nil => cases ends
  | append_singleton c last ih =>
    obtain ⟨earlier, clear, _⟩ := Chronicle.accords_append.1 accords
    rw [List.foldl_append] at ends
    obtain ⟨deed, u⟩ := last
    cases deed with
    | raise failure => exact ⟨c, failure, u, [], rfl, List.forall_mem_nil _⟩
    | rescue => cases ends
    | leaveFrame =>
      obtain ⟨_, known, _⟩ := Option.map_eq_some_iff.1 ends
      obtain ⟨before, failure, v, after, rfl, leaves⟩ := ih earlier known
      refine ⟨before, failure, v, after ++ [⟨.leaveFrame, u⟩], by simp, ?_⟩
      exact List.forall_mem_append.2 ⟨leaves, List.forall_mem_singleton.2 rfl⟩
    | operation | enterFrame | withMachine | build | install | call | serve | body =>
      rcases (clear _ ends).1 with is | is <;> cases is

theorem Course.failures (course : Course due s c ending t)
    (plain : ∀ moment ∈ c, moment.plain = true) (present : s.running.index < s.machines.size) :
    (∀ before failure u after, c = before ++ ⟨.raise failure, u⟩ :: after →
      Chronicle.rescued after = false →
      ending = .failed (u.heap.unwound failure (Chronicle.active before))) ∧
    ∀ surfaced, ending = .failed surfaced → ∃ before failure u after,
      c = before ++ ⟨.raise failure, u⟩ :: after ∧ Chronicle.rescued after = false := by
  obtain ⟨accords, ends⟩ := course.flight plain present []
  refine ⟨fun before failure u after place uncaught => ?_, fun surfaced fails => ?_⟩
  · subst place
    obtain ⟨_, clear, accords⟩ := Chronicle.accords_append.1 accords
    rw [List.foldl_append, List.foldl_cons] at ends
    -- nothing is afloat where a failure arises
    have empty : (before.foldl Moment.flight ⟨[], none⟩).afloat = none := by
      rw [Option.eq_none_iff_forall_ne_some]
      intro afloat known
      rcases (clear afloat known).1 with is | is <;> cases is
    have raised : Moment.flight (before.foldl Moment.flight ⟨[], none⟩) ⟨.raise failure, u⟩ =
        ⟨Chronicle.active before, some (u.heap, failure)⟩ := rfl
    rw [raised] at accords ends
    obtain ⟨surfaced, left, is⟩ := flight_of_uncaught accords uncaught
    rw [left] at ends
    obtain ⟨all, afloat⟩ := Flight.mk.inj ends
    rw [← is (List.drop_eq_nil_iff.1 all)]
    cases ending with
    | failed failure =>
      obtain ⟨_, rfl⟩ := Prod.mk.inj (Option.some.inj afloat)
      rfl
    | done | gone => cases afloat
  · subst fails
    have afloat := congrArg Flight.afloat ends
    obtain ⟨before, failure, u, after, place, leaves⟩ := exists_raise_of_afloat accords afloat
    exact ⟨before, failure, u, after, place, leaves.rescued⟩

theorem Action.ending_eq_failed {α : Type} {action : Action α} :
    action.ending s = .failed failure ↔ ∃ t, action s = .error (.failure failure) t := by
  unfold Action.ending Ending.of
  cases action s with
  | ok => simp
  | error stop t => cases stop <;> simp [eq_comm]

/-- A failure that arises in the evaluation of an expression and is not caught comes out of it, with
the same cause and the same notes. A trace that it had is kept; otherwise it has the trace of the
whole stack in the innermost frame that was active where it arose, if any was. And what comes out
has arisen so. -/
theorem Expr.failures_surface (nesting : Nat) (e : Expr)
    (present : s.running.index < s.machines.size)
    (plain : ∀ moment ∈ e.chronicle nesting s, moment.plain = true) :
    (∀ before failure u after,
      e.chronicle nesting s = before ++ ⟨.raise failure, u⟩ :: after →
      Chronicle.rescued after = false →
      ∃ surfaced t, eval (runBody nesting) e s = .error (.failure surfaced) t ∧
        surfaced.cause = failure.cause ∧ surfaced.notes = failure.notes ∧
        (failure.trace.isSome = true → surfaced.trace = failure.trace) ∧
        (failure.trace = none → surfaced.trace =
          (Chronicle.active before).head?.map fun inside =>
            inside.machine.stack.frames.map fun frame =>
              ⟨frame.name, u.heap.display frame.owner⟩)) ∧
    ∀ surfaced t, eval (runBody nesting) e s = .error (.failure surfaced) t →
      ∃ before failure u after,
        e.chronicle nesting s = before ++ ⟨.raise failure, u⟩ :: after ∧
          Chronicle.rescued after = false := by
  obtain ⟨comeOut, arise⟩ := Course.failures (e.takes_chronicle nesting) plain present
  refine ⟨fun before failure u after place uncaught => ?_, fun surfaced t fails => ?_⟩
  · obtain ⟨t, fails⟩ := Action.ending_eq_failed.1 (comeOut before failure u after place uncaught)
    refine ⟨_, t, fails, Heap.cause_unwound _ _ _, Heap.notes_unwound _ _ _, fun traced => ?_,
      fun untraced => Heap.trace_unwound _ untraced _⟩
    rw [Heap.unwound_of_isSome _ traced]
  · exact arise surfaced (Action.ending_eq_failed.2 ⟨t, fails⟩)

/-- A name that is looked up in a frame with a scope in front of its chain, and is not found. -/
theorem failures_surface_of_missing_name :
    let e : Expr := .withFrame (.apply (.query (.machine .toplevelFrame)) [])
      [.withScope (.apply (.command (.table .scope)) [.str "identifier"])
        [.apply (.command (.call .lookup)) [.str "missing"]]]
    let s := Program.ready {}
    ∃ before failure u after surfaced t,
      e.chronicle 1 s = before ++ ⟨.raise failure, u⟩ :: after ∧
        eval (runBody 1) e s = .error (.failure surfaced) t ∧
        surfaced.cause = failure.cause ∧ surfaced.cause = .unknownSymbol "missing" ∧
        surfaced.trace = some [⟨"<toplevel>", "void"⟩] := by
  intro e s
  obtain ⟨comeOut, arise⟩ := Expr.failures_surface 1 e (s := s) (by decide +kernel)
    (by decide +kernel)
  have outcome : (eval (runBody 1) e).ending s =
      .failed ⟨.unknownSymbol "missing", some [⟨"<toplevel>", "void"⟩], []⟩ := by decide +kernel
  obtain ⟨t, fails⟩ := Action.ending_eq_failed.1 outcome
  obtain ⟨before, failure, u, after, place, uncaught⟩ := arise _ t fails
  obtain ⟨surfaced, v, is, cause, _⟩ := comeOut before failure u after place uncaught
  rw [fails] at is
  cases is
  exact ⟨before, failure, u, after, _, t, place, fails, cause, rfl, rfl⟩

end Delegation
