import Delegation.Proofs.Closures
import Delegation.Proofs.Course.Machines

/-!
# What machines count

Of all that happens in the course of a run, two deeds matter to what a machine counts: a call of a
binding on it, which adds to the counts before anything else is looked at, and the deed by which it
is replaced by a new machine. A meter is an account of a chronicle that changes at these moments
only, along with what it has to do with the machine. If the machine agrees with its meter at the
start, it does at every moment and in the end.
-/

namespace Delegation

variable {s t u : Session} {m : MachineId} {c : Chronicle} {b : BindingId} {args : List Value}

namespace Moment

/-- Whether a binding is called on a machine. -/
def attempts (m : MachineId) (moment : Moment) : Bool :=
  match moment.deed with
  | .call _ _ => moment.session.running = m
  | _ => false

/-- Whether a machine is replaced by a new one. -/
def replaces (m : MachineId) (moment : Moment) : Bool :=
  match moment.deed with
  | .install _ => moment.session.running = m
  | _ => false

end Moment

/-- A machine is there, and something is read off it. -/
structure Session.Shows (m : MachineId) (reads : Machine → Prop) (s : Session) : Prop where
  present : m.index < s.machines.size
  shown : reads (s.machineAt m)

/-- An account that changes only where a machine is called on or replaced, and what can be read off
the machine by it, as long as no moment comes that is not allowed. -/
structure Meter {σ : Type} (m : MachineId) (advance : σ → Moment → σ) (allowed : Moment → Prop)
    (reads : σ → Machine → Prop) : Prop where
  idle (a : σ) {moment : Moment} (attempts : moment.attempts m = false)
    (replaces : moment.replaces m = false) : advance a moment = a
  stack {a : σ} {machine : Machine} (stack : CallStack) (shown : reads a machine) :
    reads a { machine with stack }
  call {a : σ} {u : Session} (b : BindingId) (args : List Value) (here : u.running = m)
    (shown : reads a u.machine) :
    reads (advance a ⟨.call b args, u⟩) (u.machine.countCall (u.heap.binding b).strategy.kind)
  install {a : σ} {u : Session} {config : Config} (registry : Registry) (here : u.running = m)
    (fair : allowed ⟨.install config, u⟩) (shown : reads a u.machine) :
    reads (advance a ⟨.install config, u⟩) (.fresh config registry)

/-- In every moment of a chronicle, and in the session that it ends in, a machine agrees with an
account of the moments so far. -/
structure Chronicle.Tracks {σ : Type} (m : MachineId) (advance : σ → Moment → σ)
    (reads : σ → Machine → Prop) (a : σ) (c : Chronicle) (t : Session) : Prop where
  moments : c.Accords advance (fun a moment => moment.session.Shows m (reads a)) a
  ends : t.Shows m (reads (c.foldl advance a))

theorem Chronicle.Tracks.append {σ : Type} {advance : σ → Moment → σ} {reads : σ → Machine → Prop}
    {a : σ} {d : Chronicle} (earlier : c.Tracks m advance reads a t)
    (later : d.Tracks m advance reads (c.foldl advance a) u) :
    Chronicle.Tracks m advance reads a (c ++ d) u where
  moments := Chronicle.accords_append.2 ⟨earlier.moments, later.moments⟩
  ends := by
    rw [List.foldl_append]
    exact later.ends

namespace Session.Shows

variable {reads : Machine → Prop}

theorem congr (here : s.Shows m reads) (present : s.machines.size ≤ t.machines.size)
    (same : t.machineAt m = s.machineAt m) : t.Shows m reads where
  present := Nat.lt_of_lt_of_le here.present present
  shown := same ▸ here.shown

theorem still (here : s.Shows m reads) (same : s.Still t) : t.Shows m reads :=
  here.congr (Nat.le_of_eq (congrArg Array.size same.machines.symm)) (same.machineAt m)

theorem switch (here : s.Shows m reads) (other : MachineId) : (s.switch other).Shows m reads :=
  here.congr (Nat.le_of_eq (s.size_switch other).symm) (machineAt_switch here.present other)

end Session.Shows

namespace Meter

variable {σ : Type} {a : σ} {advance : σ → Moment → σ} {allowed : Moment → Prop}
  {reads : σ → Machine → Prop} (meter : Meter m advance allowed reads)
include meter

theorem restack (here : s.Shows m (reads a)) (stack : CallStack)
    (sharedStacks : Array CallStack) :
    Session.Shows m (reads a) { s with machine := { s.machine with stack }, sharedStacks } where
  present := here.present
  shown := by
    rw [Session.machineAt_restack]
    exact meter.stack _ here.shown

theorem counted (here : s.Shows m (reads a)) (b : BindingId) (args : List Value)
    (held : List Object) : Session.Shows m (reads (advance a ⟨.call b args, s⟩))
      { s with held, machine := s.machine.countCall (s.heap.binding b).strategy.kind } := by
  refine ⟨here.present, ?_⟩
  by_cases runs : s.running = m
  · subst runs
    have shown := here.shown
    rw [Session.machineAt_running] at shown
    rw [Session.machineAt, if_pos rfl]
    exact meter.call b args rfl shown
  · rw [meter.idle a (by simpa [Moment.attempts] using runs) rfl]
    exact (Session.machineAt_of_ne (Ne.symm runs) _).symm ▸ here.shown

theorem installed (here : s.Shows m (reads a)) {config : Config} (registry : Registry)
    (fair : allowed ⟨.install config, s⟩) : Session.Shows m
      (reads (advance a ⟨.install config, s⟩)) { s with machine := .fresh config registry } := by
  refine ⟨here.present, ?_⟩
  by_cases runs : s.running = m
  · subst runs
    have shown := here.shown
    rw [Session.machineAt_running] at shown
    rw [Session.machineAt, if_pos rfl]
    exact meter.install registry rfl fair shown
  · rw [meter.idle a rfl (by simpa [Moment.replaces] using runs)]
    exact (Session.machineAt_of_ne (Ne.symm runs) _).symm ▸ here.shown

theorem cons (first : Moment) (attempts : first.attempts m = false)
    (replaces : first.replaces m = false) (here : first.session.Shows m (reads a))
    (later : c.Tracks m advance reads a t) :
    Chronicle.Tracks m advance reads a (first :: c) t := by
  have idle := meter.idle a attempts replaces
  refine ⟨⟨here, idle.symm ▸ later.moments⟩, ?_⟩
  rw [List.foldl_cons, idle]
  exact later.ends

theorem concat {last : Moment} (attempts : last.attempts m = false)
    (replaces : last.replaces m = false) (earlier : c.Tracks m advance reads a last.session) :
    Chronicle.Tracks m advance reads a (c ++ [last]) last.session :=
  earlier.append (meter.cons _ attempts replaces earlier.ends ⟨trivial, earlier.ends⟩)

/-- In every moment of a run the machine agrees with its meter. -/
theorem tracks {due : Bool} {ending : Ending} (course : Course due s c ending t)
    (fair : ∀ moment ∈ c, allowed moment) (here : s.Shows m (reads a)) :
    c.Tracks m advance reads a t := by
  induction course generalizing a with
  | still same => exact ⟨trivial, here.still same⟩
  | gone => exact ⟨trivial, here⟩
  | raise | refuse => exact meter.cons _ rfl rfl here ⟨trivial, here⟩
  | note _ idle =>
    refine meter.cons _ ?_ ?_ here ⟨trivial, here⟩ <;> rename_i deed <;>
      cases deed <;> first | rfl | cases idle
  | onwards same _ inner => exact inner fair (here.still same)
  | seq _ _ first second =>
    rw [List.forall_mem_append] at fair
    have earlier := first fair.1 here
    exact earlier.append (second fair.2 earlier.ends)
  | rescue _ inner => exact meter.concat rfl rfl (inner (List.forall_mem_append.1 fair).1 here)
  | handle acts =>
    obtain ⟨stack, sharedStacks, rfl⟩ := (StackCommand.does_of_ok acts).restacks
    exact meter.cons _ rfl rfl here ⟨trivial, meter.restack here stack sharedStacks⟩
  | build =>
    exact meter.cons _ rfl rfl here
      ⟨trivial, here.congr (by simp) (Session.machineAt_push here.present _)⟩
  | install s config registry =>
    exact ⟨⟨here, trivial⟩, meter.installed here registry (fair _ List.mem_cons_self)⟩
  | @call _ s t b args c ending _ _ inner =>
    have later := inner (List.forall_mem_cons.1 fair).2 (meter.counted here b args _)
    exact ⟨⟨here, later.moments⟩, later.ends.congr (Nat.le_refl _) rfl⟩
  | @overBudget _ s b args cause beyond =>
    have counted := meter.counted here b args
    have refused := meter.cons (c := []) ⟨.raise (.ofCause cause), _⟩ rfl rfl
      (counted (.value (.binding b) :: s.held)) ⟨trivial, counted s.held⟩
    exact ⟨⟨here, refused.moments⟩, refused.ends⟩
  | serve _ inner => exact meter.cons _ rfl rfl here (inner (List.forall_mem_cons.1 fair).2 here)
  | holding _ inner =>
    have later := inner fair (here.congr (Nat.le_refl _) rfl)
    exact ⟨later.moments, later.ends.congr (Nat.le_refl _) rfl⟩
  | @frame _ s t traced frame stack c ending pushed _ inner =>
    rw [List.cons_append, List.forall_mem_cons, List.forall_mem_append] at fair
    have entered := meter.restack here stack s.sharedStacks
    have left : Moment.attempts m ⟨.leaveFrame, t⟩ = false := rfl
    have framed := meter.cons ⟨.enterFrame traced frame, s.withStack stack⟩ rfl rfl
      entered (meter.concat left rfl (inner fair.2.1 entered))
    exact ⟨framed.moments, meter.restack framed.ends _ _⟩
  | @shadow _ s t x c ending _ inner =>
    have later := inner fair (meter.restack here _ s.sharedStacks)
    exact ⟨later.moments, meter.restack later.ends _ t.sharedStacks⟩
  | @switch _ s t other c ending _ inner =>
    have later := inner (List.forall_mem_cons.1 fair).2 (here.switch other)
    exact meter.cons _ rfl rfl here ⟨later.moments, later.ends.switch s.running⟩

end Meter

end Delegation
