import Delegation.Proofs.Course.Meters

/-!
# The budget of calls

A machine counts the attempts to call a binding, wherever they come from and whatever becomes of
them: the only deed that changes the count is a call on that machine, and it adds one before
anything else is looked at. So in every moment of a run the count is the number of attempts so far,
and with a budget the attempts within it are let through and all others are refused. A refused
attempt does nothing but to be counted.
-/

namespace Delegation

variable {s t u : Session} {m : MachineId} {mode : Mode} {n k : Nat} {c : Chronicle}
  {b : BindingId} {args : List Value}

/-! ## Counting -/

namespace Moment

/-- The number of attempts on a machine, this moment included. -/
def count (m : MachineId) (k : Nat) (moment : Moment) : Nat :=
  if moment.attempts m then k + 1 else k

end Moment

/-- The number of attempts on a machine to call a binding. -/
def Chronicle.attempts (m : MachineId) (c : Chronicle) : Nat := c.countP (·.attempts m)

theorem Chronicle.count_add_attempts (m : MachineId) (k : Nat) (moment : Moment)
    (rest : Chronicle) :
    moment.count m k + rest.attempts m = k + Chronicle.attempts m (moment :: rest) := by
  rw [attempts, attempts, List.countP_cons, Moment.count]
  split <;> omega

theorem Chronicle.attempts_append (m : MachineId) (c d : Chronicle) :
    attempts m (c ++ d) = c.attempts m + d.attempts m := List.countP_append

theorem Chronicle.foldl_count (c : Chronicle) : c.foldl (Moment.count m) k = k + c.attempts m := by
  induction c generalizing k with
  | nil => rfl
  | cons moment rest ih => rw [List.foldl_cons, ih, count_add_attempts]

namespace Session

/-- A machine is in a mode and has counted a number of attempts. -/
structure Counts (m : MachineId) (mode : Mode) (k : Nat) (s : Session) : Prop where
  present : m.index < s.machines.size
  mode : (s.machineAt m).mode = mode
  calls : (s.machineAt m).calls = min k Machine.maxCalls

theorem counts_iff : s.Counts m mode k ↔
    s.Shows m fun machine => machine.mode = mode ∧ machine.calls = min k Machine.maxCalls :=
  ⟨fun counts => ⟨counts.present, counts.mode, counts.calls⟩,
    fun here => ⟨here.present, here.shown.1, here.shown.2⟩⟩

theorem meter_count (m : MachineId) (mode : Mode) :
    Meter m (Moment.count m) (fun moment => moment.replaces m = false)
      fun k machine => machine.mode = mode ∧ machine.calls = min k Machine.maxCalls where
  idle k moment attempts _ := if_neg (by simp [attempts])
  stack _ shown := shown
  call {k u} b args here shown := by
    have counted : Moment.count m k ⟨.call b args, u⟩ = k + 1 := if_pos (decide_eq_true here)
    obtain ⟨mode, calls⟩ := shown
    rw [counted]
    refine ⟨mode, ?_⟩
    show min (u.machine.calls + 1) Machine.maxCalls = _
    rw [calls]
    omega
  install _ here fair _ := absurd here (by simpa [Moment.replaces] using fair)

namespace Counts

theorem congr (counts : Counts m mode k s) (present : s.machines.size ≤ t.machines.size)
    (same : t.machineAt m = s.machineAt m) : Counts m mode k t :=
  counts_iff.2 ((counts_iff.1 counts).congr present same)

theorem still (counts : Counts m mode k s) (same : s.Still t) : Counts m mode k t :=
  counts_iff.2 ((counts_iff.1 counts).still same)

theorem restack (counts : Counts m mode k s) (stack : CallStack) (sharedStacks : Array CallStack) :
    Counts m mode k { s with machine := { s.machine with stack }, sharedStacks } :=
  counts_iff.2 ((meter_count m mode).restack (counts_iff.1 counts) stack sharedStacks)

theorem switch (counts : Counts m mode k s) (other : MachineId) :
    Counts m mode k (s.switch other) :=
  counts_iff.2 ((counts_iff.1 counts).switch other)

theorem call (counts : Counts m mode k s) (b : BindingId) (args : List Value) :
    Counts m mode (Moment.count m k ⟨.call b args, s⟩)
      { s with machine := s.machine.countCall (s.heap.binding b).strategy.kind } :=
  counts_iff.2 ((meter_count m mode).counted (counts_iff.1 counts) b args s.held)

end Counts

end Session

open Session

/-- In a moment a machine is in a mode and has counted a number of attempts. -/
def Moment.Counts (m : MachineId) (mode : Mode) (k : Nat) (moment : Moment) : Prop :=
  moment.session.Counts m mode k

/-- In every moment of a run the count is the number of attempts so far. -/
theorem Course.counts {due : Bool} {ending : Ending} (course : Course due s c ending t)
    (kept : ∀ moment ∈ c, moment.replaces m = false) (counts : s.Counts m mode k) :
    c.Accords (Moment.count m) (Moment.Counts m mode) k ∧
      t.Counts m mode (c.foldl (Moment.count m) k) := by
  have tracks := (meter_count m mode).tracks course kept (counts_iff.1 counts)
  exact ⟨tracks.moments.imp fun _ _ => counts_iff.2, counts_iff.2 tracks.ends⟩

/-! ## The gate -/

theorem BindingId.call_of_over {cause : Cause}
    (exceeded : (s.machine.countCall (s.heap.binding b).strategy.kind).overBudget? = some cause)
    (run : Runner) : b.call run args s = .error (.failure (.ofCause cause))
      { s with machine := s.machine.countCall (s.heap.binding b).strategy.kind } := by
  let held : Session := { s with held := .value (.binding b) :: s.held }
  have beyond : countCall (s.heap.binding b).strategy.kind held = _ := countCall_over exceeded
  simp only [BindingId.call, holding, bind, EStateM.bind, Action.get_eq_ok, held] at beyond ⊢
  rw [beyond]

namespace Session.Counts

theorem overBudget? (counts : Counts m (.bounded n) k s) (here : s.running = m)
    (small : k + 1 ≤ Machine.maxCalls) (kind : BindingKind) :
    (s.machine.countCall kind).overBudget? =
      if n < k + 1 then some (.budgetExceeded (k + 1) n) else none := by
  have mode := counts.mode
  have calls := counts.calls
  rw [← here, machineAt_running] at mode calls
  have counted : (s.machine.countCall kind).calls = k + 1 := by
    show min (s.machine.calls + 1) Machine.maxCalls = k + 1
    omega
  have budget : (s.machine.countCall kind).mode.callBudget = some n := by
    show s.machine.mode.callBudget = some n
    rw [mode]
    rfl
  rw [Machine.overBudget?, budget, counted]

theorem gate (counts : Counts m (.bounded n) k s) (here : s.running = m)
    (small : k + 1 ≤ Machine.maxCalls) (kind : BindingKind) :
    (countCall kind).succeeds s = true ↔ k + 1 ≤ n := by
  have beyond := counts.overBudget? here small kind
  by_cases exceeds : n < k + 1
  · rw [if_pos exceeds] at beyond
    simp only [Action.succeeds, countCall_over beyond]
    exact iff_of_false Bool.false_ne_true (Nat.not_le_of_lt exceeds)
  · rw [if_neg exceeds] at beyond
    simp only [Action.succeeds, countCall_within beyond]
    exact iff_of_true trivial (Nat.le_of_not_lt exceeds)

theorem refuses (counts : Counts m (.bounded n) k s) (here : s.running = m)
    (small : k + 1 ≤ Machine.maxCalls) (exceeds : n < k + 1) (run : Runner) :
    b.call run args s = .error (.failure (.ofCause (.budgetExceeded (k + 1) n)))
      { s with machine := s.machine.countCall (s.heap.binding b).strategy.kind } := by
  have beyond := counts.overBudget? here small (s.heap.binding b).strategy.kind
  rw [if_pos exceeds] at beyond
  exact BindingId.call_of_over beyond run

end Session.Counts

/-! ## Bodies that begin -/

namespace Moment

/-- Whether the body of a binding begins on a machine. -/
def serves (m : MachineId) (moment : Moment) : Bool :=
  match moment.deed with
  | .serve _ => moment.session.running = m
  | _ => false

/-- Whether a body is due after a moment: an attempt within the budget makes it due, and it is due
until it begins. -/
def awaits (m : MachineId) (n k : Nat) (due : Bool) (moment : Moment) : Bool :=
  if moment.attempts m then k + 1 ≤ n else due && !moment.serves m

end Moment

namespace Chronicle

/-- Bodies of bindings begin on a machine only where they are due. -/
def Serves (m : MachineId) (n : Nat) (due : Bool) (k : Nat) : Chronicle → Prop :=
  Accords (fun (due, k) moment => (moment.awaits m n k due, moment.count m k))
    (fun (due, _) moment => moment.serves m = true → due = true) (due, k)

variable {due : Bool} {d : Chronicle} {moment : Moment}

theorem serves_cons : Serves m n due k (moment :: c) ↔
    (moment.serves m = true → due = true) ∧
      c.Serves m n (moment.awaits m n k due) (moment.count m k) := Iff.rfl

theorem Serves.of_due (serves : c.Serves m n false k) : c.Serves m n true k := by
  induction c generalizing k with
  | nil => trivial
  | cons moment rest ih =>
    obtain ⟨_, later⟩ := serves_cons.1 serves
    refine serves_cons.2 ⟨fun _ => rfl, ?_⟩
    unfold Moment.awaits at later ⊢
    split
    · next attempts => rwa [if_pos attempts] at later
    · next other =>
      rw [if_neg other] at later
      cases moment.serves m with
      | true => exact later
      | false => exact ih later

theorem Serves.append (serves : c.Serves m n due k)
    (rest : d.Serves m n false (c.foldl (Moment.count m) k)) : Serves m n due k (c ++ d) := by
  induction c generalizing due k with
  | nil =>
    cases due with
    | false => exact rest
    | true => exact rest.of_due
  | cons moment c ih => exact ⟨serves.1, ih serves.2 rest⟩

theorem Serves.suffix (serves : Serves m n due k (c ++ d)) :
    ∃ due, d.Serves m n due (k + c.attempts m) := by
  induction c generalizing due k with
  | nil => exact ⟨due, serves⟩
  | cons moment c ih =>
    rw [← count_add_attempts]
    exact ih serves.2

/-- As many bodies begin as the budget covers, and one more if one is due. -/
theorem Serves.countP_le (serves : c.Serves m n due k) :
    c.countP (·.serves m) ≤ n - k + due.toNat := by
  induction c generalizing due k with
  | nil => exact Nat.zero_le _
  | cons moment rest ih =>
    obtain ⟨first, rest⟩ := serves_cons.1 serves
    have later := ih rest
    rw [List.countP_cons]
    unfold Moment.awaits Moment.count at later
    by_cases attempts : moment.attempts m = true
    · have none : moment.serves m = false := by
        obtain ⟨deed, u⟩ := moment
        cases deed <;> first | rfl | cases attempts
      rw [if_pos attempts, if_pos attempts] at later
      rw [none, if_neg nofun]
      by_cases covered : k + 1 ≤ n
      · rw [decide_eq_true covered, Bool.toNat_true] at later
        omega
      · rw [decide_eq_false covered, Bool.toNat_false] at later
        omega
    · rw [if_neg attempts, if_neg attempts] at later
      cases begins : moment.serves m with
      | true =>
        rw [first begins] at later ⊢
        rw [begins] at later
        simpa using later
      | false =>
        rw [begins] at later
        simpa using later

end Chronicle

theorem serves_cons_idle {flag : Bool} {moment : Moment} (attempts : moment.attempts m = false)
    (begins : moment.serves m = false) (serves : c.Serves m n flag k) :
    Chronicle.Serves m n flag k (moment :: c) := by
  have awaits : moment.awaits m n k flag = flag := by simp [Moment.awaits, attempts, begins]
  have count : moment.count m k = k := if_neg (by simp [attempts])
  refine Chronicle.serves_cons.2 ⟨by simp [begins], ?_⟩
  rwa [awaits, count]

theorem serves_concat {flag : Bool} {last : Moment} (nothing : last.serves m = false)
    (serves : c.Serves m n flag k) : Chronicle.Serves m n flag k (c ++ [last]) :=
  serves.append ⟨by simp [nothing], trivial⟩

/-- Bodies begin only where an attempt within the budget has made them due. -/
theorem Course.serves {due : Bool} {ending : Ending} (course : Course due s c ending t)
    (kept : ∀ moment ∈ c, moment.replaces m = false) (counts : s.Counts m (.bounded n) k)
    (small : k + c.attempts m ≤ Machine.maxCalls) {flag : Bool}
    (awaited : due = true → s.running = m → flag = true) : c.Serves m n flag k := by
  induction course generalizing k flag with
  | still | gone => trivial
  | raise | handle | refuse | build | install => exact ⟨nofun, trivial⟩
  | overBudget => exact ⟨nofun, nofun, trivial⟩
  | @note _ s deed idle =>
    refine ⟨fun begins => ?_, trivial⟩
    cases deed <;> first | cases begins | cases idle
  | onwards same _ inner =>
    exact inner kept (counts.still same) small fun due here => awaited due (same.running ▸ here)
  | @seq s t u c d ending first _ ih ih' =>
    rw [List.forall_mem_append] at kept
    have after := (first.counts kept.1 counts).2
    rw [Chronicle.attempts_append] at small
    refine (ih kept.1 counts (by omega) nofun).append (ih' kept.2 after ?_ nofun)
    rw [Chronicle.foldl_count]
    omega
  | @rescue s t c failure _ inner =>
    have all : Chronicle.attempts m (c ++ [⟨.rescue, t⟩]) = c.attempts m :=
      Chronicle.attempts_append m c _
    exact serves_concat rfl
      (inner (List.forall_mem_append.1 kept).1 counts (by omega) nofun)
  | @call _ s t b args c ending within _ inner =>
    have all := Chronicle.count_add_attempts m k ⟨.call b args, s⟩ c
    refine ⟨nofun, inner (List.forall_mem_cons.1 kept).2
      ((counts.call b args).congr (Nat.le_refl _) rfl) (by omega) fun _ here => ?_⟩
    -- the body is due only if the attempt is within the budget, and it is, since it was let through
    have attempt : Moment.attempts m ⟨.call b args, s⟩ = true := decide_eq_true here
    have covered : k + 1 ≤ n := by
      have beyond := counts.overBudget? here ?_ (s.heap.binding b).strategy.kind
      · rw [within] at beyond
        by_contra exceeds
        rw [if_pos (Nat.lt_of_not_le exceeds)] at beyond
        cases beyond
      · rw [Moment.count, if_pos attempt] at all
        omega
    rw [Moment.awaits, if_pos attempt]
    exact decide_eq_true covered
  | serve _ inner =>
    exact ⟨fun begins => awaited rfl (of_decide_eq_true begins),
      inner (List.forall_mem_cons.1 kept).2 counts small nofun⟩
  | holding _ inner => exact inner kept (counts.congr (Nat.le_refl _) rfl) small awaited
  | @frame _ s t traced frame stack c ending pushed _ inner =>
    rw [List.cons_append, List.forall_mem_cons, List.forall_mem_append] at kept
    have all : Chronicle.attempts m (⟨.enterFrame traced frame, s.withStack stack⟩ :: c ++
        [⟨.leaveFrame, t⟩]) = c.attempts m := by
      rw [Chronicle.attempts_append]
      rfl
    exact serves_cons_idle rfl rfl (serves_concat rfl
      (inner kept.2.1 (counts.restack stack s.sharedStacks) (by omega) awaited))
  | @shadow _ s t x c ending _ inner =>
    exact inner kept (counts.restack _ s.sharedStacks) small awaited
  | @switch _ s t other c ending _ inner =>
    exact serves_cons_idle rfl rfl
      (inner (List.forall_mem_cons.1 kept).2 (counts.switch other) small nofun)

/-! ## Runs -/

/-- How a machine with a budget of `n`, which has counted `k` attempts before, fares in the course
of a chronicle that ends in a session. -/
structure Session.KeepsBudget (m : MachineId) (n k : Nat) (c : Chronicle) (t : Session) :
    Prop where
  /-- In every moment the count is the number of attempts so far. -/
  counts : ∀ before moment after, c = before ++ moment :: after →
    (moment.session.machineAt m).calls = k + Chronicle.attempts m before
  ends : (t.machineAt m).calls = k + c.attempts m
  /-- Attempts within the budget are let through, and no others. -/
  gate : ∀ before b args u after, c = before ++ ⟨.call b args, u⟩ :: after → u.running = m →
    ((countCall (u.heap.binding b).strategy.kind).succeeds u = true ↔
      k + Chronicle.attempts m before + 1 ≤ n)
  /-- An attempt that is refused fails, however bodies are run, and is counted; nothing else
  changes. -/
  refuses : ∀ before b args u after, c = before ++ ⟨.call b args, u⟩ :: after → u.running = m →
    n < k + Chronicle.attempts m before + 1 → ∀ run : Runner,
      b.call run args u =
        .error (.failure (.ofCause (.budgetExceeded (k + Chronicle.attempts m before + 1) n)))
          { u with machine := u.machine.countCall (u.heap.binding b).strategy.kind }
  /-- As many bodies begin as are left of the budget, at most. -/
  starts : c.countP (·.serves m) ≤ n - k
  /-- After an attempt that is refused none begins. -/
  exhausted : ∀ before b args u after, c = before ++ ⟨.call b args, u⟩ :: after → u.running = m →
    n < k + Chronicle.attempts m before + 1 → ∀ moment ∈ after, moment.serves m = false

theorem Course.keepsBudget {ending : Ending} (course : Course false s c ending t)
    (kept : ∀ moment ∈ c, moment.replaces m = false) (counts : s.Counts m (.bounded n) k)
    (small : k + c.attempts m ≤ Machine.maxCalls) : Session.KeepsBudget m n k c t := by
  obtain ⟨accords, after⟩ := course.counts kept counts
  rw [Chronicle.foldl_count] at after
  have counted {before : Chronicle} {moment : Moment} {rest : Chronicle}
      (place : c = before ++ moment :: rest) :
      moment.session.Counts m (.bounded n) (k + before.attempts m) :=
    Chronicle.foldl_count before ▸ accords.moment place
  have attempts_eq {before : Chronicle} {moment : Moment} {rest : Chronicle}
      (place : c = before ++ moment :: rest) :
      c.attempts m = before.attempts m + Chronicle.attempts m (moment :: rest) := by
    rw [place, Chronicle.attempts_append]
  have room {before : Chronicle} {b : BindingId} {args : List Value} {u : Session}
      {rest : Chronicle} (place : c = before ++ ⟨.call b args, u⟩ :: rest) (here : u.running = m) :
      k + before.attempts m + 1 ≤ Machine.maxCalls := by
    have attempt : Moment.attempts m ⟨.call b args, u⟩ = true := decide_eq_true here
    have all := attempts_eq place
    rw [Chronicle.attempts, Chronicle.attempts, Chronicle.attempts, List.countP_cons,
      if_pos attempt] at all
    unfold Chronicle.attempts at small ⊢
    omega
  have serves : c.Serves m n false k := course.serves kept counts small nofun
  refine ⟨fun before moment rest place => ?_, ?_, fun before b args u rest place here => ?_,
    fun before b args u rest place here exceeds run => ?_, serves.countP_le,
    fun before b args u rest place here exceeds => ?_⟩
  · have all := attempts_eq place
    rw [(counted place).calls]
    omega
  · rw [after.calls]
    omega
  · exact (counted place).gate here (room place here) _
  · exact (counted place).refuses here (room place here) exceeds run
  · have attempt : Moment.attempts m ⟨.call b args, u⟩ = true := decide_eq_true here
    obtain ⟨due, later⟩ := (place ▸ serves).suffix
    have none := (Chronicle.serves_cons.1 later).2.countP_le
    rw [Moment.awaits, if_pos attempt, Moment.count, if_pos attempt,
      decide_eq_false (Nat.not_le_of_lt exceeds)] at none
    have zero : rest.countP (·.serves m) = 0 := by
      rw [Bool.toNat_false] at none
      omega
    simpa using List.countP_eq_zero.1 zero

namespace Session

/-- A machine with a budget keeps to it whatever steps are run, as long as it is not replaced and
does not reach the largest count. -/
theorem call_budget (steps : List Expr) {m : MachineId} {n : Nat}
    (present : m.index < s.machines.size) (bounded : (s.machineAt m).mode = .bounded n)
    (kept : ∀ moment ∈ Program.chronicle steps s, moment.replaces m = false)
    (small : (s.machineAt m).calls + (Program.chronicle steps s).attempts m ≤ Machine.maxCalls) :
    KeepsBudget m n (s.machineAt m).calls (Program.chronicle steps s)
      ((Program.runSteps steps).after s) :=
  (Program.takes_chronicle steps).keepsBudget kept ⟨present, bounded, by omega⟩ small

/-- A machine with a budget of one that is asked for two calls. -/
theorem call_budget_of_one :
    let f : Expr := .apply (.command (.call .function)) [.nullary "f" [.int 7], .void]
    let call : Expr := .apply (.command (.call .callBinding)) [.var "f"]
    let s := Program.ready { mode := .bounded 1 }
    let steps := [.bind "f" f, call, call]
    KeepsBudget ⟨0⟩ 1 0 (Program.chronicle steps s) ((Program.runSteps steps).after s) ∧
      (Program.chronicle steps s).attempts ⟨0⟩ = 2 := by
  intro f call s steps
  have attempts : (Program.chronicle steps s).attempts ⟨0⟩ = 2 := by decide +kernel
  have calls : (s.machineAt ⟨0⟩).calls = 0 := by decide +kernel
  refine ⟨calls ▸ call_budget steps ?_ ?_ ?_ ?_, attempts⟩
  · decide +kernel
  · decide +kernel
  · decide +kernel
  · rw [calls, attempts]
    decide

end Session

end Delegation
