import Delegation.Proofs.Budget
import Mathlib.Data.List.Induction

/-!
# Tallies

A profiling machine keeps three counters, one for each kind of binding. A call adds one to the
counter of its kind at the very moment at which the machine counts the call itself, before anything
is looked at that could turn the call away. So in every moment of a run the counters are the numbers
of attempts since the machine was set up, by kind, and together they are the count of calls, as long
as that has not reached the largest count.
-/

namespace Delegation

variable {s t : Session} {m : MachineId} {c : Chronicle} {kind : BindingKind}
  {sums base : BindingKind → Nat}

/-! ## Attempts by kind -/

namespace Moment

/-- Whether a binding of a kind is called on a machine. -/
def attemptsOf (m : MachineId) (kind : BindingKind) (moment : Moment) : Bool :=
  match moment.deed with
  | .call b _ => moment.session.running = m && (moment.session.heap.binding b).strategy.kind = kind
  | _ => false

/-- Whether a machine is a profiling one even if it is replaced. -/
def profiles (m : MachineId) (moment : Moment) : Bool :=
  match moment.deed with
  | .install config => moment.session.running ≠ m || config.profile
  | _ => true

/-- The attempts on a machine by kind, this moment included; a new machine starts over. -/
def tally (m : MachineId) (sums : BindingKind → Nat) (moment : Moment) : BindingKind → Nat :=
  fun kind => if moment.replaces m then 0 else sums kind + (moment.attemptsOf m kind).toNat

end Moment

namespace Chronicle

/-- What has happened since a machine was replaced last. -/
def since (m : MachineId) (c : Chronicle) : Chronicle :=
  (c.reverse.takeWhile fun moment => !moment.replaces m).reverse

/-- The attempts on a machine by kind in the course of a chronicle, on top of those before, if the
machine is still the same. -/
def tally (m : MachineId) (base : BindingKind → Nat) (c : Chronicle) : BindingKind → Nat :=
  fun kind =>
    (if c.any (·.replaces m) then 0 else base kind) + (c.since m).countP (·.attemptsOf m kind)

theorem since_concat (m : MachineId) (c : Chronicle) (last : Moment) :
    since m (c ++ [last]) = if last.replaces m then [] else c.since m ++ [last] := by
  unfold since
  rw [List.reverse_append, List.reverse_singleton, List.singleton_append, List.takeWhile_cons]
  cases last.replaces m <;> simp

theorem foldl_tally (m : MachineId) (base : BindingKind → Nat) (c : Chronicle) :
    c.foldl (Moment.tally m) base = c.tally m base := by
  induction c using List.reverseRecOn with
  | nil =>
    funext kind
    simp [tally, since]
  | append_singleton c last ih =>
    funext kind
    rw [List.foldl_append, List.foldl_cons, List.foldl_nil, ih, tally, since_concat, Moment.tally]
    cases replaces : last.replaces m with
    | true => simp [replaces]
    | false =>
      have counted : [last].countP (·.attemptsOf m kind) = (last.attemptsOf m kind).toNat := by
        cases attempts : last.attemptsOf m kind <;> simp [attempts]
      simp only [Bool.false_eq_true, if_false, List.any_append, List.any_cons, List.any_nil,
        replaces, Bool.or_false, List.countP_append, counted, tally]
      omega

end Chronicle

/-! ## The counters of a machine -/

/-- How many attempts there are of all kinds. -/
def total (sums : BindingKind → Nat) : Nat := sums .function + sums .method + sums .closure

theorem total_tally_call {b : BindingId} {args : List Value} (here : s.running = m) :
    total (Moment.tally m sums ⟨.call b args, s⟩) = total sums + 1 := by
  have kept : Moment.replaces m ⟨.call b args, s⟩ = false := rfl
  simp only [total, Moment.tally, kept, Moment.attemptsOf, here]
  cases (s.heap.binding b).strategy.kind <;> simp <;> omega

/-- What counters show that wrap around. -/
def Counters.ofTally (sums : BindingKind → Nat) : Counters :=
  ⟨.ofNat (sums .function), .ofNat (sums .method), .ofNat (sums .closure)⟩

theorem Counters.count_ofTally {b : BindingId} {args : List Value} (here : s.running = m) :
    (ofTally sums).count (s.heap.binding b).strategy.kind =
      ofTally (Moment.tally m sums ⟨.call b args, s⟩) := by
  have kept : Moment.replaces m ⟨.call b args, s⟩ = false := rfl
  simp only [ofTally, Moment.tally, kept, Moment.attemptsOf, here]
  cases (s.heap.binding b).strategy.kind <;> simp [count]

/-- The counters show how many calls there were of each kind. -/
structure Counters.Show (counters : Counters) (sums : BindingKind → Nat) : Prop where
  function : counters.function.toNat = sums .function
  method : counters.method.toNat = sums .method
  closure : counters.closure.toNat = sums .closure

/-- The machine is a profiling one, its counters show how many calls there were of each kind, and
together they are the count of calls. -/
structure Machine.Profiles (sums : BindingKind → Nat) (machine : Machine) : Prop where
  counters : ∃ counters, machine.counters = some counters ∧ counters.Show sums
  calls : machine.calls = total sums

theorem Machine.profiles_iff {machine : Machine} (small : total sums ≤ maxCalls) :
    machine.Profiles sums ↔
      machine.counters = some (.ofTally sums) ∧ machine.calls = min (total sums) maxCalls := by
  have room : maxCalls < UInt64.size := by decide
  have bounded (kind : BindingKind) : sums kind < UInt64.size := by
    cases kind <;> unfold total at small <;> omega
  rw [Nat.min_eq_left small]
  constructor
  · rintro ⟨⟨counters, is, shown⟩, calls⟩
    refine ⟨is.trans (congrArg some ?_), calls⟩
    simp only [Counters.ofTally, ← shown.function, ← shown.method, ← shown.closure,
      UInt64.ofNat_toNat]
  · rintro ⟨is, calls⟩
    exact ⟨⟨_, is, UInt64.toNat_ofNat_of_lt (bounded _), UInt64.toNat_ofNat_of_lt (bounded _),
      UInt64.toNat_ofNat_of_lt (bounded _)⟩, calls⟩

/-- Counters and count go together, whatever happens to the machine. -/
theorem meter_tally (m : MachineId) :
    Meter m (Moment.tally m) (fun moment => moment.profiles m = true) fun sums machine =>
      machine.counters = some (.ofTally sums) ∧
        machine.calls = min (total sums) Machine.maxCalls where
  idle sums moment attempts replaces := by
    funext kind
    have none : moment.attemptsOf m kind = false := by
      obtain ⟨deed, u⟩ := moment
      cases deed <;> simp_all [Moment.attempts, Moment.attemptsOf]
    simp [Moment.tally, replaces, none]
  stack _ shown := shown
  call {sums u} b args here shown := by
    obtain ⟨counters, calls⟩ := shown
    refine ⟨?_, ?_⟩
    · show u.machine.counters.map _ = _
      rw [counters, Option.map_some, Counters.count_ofTally here]
    · show min (u.machine.calls + 1) Machine.maxCalls = _
      rw [calls, total_tally_call here]
      omega
  install {sums u config} registry here fair shown := by
    have replaced : Moment.replaces m ⟨.install config, u⟩ = true := by
      simp [Moment.replaces, here]
    have profile : config.profile = true := by simpa [Moment.profiles, here] using fair
    have zero : Moment.tally m sums ⟨.install config, u⟩ = fun _ => 0 := by
      funext kind
      simp [Moment.tally, replaced]
    rw [zero]
    exact ⟨by simp [Machine.fresh, profile, Counters.ofTally], by simp [Machine.fresh, total]⟩

/-! ## Runs -/

theorem Moment.total_tally_le (moment : Moment) (sums : BindingKind → Nat) :
    total (moment.tally m sums) ≤ total sums + (moment.attempts m).toNat := by
  obtain ⟨deed, u⟩ := moment
  cases deed with
  | call b args =>
    by_cases here : u.running = m
    · rw [total_tally_call here]
      simp [attempts, here]
    · simp [total, tally, replaces, attemptsOf, here]
  | install config =>
    by_cases here : u.running = m <;> simp [total, tally, replaces, attemptsOf, here]
  | _ => simp [total, tally, replaces, attemptsOf]

theorem Chronicle.total_tally_le (c : Chronicle) (base : BindingKind → Nat) :
    total (c.tally m base) ≤ total base + c.attempts m := by
  rw [← foldl_tally]
  induction c generalizing base with
  | nil => exact Nat.le_refl _
  | cons moment rest ih =>
    have first := moment.total_tally_le (m := m) base
    have later := ih (moment.tally m base)
    rw [List.foldl_cons, attempts, List.countP_cons]
    unfold attempts at later
    cases attempt : moment.attempts m with
    | true =>
      rw [attempt, Bool.toNat_true] at first
      rw [if_pos rfl]
      omega
    | false =>
      rw [attempt, Bool.toNat_false] at first
      rw [if_neg Bool.false_ne_true]
      omega

/-- How a profiling machine, which has counted attempts before, fares in the course of a chronicle
that ends in a session. -/
structure Session.KeepsTally (m : MachineId) (base : BindingKind → Nat) (c : Chronicle)
    (t : Session) : Prop where
  moments : ∀ before moment after, c = before ++ moment :: after →
    (moment.session.machineAt m).Profiles (Chronicle.tally m base before)
  ends : (t.machineAt m).Profiles (c.tally m base)

/-- In every moment of a run, and in the end, the counters of a profiling machine are the numbers of
attempts so far by kind. -/
theorem Course.keepsTally {due : Bool} {ending : Ending} (course : Course due s c ending t)
    (present : m.index < s.machines.size) (profiles : (s.machineAt m).Profiles base)
    (kept : ∀ moment ∈ c, moment.profiles m = true)
    (small : total base + c.attempts m ≤ Machine.maxCalls) :
    Session.KeepsTally m base c t := by
  have tracks := (meter_tally m).tracks course kept
    ⟨present, (Machine.profiles_iff (by omega)).1 profiles⟩
  refine ⟨fun before moment after place => ?_, ?_⟩
  · have shown := (tracks.moments.moment place).shown
    rw [Chronicle.foldl_tally] at shown
    have within := Chronicle.total_tally_le (m := m) before base
    rw [place, Chronicle.attempts_append] at small
    exact (Machine.profiles_iff (by omega)).2 shown
  · have shown := tracks.ends.shown
    rw [Chronicle.foldl_tally] at shown
    have within := Chronicle.total_tally_le (m := m) c base
    exact (Machine.profiles_iff (by omega)).2 shown

end Delegation
