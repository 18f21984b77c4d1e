import Delegation.Evaluation
import Delegation.Proofs.Outcome

/-!
# Sessions that differ in what is profiled

Two sessions are level if they are the same but for the counters of machines: whether a machine is a
profiling one, and what its counters have come to. What is seen of a session is seen without the
counters, but for the two queries that ask for them.

A steady action does the same from level sessions and leaves level ones behind. The rules follow the
way actions are put together.
-/

namespace Delegation

variable {α β : Type} {s t : Session}

/-! ## Level sessions -/

def Machine.uncounted (machine : Machine) : Machine := { machine with counters := none }

namespace Session

/-- The session without the counters of its machines. -/
def uncounted (s : Session) : Session :=
  { s with machine := s.machine.uncounted, machines := s.machines.map Machine.uncounted }

/-- The sessions are the same but for counters. -/
def Level (s t : Session) : Prop := t.uncounted = s.uncounted

namespace Level

theorem refl (s : Session) : s.Level s := rfl

/-- What does not depend on counters is the same in level sessions. -/
theorem same (level : s.Level t) (f : Session → α) (blind : ∀ s : Session, f s.uncounted = f s) :
    f t = f s := by rw [← blind t, level, blind s]

theorem heap (level : s.Level t) : t.heap = s.heap := level.same _ fun _ => rfl

theorem held (level : s.Level t) : t.held = s.held := level.same _ fun _ => rfl

theorem running (level : s.Level t) : t.running = s.running := level.same _ fun _ => rfl

theorem stack (level : s.Level t) : t.machine.stack = s.machine.stack :=
  level.same (·.machine.stack) fun _ => rfl

/-- What may be done to both sessions, if it may be done without the counters as well. -/
theorem map (level : s.Level t) {f : Session → Session}
    (through : ∀ s : Session, (f s).uncounted = f s.uncounted) : (f s).Level (f t) := by
  rw [Level, through, level, through]

end Level

/-! ## What is seen of a session -/

theorem parked_uncounted (s : Session) (m : MachineId) :
    s.uncounted.machines.getD m.index default = (s.machines.getD m.index default).uncounted := by
  rw [Array.getD_eq_getD_getElem?, Array.getD_eq_getD_getElem?, uncounted, Array.getElem?_map]
  cases s.machines[m.index]? <;> rfl

theorem machineAt_uncounted (s : Session) (m : MachineId) :
    s.uncounted.machineAt m = (s.machineAt m).uncounted := by
  by_cases here : m = s.running
  · have here' : m = s.uncounted.running := here
    rw [machineAt, if_pos here', machineAt, if_pos here]
    rfl
  · have here' : ¬m = s.uncounted.running := here
    rw [machineAt, if_neg here', machineAt, if_neg here]
    exact s.parked_uncounted m

theorem switch_uncounted (s : Session) (m : MachineId) :
    (s.switch m).uncounted = s.uncounted.switch m := by
  by_cases here : m = s.running
  · have here' : m = s.uncounted.running := here
    rw [switch, if_pos here, switch, if_pos here']
  · have here' : ¬m = s.uncounted.running := here
    have stored : (s.machines.setIfInBounds s.running.index s.machine).map Machine.uncounted =
        s.uncounted.machines.setIfInBounds s.running.index s.machine.uncounted :=
      Array.map_setIfInBounds
    rw [switch, if_neg here, switch, if_neg here', parked_uncounted]
    simp only [uncounted, stored]

mutual

theorem ownedBy_uncounted (s : Session) (x : Object) : s.uncounted.ownedBy x = s.ownedBy x := by
  cases x with
  | list items => exact ownedByAll_uncounted s items
  | machine m =>
    rw [ownedBy, machineAt_uncounted]
    rfl
  | value | scope | cell | chain | callable | frame | stack | weak | failure | builder
  | registry => rfl

theorem ownedByAll_uncounted (s : Session) (xs : List Object) :
    s.uncounted.ownedByAll xs = s.ownedByAll xs := by
  cases xs with
  | nil => rfl
  | cons x xs => rw [ownedByAll, ownedByAll, ownedBy_uncounted s x, ownedByAll_uncounted s xs]

end

theorem roots_uncounted (s : Session) : s.uncounted.roots = s.roots := by
  have owns : s.uncounted.ownedBy = s.ownedBy := funext s.ownedBy_uncounted
  rw [roots, owns, roots]
  rfl

theorem isRooted_uncounted (s : Session) (x : Node) : s.uncounted.isRooted x = s.isRooted x := by
  rw [Bool.eq_iff_iff, isRooted_iff, isRooted_iff, roots_uncounted]

theorem census_uncounted (s : Session) : s.uncounted.census = s.census := by
  have owners : Census.owners s.uncounted = Census.owners s := by
    rw [Census.owners, roots_uncounted]
    rfl
  rw [census, owners]
  rfl

theorem isLive_uncounted (s : Session) (e : EntityId) : s.uncounted.isLive e = s.isLive e := by
  simp only [isLive, census_uncounted, isRooted_uncounted]
  rfl

theorem receiver_uncounted (s : Session) (e : EntityId) :
    s.uncounted.receiver e = s.receiver e := by
  simp only [receiver, census_uncounted, isRooted_uncounted]
  rfl

theorem owner?_uncounted (s : Session) (b : BindingId) : s.uncounted.owner? b = s.owner? b := by
  simp only [owner?, isLive_uncounted]
  rfl

mutual

theorem report_uncounted (s : Session) :
    ∀ (x : Object) (reported : List EntityId), s.uncounted.report x reported = s.report x reported
  | .list items, reported => by rw [report, report, s.reportAll_uncounted items reported]
  | .weak e, reported => by rw [report, report, isLive_uncounted]
  | .machine m, reported => by
    rw [report, report, machineAt_uncounted]
    rfl
  | .value _, _ | .scope _, _ | .cell _, _ | .chain _, _ | .callable _, _ | .frame _, _
  | .stack _, _ | .failure _, _ | .builder _, _ | .registry _, _ => rfl

theorem reportAll_uncounted (s : Session) : ∀ (xs : List Object) (reported : List EntityId),
    s.uncounted.reportAll xs reported = s.reportAll xs reported
  | [], _ => rfl
  | x :: xs, reported => by
    rw [reportAll, reportAll, s.report_uncounted x reported]
    simp only [s.reportAll_uncounted xs]

end

end Session

/-! ## Queries -/

/-- Whether a query asks for counters. -/
def Query.asksCounters : Query → Bool
  | .machine .counters | .machine .report => true
  | _ => false

/-- All other queries are answered without the counters. -/
theorem Query.answer_uncounted {q : Query} (other : q.asksCounters = false) (s : Session)
    (xs : List Object) : q.answer s.uncounted xs = q.answer s xs := by
  cases q with
  | data q => cases q <;> rfl
  | failure q => rfl
  | table q => cases q <;> rfl
  | entity q =>
    cases q <;> simp only [answer, EntityQuery.answer, Session.isLive_uncounted,
      Session.receiver_uncounted] <;> rfl
  | binding q =>
    cases q <;> simp only [answer, BindingQuery.answer, Session.owner?_uncounted] <;> rfl
  | stack q => cases q <;> rfl
  | machine q => cases q <;> first | rfl | cases other

/-! ## Steady actions -/

namespace Action

/-- Two actions have ended in the same way and have left level sessions behind. -/
inductive EndsLevel : EStateM.Result Stop Session α → EStateM.Result Stop Session α → Prop
  | ok (a : α) {s t : Session} (level : s.Level t) : EndsLevel (.ok a s) (.ok a t)
  | error (stop : Stop) {s t : Session} (level : s.Level t) :
      EndsLevel (.error stop s) (.error stop t)

/-- The action does the same from all sessions that are level with a session. -/
def SteadyAt (s : Session) (action : Action α) : Prop :=
  ∀ t, s.Level t → EndsLevel (action s) (action t)

/-- An action is steady if it does the same without counters. -/
theorem steadyAt_of_eq {action : Action α}
    (through : ∀ s : Session, action s.uncounted = bracket s Session.uncounted action) :
    action.SteadyAt s := by
  intro t level
  have same : bracket s Session.uncounted action = bracket t Session.uncounted action := by
    rw [← through s, ← level, through t]
  unfold bracket at same
  cases ends : action s <;> cases ends' : action t <;> simp only [ends, ends'] at same
  · obtain ⟨rfl, after⟩ := EStateM.Result.ok.inj same
    exact .ok _ after.symm
  · cases same
  · cases same
  · obtain ⟨rfl, after⟩ := EStateM.Result.error.inj same
    exact .error _ after.symm

theorem SteadyAt.congr {action action' : Action α} (steady : action'.SteadyAt s)
    (same : ∀ t, s.Level t → action t = action' t) : action.SteadyAt s := by
  intro t level
  rw [same s (.refl s), same t level]
  exact steady t level

theorem steadyAt_pure (a : α) : SteadyAt s (pure a) := fun _ level => .ok a level

theorem steadyAt_throw (stop : Stop) : SteadyAt s (throw stop : Action α) :=
  fun _ level => .error stop level

theorem SteadyAt.bind {action : Action α} {next : α → Action β} (first : action.SteadyAt s)
    (second : ∀ a t, action s = .ok a t → (next a).SteadyAt t) : (action >>= next).SteadyAt s := by
  intro t level
  have begins := first t level
  simp only [Bind.bind, EStateM.bind]
  generalize ends : action s = here, action t = there at begins
  cases begins with
  | ok a level => exact second a _ ends _ level
  | error stop level => exact .error stop level

/-- Of a session that is read, nothing may be used but what does not depend on counters. -/
theorem steadyAt_get_bind {next : Session → Action α}
    (same : ∀ s : Session, next s.uncounted = next s) (steady : (next s).SteadyAt s) :
    (get >>= next).SteadyAt s :=
  steady.congr fun t level => congrFun (level.same next same) t

theorem steadyAt_lift (found : Except Stop α) : SteadyAt s (liftM found : Action α) := by
  cases found with
  | ok a => exact steadyAt_pure a
  | error stop => exact steadyAt_throw stop

/-- An action that does something, runs another one, and undoes something. -/
theorem SteadyAt.bracket {outer inner : Action α} (inside leave : Session → Session)
    (steady : inner.SteadyAt (inside s))
    (is : ∀ t, s.Level t → outer t = Action.bracket (inside t) leave inner)
    (enters : ∀ s : Session, (inside s).uncounted = inside s.uncounted)
    (leaves : ∀ s : Session, (leave s).uncounted = leave s.uncounted) : outer.SteadyAt s := by
  intro t level
  have ends := steady _ (level.map enters)
  rw [is s (.refl s), is t level]
  unfold Action.bracket
  generalize inner (inside s) = here, inner (inside t) = there at ends
  cases ends with
  | ok a level => exact .ok a (level.map leaves)
  | error stop level => exact .error stop (level.map leaves)

theorem SteadyAt.holding {action : Action α} {x : Object}
    (steady : action.SteadyAt { s with held := x :: s.held }) : (holding x action).SteadyAt s := by
  refine steady.bracket (fun t => { t with held := x :: t.held })
    (fun t => { t with held := s.held }) (fun t level => ?_) (fun _ => rfl) fun _ => rfl
  rw [← level.held]
  rfl

theorem steadyAt_reportObject (x : Object) : (reportObject x).SteadyAt s :=
  .holding (steadyAt_of_eq fun t => by
    dsimp only [bracket]
    rw [Session.report_uncounted]
    rfl)

end Action

end Delegation
