import Delegation.Proofs.Course.Machines
import Delegation.Proofs.Suspension

/-!
# Limits on stacks

A stack may have a limit on its depth, and the limit goes with the stack wherever the stack is kept:
pushing stops at it, and nothing else makes a stack deeper. So the limit of a machine is that of its
live stack, and it stays the one the machine was built with as long as only stacks are put in place
that have been taken off the same machine.

A stack that has been taken off lies beside all machines. No guarded script reaches it there, so it
can be put in place again as it was.
-/

namespace Delegation

variable {s t u : Session} {c : Chronicle} {m : MachineId} {due : Bool} {ending : Ending}

/-! ## Stacks within their limits -/

namespace CallStack

variable {stack stack' : CallStack}

/-- The stack has no more frames than its limit allows. -/
def Within (stack : CallStack) : Prop := ∀ limit, stack.limit = some limit → stack.depth ≤ limit

theorem within_empty (limit : Option Nat) : Within { limit } := fun _ _ => Nat.zero_le _

theorem within_of_push {frame : Frame} (fits : stack.push frame = .ok stack') : stack'.Within := by
  intro limit limited
  have room : ¬limit ≤ stack.depth := fun full => by
    rw [eq_of_push fits] at limited
    have fails : stack.push frame = .error (.depthExceeded limit) :=
      push_eq_error_iff.2 ⟨limit, limited, full, rfl⟩
    rw [fails] at fits
    cases fits
  rw [eq_of_push fits]
  exact Nat.lt_of_not_le room

theorem Within.becomes (within : stack.Within) (becomes : stack.Becomes stack') :
    stack'.Within := by
  cases becomes with
  | push fits => exact within_of_push fits
  | pop =>
    intro limit limited
    have less : stack.pop.depth ≤ stack.depth := by simp [depth, CallStack.pop]
    exact Nat.le_trans less (within limit limited)
  | map f =>
    intro limit limited
    rw [depth_mapCurrent]
    exact within limit (limit_mapCurrent stack f ▸ limited)

theorem Becomes.limit (becomes : stack.Becomes stack') : stack'.limit = stack.limit := by
  cases becomes with
  | push fits => rw [eq_of_push fits]
  | pop => rfl
  | map f => exact limit_mapCurrent stack f

end CallStack

namespace Session

/-- Every stack is within its limit, wherever it is kept. -/
structure WithinLimits (s : Session) : Prop where
  live : s.machine.stack.Within
  machines : ∀ machine ∈ s.machines, machine.stack.Within
  shared : ∀ stack ∈ s.sharedStacks, stack.Within

namespace WithinLimits

variable {stack : CallStack}

theorem still (limits : s.WithinLimits) (same : s.Still t) : t.WithinLimits where
  live := same.machine ▸ limits.live
  machines := same.machines ▸ limits.machines
  shared := same.sharedStacks ▸ limits.shared

theorem withStack (limits : s.WithinLimits) (within : stack.Within) :
    (s.withStack stack).WithinLimits := { limits with live := within }

theorem share (limits : s.WithinLimits) (within : stack.Within) :
    { s with sharedStacks := s.sharedStacks.push stack }.WithinLimits :=
  { limits with
    shared := fun other place => (Array.mem_push.1 place).elim (limits.shared other) (· ▸ within) }

theorem putStack (limits : s.WithinLimits) (within : stack.Within) (target : Option StackId) :
    (s.putStack target stack).WithinLimits := by
  cases target with
  | none => exact limits.withStack within
  | some c =>
    exact { limits with
      shared := fun other place =>
        (Array.mem_or_eq_of_mem_setIfInBounds place).elim (limits.shared other) (· ▸ within) }

theorem stackOr (limits : s.WithinLimits) (target : Option StackId) :
    (s.stackOr target).Within := by
  cases target with
  | none => exact limits.live
  | some c =>
    by_cases inside : c.index < s.sharedStacks.size
    · have there : s.stackOr (some c) = s.sharedStacks[c.index] := by
        simp [Session.stackOr, Session.stack, inside]
      exact there ▸ limits.shared _ (Array.getElem_mem inside)
    · have empty : s.stackOr (some c) = {} := by simp [Session.stackOr, Session.stack, inside]
      exact empty ▸ CallStack.within_empty none

theorem switch (limits : s.WithinLimits) (k : MachineId) : (s.switch k).WithinLimits := by
  unfold Session.switch
  split
  · exact limits
  · refine ⟨?_, fun machine place => ?_, limits.shared⟩
    · by_cases inside : k.index < s.machines.size
      · simpa [inside] using limits.machines _ (Array.getElem_mem inside)
      · have none : s.machines.getD k.index default = default := by simp [inside]
        exact (congrArg Machine.stack none).symm ▸ CallStack.within_empty _
    · rcases Array.mem_or_eq_of_mem_setIfInBounds place with old | rfl
      · exact limits.machines machine old
      · exact limits.live

theorem does {command : StackCommand} {xs : List Object} (limits : s.WithinLimits)
    (does : StackCommand.Does s command xs t) : t.WithinLimits := by
  cases does with
  | make xs limit => exact limits.share (CallStack.within_empty limit)
  | change xs target keeps becomes =>
    exact limits.putStack ((limits.stackOr target).becomes becomes) target
  | suspend xs => exact (limits.withStack (CallStack.within_empty _)).share limits.live
  | @resume xs c read =>
    exact ((limits.withStack (limits.stackOr (some c))).putStack
      (CallStack.within_empty none) (some c)).share limits.live

end WithinLimits

end Session

/-- In every moment of a run all stacks are within their limits. -/
theorem Course.withinLimits (course : Course due s c ending t) (limits : s.WithinLimits) :
    (∀ moment ∈ c, moment.session.WithinLimits) ∧ t.WithinLimits := by
  induction course with
  | still same => exact ⟨List.forall_mem_nil _, limits.still same⟩
  | gone => exact ⟨List.forall_mem_nil _, limits⟩
  | raise | note | refuse => exact ⟨by simpa using limits, limits⟩
  | onwards same _ inner => exact inner (limits.still same)
  | seq _ _ first second =>
    obtain ⟨within, limits⟩ := first limits
    obtain ⟨within', limits⟩ := second limits
    exact ⟨List.forall_mem_append.2 ⟨within, within'⟩, limits⟩
  | rescue _ inner =>
    obtain ⟨within, after⟩ := inner limits
    exact ⟨List.forall_mem_append.2 ⟨within, by simpa using after⟩, after⟩
  | handle acts =>
    exact ⟨by simpa using limits, limits.does (StackCommand.does_of_ok acts)⟩
  | build s config registry =>
    refine ⟨by simpa using limits, { limits with machines := fun machine place => ?_ }⟩
    rcases Array.mem_push.1 place with old | rfl
    · exact limits.machines machine old
    · exact CallStack.within_empty _
  | install s config registry =>
    exact ⟨by simpa using limits, { limits with live := CallStack.within_empty _ }⟩
  | call _ _ inner =>
    obtain ⟨within, after⟩ := inner { limits with }
    exact ⟨List.forall_mem_cons.2 ⟨limits, within⟩, { after with }⟩
  | overBudget =>
    exact ⟨List.forall_mem_cons.2 ⟨limits, by simpa using ⟨limits.1, limits.2, limits.3⟩⟩,
      { limits with }⟩
  | serve _ inner =>
    obtain ⟨within, after⟩ := inner limits
    exact ⟨List.forall_mem_cons.2 ⟨limits, within⟩, after⟩
  | holding _ inner =>
    obtain ⟨within, after⟩ := inner { limits with }
    exact ⟨within, { after with }⟩
  | frame pushed _ inner =>
    have entered := limits.withStack (CallStack.within_of_push pushed)
    obtain ⟨within, after⟩ := inner entered
    refine ⟨List.forall_mem_append.2 ⟨List.forall_mem_cons.2 ⟨entered, within⟩, ?_⟩,
      after.withStack (after.live.becomes .pop)⟩
    simpa using after
  | shadow _ inner =>
    obtain ⟨within, after⟩ := inner (limits.withStack (limits.live.becomes (.map _)))
    exact ⟨within, after.withStack (after.live.becomes (.map _))⟩
  | switch _ inner =>
    obtain ⟨within, after⟩ := inner (limits.switch _)
    exact ⟨List.forall_mem_cons.2 ⟨limits, within⟩, after.switch _⟩

/-! ## Full stacks -/

section Full

variable {target : Option StackId} {limit : Nat}

theorem push_of_full (limited : (s.stackOr target).limit = some limit)
    (full : limit ≤ (s.stackOr target).depth) (frame : Frame) :
    StackCommand.push.act [.ofOption .stack target, .frame frame] s =
      .error (.failure (.ofCause (.depthExceeded limit))) s := by
  have fails : (s.stackOr target).push frame = .error (.depthExceeded limit) :=
    CallStack.push_eq_error_iff.2 ⟨limit, limited, full, rfl⟩
  have stackRead : StackCommand.stackAt [.ofOption .stack target, .frame frame] = .ok target := by
    cases target <;> rfl
  have frameRead : operand [.ofOption .stack target, .frame frame] 1 Object.asFrame? =
    .ok frame := rfl
  simp only [StackCommand.act, stackRead, frameRead, liftM, monadLift, MonadLift.monadLift,
    pure_bind]
  simp only [bind, EStateM.bind, Action.get_eq_ok, fails]
  rfl

/-- On a live stack at its limit nothing is run in a frame. -/
theorem frames_of_full {α : Type} (limited : s.machine.stack.limit = some limit)
    (full : limit ≤ s.machine.stack.depth) (frame : Frame) (action : Action α) :
    withFrame frame action s = .error (.failure (.ofCause (.depthExceeded limit))) s ∧
      enterFrame frame action s = .error (.failure (.ofCause (.depthExceeded limit))) s := by
  have fails : s.machine.stack.push frame = .error (.depthExceeded limit) :=
    CallStack.push_eq_error_iff.2 ⟨limit, limited, full, rfl⟩
  exact ⟨Action.enterFrame_of_full fails (tracing action), Action.enterFrame_of_full fails action⟩

end Full

/-! ## The limit of a machine -/

/-- What is known of the stacks of a machine: the limit it was built with, and the stacks that have
been taken off it and not been put in place since. -/
structure Custody where
  limit : Option Nat
  taken : List StackId
  deriving DecidableEq

namespace Moment

/-- The live stack of a machine is taken off it, to lie beside the machines under a new name. -/
def keep (m : MachineId) (moment : Moment) (custody : Custody) : Custody :=
  if moment.session.running = m then
    { custody with taken := ⟨moment.session.sharedStacks.size⟩ :: custody.taken }
  else custody

/-- What is known of the stacks of a machine after a moment, if the machine has been built. -/
def custody (m : MachineId) (before : Option Custody) (moment : Moment) : Option Custody :=
  match moment.deed with
  | .build config =>
      if moment.session.machines.size = m.index then some ⟨config.stackLimit, []⟩ else before
  | .install config =>
      if moment.session.running = m then some ⟨config.stackLimit, []⟩ else before
  | .operation (.command (.stack .suspend)) _ => before.map (moment.keep m)
  | .operation (.command (.stack .resume)) xs =>
      match operand xs 0 Object.asStack? with
      | .ok c => before.map fun custody =>
          moment.keep m { custody with taken := custody.taken.filter (· ≠ c) }
      | .error _ => before
  | _ => before

theorem custody_build (before : Option Custody) (config : Config) (s : Session) :
    custody m before ⟨.build config, s⟩ =
      if s.machines.size = m.index then some ⟨config.stackLimit, []⟩ else before := rfl

theorem custody_install (before : Option Custody) (config : Config) (s : Session) :
    custody m before ⟨.install config, s⟩ =
      if s.running = m then some ⟨config.stackLimit, []⟩ else before := rfl

/-- A machine has only stacks put in place that have been taken off it. Machines that take over are
there. -/
def proper (m : MachineId) (custody : Option Custody) (moment : Moment) : Bool :=
  match moment.deed with
  | .operation (.command (.stack .resume)) xs =>
      match operand xs 0 Object.asStack? with
      | .ok c => moment.session.running ≠ m || custody.all fun own => c ∈ own.taken
      | .error _ => true
  | .withMachine k => k.index < moment.session.machines.size
  | _ => true

/-- In a moment a machine does what is proper. -/
def Proper (m : MachineId) (custody : Option Custody) (moment : Moment) : Prop :=
  moment.proper m custody = true

instance (m : MachineId) (custody : Option Custody) (moment : Moment) :
    Decidable (moment.Proper m custody) := inferInstanceAs (Decidable (_ = true))

end Moment

/-- A machine has the limit it was built with, and so have all stacks that have been taken off it;
or it has not been built. -/
inductive Session.Honours (m : MachineId) : Option Custody → Session → Prop
  | absent {s : Session} (absent : s.machines.size ≤ m.index) (other : s.running ≠ m) :
      Honours m none s
  | built {s : Session} {custody : Custody} (present : m.index < s.machines.size)
      (limit : (s.machineAt m).stack.limit = custody.limit)
      (taken : ∀ c ∈ custody.taken,
        c.index < s.sharedStacks.size ∧ (s.stack c).limit = custody.limit) :
      Honours m (some custody) s

namespace Session

theorem stack_share_of_lt (stack : CallStack) {c : StackId}
    (inside : c.index < s.sharedStacks.size) :
    { s with sharedStacks := s.sharedStacks.push stack }.stack c = s.stack c := by
  exact Array.getD_push_of_lt inside stack {}

theorem stack_share_size (s : Session) (stack : CallStack) :
    { s with sharedStacks := s.sharedStacks.push stack }.stack ⟨s.sharedStacks.size⟩ = stack := by
  simp [Session.stack]

theorem stack_putStack_of_ne {c d : StackId} (other : c ≠ d) (stack : CallStack) :
    (s.putStack (some c) stack).stack d = s.stack d := by
  have apart : c.index ≠ d.index := fun same => other (by cases c; cases d; simp_all)
  exact Array.getD_setIfInBounds_of_ne apart stack {}

namespace Honours

variable {a : Option Custody} {stack : CallStack}

/-- Only the machines that are there, the limits of their live stacks, and the stacks beside them
matter. -/
theorem congr (honours : s.Honours m a) (size : t.machines.size = s.machines.size)
    (running : t.running = s.running)
    (limit : (t.machineAt m).stack.limit = (s.machineAt m).stack.limit)
    (shared : t.sharedStacks = s.sharedStacks) : t.Honours m a := by
  cases honours with
  | absent absent other => exact .absent (size ▸ absent) (running ▸ other)
  | built present same taken =>
    refine .built (size ▸ present) (limit.trans same) ?_
    unfold Session.stack
    rw [shared]
    exact taken

theorem still (honours : s.Honours m a) (same : s.Still t) : t.Honours m a :=
  honours.congr (congrArg Array.size same.machines) same.running
    (congrArg (·.stack.limit) (same.machineAt m)) same.sharedStacks

theorem live (honours : s.Honours m a) (here : s.running = m) (own : Custody) (known : own ∈ a) :
    s.machine.stack.limit = own.limit := by
  subst here
  cases known
  cases honours with
  | built present same taken => rwa [machineAt_running] at same

theorem machine (honours : s.Honours m a) {machine : Machine}
    (limit : s.running = m → ∀ own ∈ a, machine.stack.limit = own.limit) :
    { s with machine }.Honours m a := by
  cases honours with
  | absent absent other => exact .absent absent other
  | @built _ custody present same taken =>
    refine .built present ?_ taken
    by_cases here : s.running = m
    · rw [machineAt, if_pos here.symm]
      exact limit here custody rfl
    · rw [machineAt_of_ne (Ne.symm here)]
      exact same

theorem withStack (honours : s.Honours m a) (limit : stack.limit = s.machine.stack.limit) :
    (s.withStack stack).Honours m a :=
  honours.machine fun here own known => limit.trans (honours.live here own known)

theorem switch (honours : s.Honours m a) {k : MachineId} (other : a = none → k ≠ m) :
    (s.switch k).Honours m a := by
  cases honours with
  | absent absent _ =>
    refine .absent (size_switch s k ▸ absent) ?_
    rw [running_switch]
    exact other rfl
  | built present same taken =>
    refine .built (size_switch s k ▸ present) (machineAt_switch present k ▸ same) ?_
    unfold Session.stack
    rwa [sharedStacks_switch]

theorem ne_of_present (honours : s.Honours m a) {k : MachineId}
    (present : k.index < s.machines.size) (none : a = none) : k ≠ m := by
  subst none
  rintro rfl
  obtain ⟨absent, _⟩ := honours
  exact absurd absent (Nat.not_le_of_lt present)

theorem share (honours : s.Honours m a) (stack : CallStack) :
    { s with sharedStacks := s.sharedStacks.push stack }.Honours m a := by
  cases honours with
  | absent absent other => exact .absent absent other
  | built present same taken =>
    refine .built present same fun c place => ?_
    obtain ⟨inside, limit⟩ := taken c place
    rw [stack_share_of_lt stack inside]
    exact ⟨by rw [Array.size_push]; exact Nat.lt_succ_of_lt inside, limit⟩

theorem keep (honours : s.Honours m a) {deed : Deed} {u : Session}
    (size : u.sharedStacks.size = s.sharedStacks.size)
    (live : u.running = m → ∀ own ∈ a, u.machine.stack.limit = own.limit) :
    { s with sharedStacks := s.sharedStacks.push u.machine.stack }.Honours m
      (a.map (Moment.keep m ⟨deed, u⟩)) := by
  cases honours.share u.machine.stack with
  | absent absent other => exact .absent absent other
  | @built _ custody present same taken =>
    by_cases here : u.running = m
    · rw [Option.map_some, Moment.keep, if_pos here]
      refine .built present same (List.forall_mem_cons.2 ⟨?_, taken⟩)
      rw [size, stack_share_size]
      exact ⟨by simp, live here custody rfl⟩
    · rw [Option.map_some, Moment.keep, if_neg here]
      exact .built present same taken

theorem change (honours : s.Honours m a) (target : Option StackId)
    (limit : stack.limit = (s.stackOr target).limit) : (s.putStack target stack).Honours m a := by
  cases target with
  | none => exact honours.withStack limit
  | some c =>
    cases honours with
    | absent absent other => exact .absent absent other
    | built present same taken =>
      refine .built present same fun d place => ?_
      obtain ⟨inside, owned⟩ := taken d place
      refine ⟨by rw [putStack, Array.size_setIfInBounds]; exact inside, ?_⟩
      by_cases is : c = d
      · subst is
        have there : (s.putStack (some c) stack).stack c = stack := by
          simp [Session.stack, putStack, inside]
        rw [there, limit]
        exact owned
      · rw [stack_putStack_of_ne is]
        exact owned

theorem clear (honours : s.Honours m a) (c : StackId) (stack : CallStack) :
    (s.putStack (some c) stack).Honours m
      (a.map fun custody => { custody with taken := custody.taken.filter (· ≠ c) }) := by
  cases honours with
  | absent absent other => exact .absent absent other
  | built present same taken =>
    refine .built present same fun d place => ?_
    obtain ⟨place, other⟩ := List.mem_filter.1 place
    obtain ⟨inside, owned⟩ := taken d place
    refine ⟨by rw [putStack, Array.size_setIfInBounds]; exact inside, ?_⟩
    rw [stack_putStack_of_ne (Ne.symm (of_decide_eq_true other))]
    exact owned

theorem does {command : StackCommand} {xs : List Object} (honours : s.Honours m a)
    (proper : Moment.Proper m a ⟨.operation (.command (.stack command)) xs, s⟩)
    (does : StackCommand.Does s command xs t) :
    t.Honours m (Moment.custody m a ⟨.operation (.command (.stack command)) xs, s⟩) := by
  cases does with
  | make xs limit => exact honours.share _
  | change xs target keeps becomes =>
    have same : Moment.custody m a ⟨.operation (.command (.stack command)) xs, s⟩ = a := by
      cases command <;> first | rfl | exact absurd rfl keeps.1 | exact absurd rfl keeps.2
    rw [same]
    exact honours.change target becomes.limit
  | suspend xs =>
    have emptied : (s.withStack { limit := s.machine.stack.limit }).Honours m a :=
      honours.withStack rfl
    exact emptied.keep rfl honours.live
  | @resume xs c read =>
    have advanced : Moment.custody m a ⟨.operation (.command (.stack .resume)) xs, s⟩ =
        (a.map fun custody => { custody with taken := custody.taken.filter (· ≠ c) }).map
          (Moment.keep m ⟨.operation (.command (.stack .resume)) xs, s⟩) := by
      simp only [Moment.custody, read, Option.map_map]
      rfl
    have placed : (s.withStack (s.stack c)).Honours m a := honours.machine fun here own known => by
      cases known
      have own : c ∈ own.taken := by
        simpa [Moment.Proper, Moment.proper, read, here] using proper
      cases honours with
      | built present same taken => exact (taken c own).2
    rw [advanced]
    refine (placed.clear c {}).keep Array.size_setIfInBounds.symm fun here own known => ?_
    obtain ⟨custody, before, rfl⟩ := Option.map_eq_some_iff.1 known
    exact honours.live here custody before

theorem count (honours : s.Honours m a) (kind : BindingKind) :
    { s with machine := s.machine.countCall kind }.Honours m a := honours.machine honours.live

theorem build (honours : s.Honours m a) (config : Config) (registry : Registry) :
    { s with machines := s.machines.push (.fresh config registry) }.Honours m
      (Moment.custody m a ⟨.build config, s⟩) := by
  rw [Moment.custody_build]
  cases honours with
  | absent absent other =>
    by_cases next : s.machines.size = m.index
    · rw [if_pos next]
      refine .built (by simp [next]) ?_ nofun
      simp [machineAt, Ne.symm other, ← next, Machine.fresh]
    · rw [if_neg next]
      exact .absent (by rw [Array.size_push]; omega) other
  | built present same taken =>
    rw [if_neg (Nat.ne_of_gt present)]
    refine .built (by rw [Array.size_push]; omega) ?_ taken
    rwa [machineAt_push present]

theorem install (honours : s.Honours m a) (config : Config) (registry : Registry) :
    { s with machine := .fresh config registry }.Honours m
      (Moment.custody m a ⟨.install config, s⟩) := by
  rw [Moment.custody_install]
  cases honours with
  | absent absent other =>
    rw [if_neg other]
    exact .absent absent other
  | built present same taken =>
    by_cases here : s.running = m
    · rw [if_pos here]
      refine .built present ?_ nofun
      rw [machineAt, if_pos here.symm]
      rfl
    · rw [if_neg here]
      exact .built present (machineAt_of_ne (Ne.symm here) _ ▸ same) taken

end Honours

end Session

/-- In a moment a machine has the limit it was built with. -/
def Moment.Honours (m : MachineId) (custody : Option Custody) (moment : Moment) : Prop :=
  moment.session.Honours m custody

open Session

variable {a : Option Custody}

theorem custody_of_refused {command : StackCommand} {xs : List Object} {stop : Stop}
    (fails : command.act xs s = .error stop t) :
    Moment.custody m a ⟨.operation (.command (.stack command)) xs, u⟩ = a := by
  cases command with
  | suspend => cases fails
  | resume =>
    cases read : operand xs 0 Object.asStack? with
    | ok c =>
      simp only [StackCommand.act, read] at fails
      cases fails
    | error stop => simp only [Moment.custody, read]
  | stack | push | pop | pushInner | popInner => rfl

theorem custody_of_idle {deed : Deed} (idle : deed.idle) : Moment.custody m a ⟨deed, s⟩ = a := by
  rcases deed with ((_ | _) | (_ | _ | _ | _ | _)) | _ | _ | _ | _ | _ | _ | _ | _ | _ | _
  all_goals first | rfl | cases idle

/-- A machine that is built has its limit as long as only its own stacks are put in place. -/
theorem Course.honours (course : Course due s c ending t)
    (proper : c.Accords (Moment.custody m) (Moment.Proper m) a) (honours : s.Honours m a) :
    c.Accords (Moment.custody m) (Moment.Honours m) a ∧
      t.Honours m (c.foldl (Moment.custody m) a) := by
  induction course generalizing a with
  | still same => exact ⟨trivial, honours.still same⟩
  | gone => exact ⟨trivial, honours⟩
  | raise => exact ⟨⟨honours, trivial⟩, honours⟩
  | refuse fails =>
    rw [List.foldl_cons, custody_of_refused fails]
    exact ⟨⟨honours, trivial⟩, honours⟩
  | note s idle =>
    rw [List.foldl_cons, custody_of_idle idle]
    exact ⟨⟨honours, trivial⟩, honours⟩
  | onwards same _ inner => exact inner proper (honours.still same)
  | seq _ _ first second =>
    rw [Chronicle.accords_append] at proper
    obtain ⟨accords, after⟩ := first proper.1 honours
    obtain ⟨accords', after'⟩ := second proper.2 after
    rw [List.foldl_append]
    exact ⟨Chronicle.accords_append.2 ⟨accords, accords'⟩, after'⟩
  | rescue _ inner =>
    obtain ⟨accords, after⟩ := inner (Chronicle.accords_append.1 proper).1 honours
    rw [List.foldl_append]
    exact ⟨Chronicle.accords_append.2 ⟨accords, after, trivial⟩, after⟩
  | handle acts =>
    exact ⟨⟨honours, trivial⟩, honours.does proper.1 (StackCommand.does_of_ok acts)⟩
  | build s config registry => exact ⟨⟨honours, trivial⟩, honours.build config registry⟩
  | install s config registry => exact ⟨⟨honours, trivial⟩, honours.install config registry⟩
  | @call _ s t b args c ending _ _ inner =>
    have counted := honours.count (s.heap.binding b).strategy.kind
    obtain ⟨accords, after⟩ := inner proper.2 (counted.congr rfl rfl rfl rfl)
    exact ⟨⟨honours, accords⟩, after.congr rfl rfl rfl rfl⟩
  | @overBudget _ s b args cause beyond =>
    have counted := honours.count (s.heap.binding b).strategy.kind
    exact ⟨⟨honours, counted.congr rfl rfl rfl rfl, trivial⟩, counted⟩
  | serve _ inner =>
    obtain ⟨accords, after⟩ := inner proper.2 honours
    exact ⟨⟨honours, accords⟩, after⟩
  | holding _ inner =>
    obtain ⟨accords, after⟩ := inner proper (honours.congr rfl rfl rfl rfl)
    exact ⟨accords, after.congr rfl rfl rfl rfl⟩
  | @frame _ s t traced frame stack c ending pushed _ inner =>
    have entered : (s.withStack stack).Honours m a :=
      honours.withStack (CallStack.Becomes.push pushed).limit
    rw [List.cons_append] at proper ⊢
    obtain ⟨accords, after⟩ := inner (Chronicle.accords_append.1 proper.2).1 entered
    rw [List.foldl_cons, List.foldl_append]
    exact ⟨⟨entered, Chronicle.accords_append.2 ⟨accords, after, trivial⟩⟩, after.withStack rfl⟩
  | shadow _ inner =>
    obtain ⟨accords, after⟩ :=
      inner proper (honours.withStack (CallStack.limit_mapCurrent _ _))
    exact ⟨accords, after.withStack (CallStack.limit_mapCurrent _ _)⟩
  | @switch _ s t k c ending course inner =>
    have present := of_decide_eq_true proper.1
    obtain ⟨accords, after⟩ := inner proper.2 (honours.switch (honours.ne_of_present present))
    refine ⟨⟨honours, accords⟩, after.switch fun none => ?_⟩
    -- if the machine has not been built by now it had not been before
    have size := course.machines.2
    rw [size_switch] at size
    rw [none] at after
    obtain ⟨still, _⟩ := after
    cases honours with
    | absent absent other => exact other
    | built present => exact absurd present (Nat.not_lt_of_le (Nat.le_trans size still))

/-! ## Stacks that lie beside the machines -/

/-- A guarded run leaves alone the stacks that lie beside the machines. -/
theorem Run.stack_kept {s t : Session} (run : Run false s t) (d : StackId)
    (inside : d.index < s.sharedStacks.size) :
    d.index < t.sharedStacks.size ∧ t.stack d = s.stack d := by
  induction run with
  | refl | heap | count | setVariable | dropVariable | report | script | chains | builders
  | machine => exact ⟨inside, rfl⟩
  | trans _ _ first second =>
    obtain ⟨inside', same⟩ := first inside
    obtain ⟨inside'', same'⟩ := second inside'
    exact ⟨inside'', same'.trans same⟩
  | stack s limit =>
    exact ⟨by rw [Array.size_push]; exact Nat.lt_succ_of_lt inside, stack_share_of_lt _ inside⟩
  | install free | handle free => cases free
  | holding _ _ inner | frame _ _ _ inner | shadow _ _ inner => exact inner inside
  | switch _ inner =>
    rw [sharedStacks_switch] at inner ⊢
    unfold Session.stack at inner ⊢
    rw [sharedStacks_switch] at inner ⊢
    exact inner inside

theorem resume_eq (s : Session) (c : StackId) :
    StackCommand.resume.act [.stack c] s =
      .ok (.stack ⟨(s.sharedStacks.setIfInBounds c.index {}).size⟩)
        { s with
          machine := { s.machine with stack := s.stack c }
          sharedStacks := (s.sharedStacks.setIfInBounds c.index {}).push s.machine.stack } := rfl

/-- A stack that has been taken off is put in place again as it was, whatever guarded script has
run meanwhile, and the stack that it replaces is empty and has the same limit. -/
theorem stack_after_suspension (nesting : Nat) (sound : s.Sound)
    (present : s.running.index < s.machines.size)
    (code : ∀ body ∈ s.code, Expr.guardedAll body = true) {body : List Expr}
    (guarded : Expr.guardedAll body = true) :
    ∃ c t, StackCommand.suspend.act [] s = .ok (.stack c) t ∧
      ∃ d u, StackCommand.resume.act [.stack c]
          ((evalBody (runBody nesting) body .void).after t) = .ok (.stack d) u ∧
        u.machine.stack = s.machine.stack ∧ u.stack d = { limit := s.machine.stack.limit } := by
  let c : StackId := ⟨s.sharedStacks.size⟩
  let t := (StackCommand.suspend.act []).after s
  let u := (evalBody (runBody nesting) body .void).after t
  have fit : s.Fit false := { sound with allowed := fun body place => .inr (code body place) }
  have fitT : t.Fit false :=
    (Restacked.leads_act fit.toGrounded .suspend (Heap.hasAll_nil _)).after.fit fit
  have run : Run false t u :=
    (runs_evalBody (runs_runBody nesting) fitT body (.inr guarded) (Heap.hasAll_nil _)).after
  have live : u.machine.stack = { limit := s.machine.stack.limit } := run.stack_eq present
  have inside : c.index < t.sharedStacks.size := by
    show s.sharedStacks.size < (s.sharedStacks.push s.machine.stack).size
    simp
  obtain ⟨inside', kept⟩ := run.stack_kept c inside
  refine ⟨c, t, rfl, _, _, resume_eq u c, ?_, ?_⟩
  · show u.stack c = s.machine.stack
    rw [kept]
    exact stack_share_size { s with machine := _ } s.machine.stack
  · rw [← live]
    exact stack_share_size
      { u with sharedStacks := u.sharedStacks.setIfInBounds c.index {}, machine := _ }
      u.machine.stack

/-! ## Programs -/

namespace Program

theorem succeeds_ofConfig (config : Config) : (Registry.ofConfig config).succeeds blank = true := by
  unfold Registry.ofConfig
  split
  · decide +kernel
  · decide +kernel

theorem ready_eq (config : Config) : ∃ t registry, blank.Still t ∧
    ready config = { t with machine := .fresh config registry } := by
  have succeeds := succeeds_ofConfig config
  have still : blank.Still _ := (quiet_ofConfig config blank).change
  unfold ready Action.after start at *
  simp only [bind, EStateM.bind, Action.succeeds] at *
  cases ends : Registry.ofConfig config blank with
  | ok registry t =>
    rw [ends] at still
    exact ⟨t, registry, still, rfl⟩
  | error stop t =>
    rw [ends] at succeeds
    cases succeeds

theorem withinLimits_ready (config : Config) : (ready config).WithinLimits := by
  obtain ⟨t, registry, still, is⟩ := ready_eq config
  rw [is]
  refine ⟨CallStack.within_empty _, fun machine place => ?_, fun stack place => ?_⟩
  · rw [still.machines] at place
    rw [Array.mem_singleton.1 place]
    exact CallStack.within_empty _
  · rw [still.sharedStacks] at place
    exact absurd place (Array.not_mem_empty stack)

/-- The machine that programs start on is built with the limit of the configuration. -/
theorem honours_ready (config : Config) :
    (ready config).Honours ⟨0⟩ (some ⟨config.stackLimit, []⟩) := by
  obtain ⟨t, registry, still, is⟩ := ready_eq config
  have running : (⟨0⟩ : MachineId) = t.running := still.running.symm
  rw [is]
  refine .built ?_ ?_ nofun
  · rw [still.machines]
    decide
  · rw [machineAt, if_pos running]
    rfl

end Program

/-- What becomes of the stacks of a session. -/
structure Session.KeepsStacks (s : Session) : Prop where
  /-- A stack that is suspended while a guarded script runs is resumed as it was, whatever the
  script does. The stack that it replaces is empty and has the same limit. -/
  suspended : s.Sound → s.running.index < s.machines.size →
    (∀ body ∈ s.code, Expr.guardedAll body = true) →
    ∀ nesting body, Expr.guardedAll body = true →
      ∃ c t, StackCommand.suspend.act [] s = .ok (.stack c) t ∧
        ∃ d u, StackCommand.resume.act [.stack c]
            ((evalBody (runBody nesting) body .void).after t) = .ok (.stack d) u ∧
          u.machine.stack = s.machine.stack ∧ u.stack d = { limit := s.machine.stack.limit }
  /-- In every moment of a run, and after it, all stacks are within their limits. -/
  within : s.WithinLimits → ∀ steps : List Expr,
    (∀ moment ∈ Program.chronicle steps s, moment.session.WithinLimits) ∧
      ((Program.runSteps steps).after s).WithinLimits
  /-- A frame that is pushed on a full stack, by hand or to run something in, is refused, and
  nothing changes. -/
  full : ∀ (target : Option StackId) (limit : Nat), (s.stackOr target).limit = some limit →
    limit ≤ (s.stackOr target).depth → ∀ frame,
      StackCommand.push.act [.ofOption .stack target, .frame frame] s =
          .error (.failure (.ofCause (.depthExceeded limit))) s ∧
        (target = none → ∀ (α : Type) (action : Action α),
          withFrame frame action s = .error (.failure (.ofCause (.depthExceeded limit))) s ∧
            enterFrame frame action s =
              .error (.failure (.ofCause (.depthExceeded limit))) s)
  /-- A machine on which only its own stacks are put in place has the limit it was built with, in
  every moment of a run and after it. -/
  enforced : ∀ (m : MachineId) (a : Option Custody), s.Honours m a → ∀ steps : List Expr,
    (Program.chronicle steps s).Accords (Moment.custody m) (Moment.Proper m) a →
      (Program.chronicle steps s).Accords (Moment.custody m) (Moment.Honours m) a ∧
        ((Program.runSteps steps).after s).Honours m
          ((Program.chronicle steps s).foldl (Moment.custody m) a)

/-- Suspended stacks are isolated, and limits hold: of every session, and so of those that programs
start from, in which all stacks are within their limits and the machine has the limit of the
configuration. -/
theorem keeps_stacks : (∀ s : Session, s.KeepsStacks) ∧ ∀ config : Config,
    (Program.ready config).WithinLimits ∧
      (Program.ready config).Honours ⟨0⟩ (some ⟨config.stackLimit, []⟩) := by
  refine ⟨fun s => ⟨?_, ?_, ?_, ?_⟩, fun config => ⟨?_, ?_⟩⟩
  · exact fun sound present code nesting body guarded =>
      stack_after_suspension nesting sound present code guarded
  · exact fun limits steps => (Program.takes_chronicle steps).withinLimits limits
  · exact fun target limit limited full frame =>
      ⟨push_of_full limited full frame, fun live α action => by
        subst live
        exact frames_of_full limited full frame action⟩
  · exact fun m a honours steps proper => (Program.takes_chronicle steps).honours proper honours
  · exact Program.withinLimits_ready config
  · exact Program.honours_ready config

/-- A machine with a limit of two whose stack is suspended and resumed. -/
theorem keeps_stacks_of_two :
    let s := Program.ready { depthLimit := some (some 2) }
    let steps : List Expr :=
      [.bind "old" (.apply (.command (.stack .suspend)) []),
        .apply (.command (.stack .resume)) [.var "old"]]
    let t := (Program.runSteps steps).after s
    t.WithinLimits ∧ t.Honours ⟨0⟩ (some ⟨some 2, [⟨1⟩]⟩) := by
  intro s steps t
  obtain ⟨within, honours⟩ := keeps_stacks.2 { depthLimit := some (some 2) }
  have proper : (Program.chronicle steps s).Accords (Moment.custody ⟨0⟩) (Moment.Proper ⟨0⟩)
      (some ⟨some 2, []⟩) := by decide +kernel
  have custody : (Program.chronicle steps s).foldl (Moment.custody ⟨0⟩) (some ⟨some 2, []⟩) =
      some ⟨some 2, [⟨1⟩]⟩ := by decide +kernel
  refine ⟨((keeps_stacks.1 s).within within steps).2, ?_⟩
  rw [← custody]
  exact ((keeps_stacks.1 s).enforced ⟨0⟩ _ honours steps proper).2

end Delegation
