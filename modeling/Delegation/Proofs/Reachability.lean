import Delegation.Proofs.Run.Start

/-!
# Sessions that programs reach

Seen from outside, a session changes in steps: its heap stays as it is or takes a step of its own,
and everything else may change in any way that refers to what is in the heap. Programs change
sessions in no other way, and drops of whatever is held are among these steps. The sessions that are
reached in steps from the first one are sound. A list keeps the entities that others have been built
on, one entry for each time that succeeded.
-/

namespace Delegation

/-! ## Building -/

theorem buildEntity_of_free {s : Session} {super : Option EntityId}
    (free : ∀ base ∈ super, (s.heap.entity base).derived = none) (type : Option EntityId)
    (name : String) : buildEntity super type name s =
      .ok (s.heap.addEntity super type name).1
        { s with heap := (s.heap.addEntity super type name).2 } := by
  have unlinked : (super.filter fun base => (s.heap.entity base).derived.isSome) = none := by
    cases super with
    | none => rfl
    | some base => simp [Option.filter, free base rfl]
  simp only [buildEntity, bind, EStateM.bind, Action.get_eq_ok, unlinked]
  rfl

theorem buildEntity_of_taken {s : Session} {base d : EntityId}
    (taken : (s.heap.entity base).derived = some d) (type : Option EntityId) (name : String) :
    buildEntity (some base) type name s =
      .error (.failure (.ofCause (.alreadyDerived (s.heap.entity base).name))) s := by
  have linked :
      ((some base).filter fun base => (s.heap.entity base).derived.isSome) = some base := by
    simp [Option.filter, taken]
  simp only [buildEntity, bind, EStateM.bind, Action.get_eq_ok, linked]
  rfl

theorem buildEntity_eq_ok {s t : Session} {super type : Option EntityId} {name : String}
    {e : EntityId} (builds : buildEntity super type name s = .ok e t) :
    (∀ base ∈ super, (s.heap.entity base).derived = none) ∧
      t = { s with heap := (s.heap.addEntity super type name).2 } := by
  have free : ∀ base ∈ super, (s.heap.entity base).derived = none := by
    intro base is
    cases is
    cases taken : (s.heap.entity base).derived with
    | none => rfl
    | some d =>
      rw [buildEntity_of_taken taken] at builds
      cases builds
  rw [buildEntity_of_free free] at builds
  cases builds
  exact ⟨free, rfl⟩

/-! ## Steps -/

namespace Session

/-- What a session may become at once. -/
structure Step (s t : Session) : Prop where
  heap : t.heap = s.heap ∨ Heap.Step (fun frame => frame = s.machine.currentFrame) s.heap t.heap
  grounded : t.Grounded

/-- What a session may become. -/
def Later : Session → Session → Prop := Relation.ReflTransGen Step

/-- The sessions that are reached in steps from the first one, and the entities that others have
been built on, latest first. -/
inductive Reached : List EntityId → Session → Prop
  | start : Reached [] Program.founded
  | build {built : List EntityId} {s t : Session} {super type : Option EntityId} {name : String}
      {e : EntityId} (before : Reached built s)
      (superKnown : ∀ base ∈ super, s.heap.Has (.entity base))
      (typeKnown : ∀ known ∈ type, s.heap.Has (.entity known))
      (builds : buildEntity super type name s = .ok e t) : Reached (super.toList ++ built) t
  | other {built : List EntityId} {s t : Session} (before : Reached built s) (step : Step s t)
      (entities : t.heap.entities = s.heap.entities) : Reached built t

variable {s t : Session}

theorem Sound.fit (sound : s.Sound) : s.Fit true := { sound with allowed := fun _ _ => .inl rfl }

theorem Later.heap (later : Later s t) : s.heap.Later t.heap := by
  induction later with
  | refl => exact .refl
  | @tail t u _ step ih =>
    rcases step.heap with same | step
    · rw [same]
      exact ih
    · exact ih.tail (step.mono fun _ _ => trivial)

theorem Later.sound (later : Later s t) (sound : s.Sound) : t.Sound := by
  rcases later.cases_tail with rfl | ⟨u, _, step⟩
  · exact sound
  · exact { step.grounded with heap := later.heap.sound sound.heap }

theorem Reached.sound {built : List EntityId} (reached : Reached built s) : s.Sound := by
  induction reached with
  | start =>
    have fit : Program.founded.Fit true := Program.fit_founded
    exact fit.toSound
  | @build built s t super type name e _ superKnown typeKnown builds sound =>
    obtain ⟨free, rfl⟩ := buildEntity_eq_ok builds
    have step : Heap.Step (fun _ => True) s.heap (s.heap.addEntity super type name).2 :=
      .addEntity name superKnown typeKnown free
    exact { sound.toGrounded.grow step.grows with heap := step.sound sound.heap }
  | other _ step _ sound =>
    have later : Later _ _ := .single step
    exact later.sound sound

/-- Whatever happens to a session that has been reached leads to one that is reached. -/
theorem Reached.later {built : List EntityId} (reached : Reached built s) (later : Later s t) :
    ∃ more, Reached (more ++ built) t := by
  induction later with
  | refl => exact ⟨[], reached⟩
  | @tail t u _ step ih =>
    obtain ⟨more, before⟩ := ih
    have other (same : u.heap.entities = t.heap.entities) : ∃ more, Reached (more ++ built) u :=
      ⟨more, .other before step same⟩
    rcases step.heap with same | heapStep
    · exact other (congrArg Heap.entities same)
    · rcases heapStep.entities with same | ⟨super, type, name, superKnown, typeKnown, free, is⟩
      · exact other same
      · have builds := buildEntity_of_free free type name
        rw [← is] at builds
        refine ⟨super.toList ++ more, ?_⟩
        rw [List.append_assoc]
        exact .other (.build before superKnown typeKnown builds) ⟨.inl rfl, step.grounded⟩ rfl

/-- A session that is reached, whatever has been built on the way. -/
def Reachable (s : Session) : Prop := ∃ built, Reached built s

theorem Reachable.sound (reachable : s.Reachable) : s.Sound := by
  obtain ⟨_, reached⟩ := reachable
  exact reached.sound

theorem Reachable.later (reachable : s.Reachable) (later : Later s t) : t.Reachable := by
  obtain ⟨_, reached⟩ := reachable
  obtain ⟨_, after⟩ := reached.later later
  exact ⟨_, after⟩

end Session

/-! ## Programs -/

open Session in
theorem Run.steps {raw : Bool} {s t : Session} (run : Run raw s t) (fit : s.Fit raw) :
    Later s t := by
  have still {s t : Session} (same : t.heap = s.heap) (grounded : t.Grounded) : Later s t :=
    .single ⟨.inl same, grounded⟩
  have ends := run.fit fit
  induction run with
  | refl => exact .refl
  | trans first second ihFirst ihSecond =>
    have middle := first.fit fit
    exact (ihFirst fit middle).trans (ihSecond middle ends)
  | heap step => exact .single ⟨.inr step, ends.toGrounded⟩
  | count | setVariable | dropVariable | report | script | chains | builders | stack | machine
  | install => exact still rfl ends.toGrounded
  | handle _ command known =>
    exact still (Restacked.leads_act fit.toGrounded command known).after.heap ends.toGrounded
  | @holding s t x known inner ih =>
    have held := fit.hold known
    have enter : Later s { s with held := x :: s.held } := still rfl held.toGrounded
    have leave : Later t { t with held := s.held } := still rfl ends.toGrounded
    exact (enter.trans (ih held (inner.fit held))).trans leave
  | @frame s t frame stack known pushed inner ih =>
    have entered := fit.withStack
      (by rw [CallStack.owned_push pushed]; exact Heap.hasAll_append.2 ⟨known, fit.stack⟩)
    have enter : Later s { s with machine := { s.machine with stack } } :=
      still rfl entered.toGrounded
    have leave : Later t t.popFrame := still rfl ends.toGrounded
    exact (enter.trans (ih entered (inner.fit entered))).trans leave
  | @shadow s t x known inner ih =>
    have shadowed := fit.pushInner known
    have enter : Later s (s.mapFrame (·.pushInner x)) := still rfl shadowed.toGrounded
    have leave : Later t (t.mapFrame Frame.popInner) := still rfl ends.toGrounded
    exact (enter.trans (ih shadowed (inner.fit shadowed))).trans leave
  | @switch s t m inner ih =>
    have switched := fit.switch m
    have enter : Later s (s.switch m) := still (s.heap_switch m) switched.toGrounded
    have leave : Later t (t.switch s.running) := still (t.heap_switch _) ends.toGrounded
    exact (enter.trans (ih switched (inner.fit switched))).trans leave

namespace Program

/-- Whatever programs do, they start from a session that is reached and reach others. -/
theorem later_ready (config : Config) : Session.Later founded (ready config) := by
  have fit : founded.Fit true := fit_founded
  apply ready_of_founded (fun t run => run.steps fit)
  intro t registry fit known later
  have replaced : Session.Fit true { t with machine := .fresh config registry } :=
    { fit with machine := known }
  exact later.tail ⟨.inl rfl, replaced.toGrounded⟩

theorem reachable_ready (config : Config) : (ready config).Reachable :=
  Session.Reachable.later ⟨[], .start⟩ (later_ready config)

theorem later_runSteps {s : Session} (sound : s.Sound) (steps : List Expr) :
    s.Later ((runSteps steps).after s) :=
  (runs_runSteps sound.fit (.inl rfl)).after.steps sound.fit

/-- Every session between the steps of a program is reached. -/
theorem reachable_runSteps (config : Config) (steps : List Expr) :
    ((runSteps steps).after (ready config)).Reachable :=
  have reachable := reachable_ready config
  reachable.later (later_runSteps reachable.sound steps)

end Program

end Delegation
