import Delegation.Proofs.Run.Evaluation

/-!
# The first sessions

A blank session has no globals, so nothing can be said to be in its heap. Setting up a machine
begins with the scope of the globals, and from there on it is a run; so all programs start from a
session that is fit, whatever their configuration.
-/

namespace Delegation

open Delegation.Action

variable {raw : Bool}

namespace Program

/-- The session in which the globals of the first machine have been made, and nothing else. -/
def founded : Session := { blank with heap := (blank.heap.addScope (.root .identifier)).2 }

/-- The session in which the steps of a program with the given configuration start. -/
def ready (config : Config) : Session := (start config).after blank

theorem step_founded :
    Heap.Step (fun frame => frame = blank.machine.currentFrame) blank.heap founded.heap :=
  .addScope ⟨⟨none, rfl⟩, nofun, .nil, nofun⟩

theorem fit_founded : founded.Fit raw where
  inhabited := Nat.zero_lt_one
  vars := nofun
  held := nofun
  machine := Heap.hasAll_cons.2 ⟨Nat.zero_lt_one, Heap.hasAll_nil _⟩
  machines machine place := by
    rw [Array.mem_singleton.1 place]
    exact Heap.hasAll_cons.2 ⟨Nat.zero_lt_one, Heap.hasAll_nil _⟩
  chains := nofun
  sharedStacks := nofun
  builders := nofun
  heap := step_founded.sound Heap.sound_empty
  allowed := nofun

theorem hasAll_founded : founded.heap.HasAll (Registry.owned ⟨⟨0⟩, [], []⟩) :=
  Heap.hasAll_cons.2 ⟨Nat.zero_lt_one, Heap.hasAll_nil _⟩

theorem start_blank (next : Registry → Action Registry) :
    (Registry.start >>= next) blank = next ⟨⟨0⟩, [], []⟩ founded := rfl

theorem runs_ofConfig_of_start {s t : Session} {registry : Registry}
    (starts : ∀ next : Registry → Action Registry, (Registry.start >>= next) s = next registry t)
    (fit : t.Fit raw) (known : t.heap.HasAll registry.owned) (config : Config) :
    ∃ rest : Action Registry, Registry.ofConfig config s = rest t ∧
      Runs raw t rest Registry.owned := by
  unfold Registry.ofConfig
  split
  · exact ⟨_, starts Registry.finishCore, registry.runs_finishCore fit known⟩
  · exact ⟨_, starts Registry.finish, registry.runs_finish fit known⟩

/-- Programs start from a session that a run and the setting up of a machine lead to. -/
theorem ready_of_founded {P : Session → Prop} {config : Config}
    (ran : ∀ t, Run raw founded t → P t)
    (installed : ∀ t registry, t.Fit raw → t.heap.HasAll (Registry.owned registry) → P t →
      P { t with machine := .fresh config registry }) : P (ready config) := by
  have founds : founded.Fit raw := fit_founded
  obtain ⟨rest, is, runs⟩ := runs_ofConfig_of_start start_blank founds hasAll_founded config
  have made : (Registry.ofConfig config).Leads (fun _ t => t.Fit raw ∧ P t) blank
      fun t registry => t.heap.HasAll registry.owned := by
    have leads : rest.Leads (fun _ t => t.Fit raw ∧ P t) founded fun t registry =>
        t.heap.HasAll registry.owned :=
      Leads.change runs ⟨runs.after.fit founds, ran _ runs.after⟩
    unfold Leads at leads ⊢
    rw [is]
    exact leads
  have sets : (start config).Leads (fun _ t => t.Fit raw ∧ P t) blank fun _ _ => True :=
    made.bind (fun _ second => second) fun t registry ⟨fit, holds⟩ known =>
      ⟨⟨{ fit with machine := known }, installed t registry fit known holds⟩, trivial⟩
  exact sets.after.2

/-- Programs start from a fit session. -/
theorem fit_ready (config : Config) : (ready config).Fit raw :=
  ready_of_founded (fun _ run => run.fit fit_founded) fun _ _ fit known _ =>
    { fit with machine := known }

end Program

end Delegation
