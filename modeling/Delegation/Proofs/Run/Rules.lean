import Delegation.Evaluation
import Delegation.Proofs.Run.Soundness

/-!
# Rules for actions that run

An action is shown to make a run by rules that follow the way it is put together. Its result comes
with the things it refers to, which are in the heap afterwards; they are named by a function of the
result. What is done and undone around an action has a rule for each sort of bracket: inside, the
session is fit and has the heap from outside.
-/

namespace Delegation

variable {α β : Type} {raw : Bool} {s : Session}

/-- The action makes a run from a session, and what its result refers to is in the heap then. -/
def Action.Runs (raw : Bool) (s : Session) (action : Action α) (refs : α → List Node) : Prop :=
  action.Leads (Run raw) s fun t a => t.heap.HasAll (refs a)

/-- All bodies run, from every fit session. -/
def Runner.Runs (raw : Bool) (run : Runner) : Prop :=
  ∀ s body, s.Fit raw → Action.Runs raw s (run body) Value.owned

namespace Action

variable {refs : α → List Node} {refs' : β → List Node} {action : Action α}

/-! ## Sequences -/

theorem runs_pure {a : α} (known : s.heap.HasAll (refs a)) : Runs raw s (pure a) refs :=
  leads_pure (.refl s) known

theorem runs_fail (cause : Cause) : Runs raw s (fail cause) refs := leads_fail (.refl s) cause

theorem runs_throw (stop : Stop) : Runs raw s (throw stop) refs := leads_throw (.refl s) stop

theorem runs_malformed (reason : String) : Runs raw s (malformed reason) refs :=
  leads_malformed (.refl s) reason

theorem Runs.bind {next : α → Action β} (first : Runs raw s action refs) (fit : s.Fit raw)
    (second : ∀ t a, Run raw s t → t.Fit raw → t.heap.HasAll (refs a) → Runs raw t (next a) refs') :
    Runs raw s (action >>= next) refs' :=
  Leads.bind .trans first fun t a run known => second t a run (run.fit fit) known

/-- An action whose result is changed into another that refers to nothing else. -/
theorem Runs.map {f : α → β} (first : Runs raw s action refs)
    (within : ∀ a, refs' (f a) ⊆ refs a) : Runs raw s (action >>= fun a => pure (f a)) refs' :=
  Leads.bind .trans first fun _ a _ known => runs_pure fun x place => known x (within a place)

theorem runs_get_bind {next : Session → Action α} (runs : Runs raw s (next s) refs) :
    Runs raw s (get >>= next) refs := runs

theorem runs_lift_bind {found : Except Stop β} {next : β → Action α}
    (runs : ∀ b, found = .ok b → Runs raw s (next b) refs) :
    Runs raw s ((liftM found : Action β) >>= next) refs := leads_lift_bind (.refl s) runs

theorem Runs.attempt (runs : Runs raw s action refs) :
    Runs raw s (attempt action) fun result => result.toOption.elim [] refs := by
  apply Leads.weaken (Leads.attempt runs)
  intro t result _ known
  cases result with
  | error failure => exact Heap.hasAll_nil _
  | ok a => exact known a rfl

theorem Runs.mapFailure (runs : Runs raw s action refs) (f : Failure → Failure) :
    Runs raw s (mapFailure f action) refs := Leads.mapFailure runs f

/-! ## Brackets -/

theorem runs_holding {x : Object} (fit : s.Fit raw) (known : s.heap.HasAll x.refs)
    (inner : ∀ t, t.Fit raw → t.heap = s.heap → Runs raw t action refs) :
    Runs raw s (holding x action) refs :=
  (inner _ (fit.hold known) rfl).bracket rfl (fun _ run => .holding known run) fun _ _ is => is

theorem Runs.tracing (runs : Runs raw s action refs) : Runs raw s (tracing action) refs := by
  simp only [Runs, Leads, Delegation.tracing] at runs ⊢
  split at runs
  · next ends =>
    rw [ends]
    exact runs
  · next stop _ ends =>
    rw [ends]
    cases stop <;> exact runs

theorem runs_enterFrame {frame : Frame} (fit : s.Fit raw) (known : s.heap.HasAll frame.owned)
    (inner : ∀ t, t.Fit raw → t.heap = s.heap → Runs raw t action refs) :
    Runs raw s (enterFrame frame action) refs := by
  cases fits : s.machine.stack.push frame with
  | error cause =>
    have full : enterFrame frame action s = fail cause s := by
      simp only [enterFrame, pushFrame, fits]
      rfl
    have fails : Runs raw s (fail cause) refs := runs_fail cause
    simpa only [Runs, Leads, full] using fails
  | ok stack =>
    have stackKnown : s.heap.HasAll stack.owned := by
      rw [CallStack.owned_push fits]
      exact Heap.hasAll_append.2 ⟨known, fit.stack⟩
    have is : enterFrame frame action s = bracket { s with machine := { s.machine with stack } }
        Session.popFrame action := by
      simp only [enterFrame, pushFrame, fits]
      rfl
    exact (inner _ (fit.withStack stackKnown) rfl).bracket is
      (fun _ run => .frame known fits run) fun _ _ is => is

theorem runs_withFrame {frame : Frame} (fit : s.Fit raw) (known : s.heap.HasAll frame.owned)
    (inner : ∀ t, t.Fit raw → t.heap = s.heap → Runs raw t action refs) :
    Runs raw s (withFrame frame action) refs :=
  runs_enterFrame fit known fun t fit same => (inner t fit same).tracing

theorem runs_shadowing {x : ScopeId} (fit : s.Fit raw) (known : s.heap.Has (.scope x))
    (inner : ∀ t, t.Fit raw → t.heap = s.heap → Runs raw t action refs) :
    Runs raw s (shadowing x action) refs :=
  (inner _ (fit.pushInner known) rfl).bracket rfl (fun _ run => .shadow known run) fun _ _ is => is

theorem runs_withScope {x : ScopeId} (fit : s.Fit raw) (known : s.heap.Has (.scope x))
    (inner : ∀ t, t.Fit raw → t.heap = s.heap → Runs raw t action refs) :
    Runs raw s (withScope x action) refs := by
  have toplevel : s.heap.HasAll s.machine.toplevelFrame.owned :=
    Heap.hasAll_cons.2 ⟨fit.globals, Heap.hasAll_nil _⟩
  by_cases outside : s.machine.stack.frames.isEmpty
  · have entered : Runs raw s (withFrame s.machine.toplevelFrame (shadowing x action)) refs :=
      runs_withFrame fit toplevel fun t fit same =>
        runs_shadowing fit (same ▸ known) fun u fit same' => inner u fit (same'.trans same)
    simpa only [Runs, Leads, withScope, if_pos outside] using entered
  · have shadowed : Runs raw s (shadowing x action) refs := runs_shadowing fit known inner
    simpa only [Runs, Leads, withScope, if_neg outside] using shadowed

theorem runs_onMachine {m : MachineId} (fit : s.Fit raw)
    (inner : ∀ t, t.Fit raw → t.heap = s.heap → Runs raw t action refs) :
    Runs raw s (onMachine m action) refs := by
  have runs : Runs raw (s.switch m) (holding (.machine s.running) action) refs :=
    runs_holding (fit.switch m) (Heap.hasAll_nil _) fun t fit same =>
      inner t fit (same.trans (s.heap_switch m))
  apply runs.bracket rfl (fun _ run => .switch run)
  intro t a is
  rw [Session.heap_switch]
  exact is

/-! ## Steps on the heap -/

theorem runs_onHeap {f : Heap → α × Heap}
    (step : Heap.Step (fun frame => frame = s.machine.currentFrame) s.heap (f s.heap).2)
    (known : (f s.heap).2.HasAll (refs (f s.heap).1)) : Runs raw s (onHeap f) refs :=
  ⟨.heap step, known⟩

theorem runs_newScope {scope : Scope} (admitted : s.heap.Admits scope) :
    Runs raw s (newScope scope) fun x => [.scope x] :=
  runs_onHeap (.addScope admitted) (by simp [Heap.addScope, Heap.Has])

theorem runs_newBinding (binding : Binding) (known : s.heap.HasAll binding.strategy.refs)
    (captured : ∀ frame, binding.strategy = .closure frame → frame = s.machine.currentFrame) :
    Runs raw s (newBinding binding) fun b => [.binding b] :=
  runs_onHeap (.addBinding known captured) (by simp [Heap.addBinding, Heap.Has])

theorem runs_declare {x : ScopeId} {name : String} {cell : Cell} (known : s.heap.Has (.scope x))
    (cellKnown : s.heap.HasAll cell.owned) : Runs raw s (declare x name cell) fun _ => [] := by
  apply runs_get_bind
  split
  · next declared => exact runs_onHeap (.declare known cellKnown declared) (Heap.hasAll_nil _)
  · exact runs_fail _

theorem runs_close {x : ScopeId} (known : s.heap.Has (.scope x)) :
    Runs raw s (onHeap fun heap => ((), heap.modifyScope x Scope.close)) fun _ => [] :=
  runs_onHeap (.close known) (Heap.hasAll_nil _)

end Action

end Delegation
