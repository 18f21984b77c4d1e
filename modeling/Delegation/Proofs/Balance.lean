import Delegation.Proofs.Run.Start

/-!
# Stacks are balanced

A guarded script touches the stack of a machine only through brackets, which pop what is foremost
when their body ends. That this is what they pushed follows because the body is balanced itself: by
induction on a run, every machine has the stack afterwards that it had before, the running one and
those that a body changes over to, whatever way the bodies end.
-/

namespace Delegation

/-- The machine that runs is the same in two sessions, and so are the stacks of all machines of the
first. -/
structure Balanced (s t : Session) : Prop where
  running : t.running = s.running
  machines : s.machines.size ≤ t.machines.size
  kept : ∀ m : MachineId, m.index < s.machines.size →
    (t.machineAt m).stack = (s.machineAt m).stack

namespace Balanced

variable {s t u : Session}

theorem refl (s : Session) : Balanced s s := ⟨rfl, Nat.le_refl _, fun _ _ => rfl⟩

theorem trans (first : Balanced s t) (second : Balanced t u) : Balanced s u where
  running := second.running.trans first.running
  machines := Nat.le_trans first.machines second.machines
  kept m old :=
    (second.kept m (Nat.lt_of_lt_of_le old first.machines)).trans (first.kept m old)

theorem of_same (running : t.running = s.running) (machines : t.machines = s.machines)
    (stack : t.machine.stack = s.machine.stack) : Balanced s t where
  running := running
  machines := Nat.le_of_eq (congrArg Array.size machines.symm)
  kept m _ := by
    unfold Session.machineAt
    rw [running, machines]
    split
    · exact stack
    · rfl

/-- What is undone to the current stack undoes what was done to it if all in between is balanced. -/
theorem undo {f g : CallStack → CallStack} (undoes : g (f s.machine.stack) = s.machine.stack)
    (inner : Balanced { s with machine := { s.machine with stack := f s.machine.stack } } t) :
    Balanced s { t with machine := { t.machine with stack := g t.machine.stack } } where
  running := inner.running
  machines := inner.machines
  kept m old := by
    have same := inner.kept m old
    have running : t.running = s.running := inner.running
    unfold Session.machineAt at same ⊢
    dsimp only at same ⊢
    rw [running] at same ⊢
    by_cases current : m = s.running
    · rw [if_pos current] at same ⊢
      rw [if_pos current] at same ⊢
      rw [same, undoes]
    · rw [if_neg current] at same ⊢
      rw [if_neg current] at same ⊢
      exact same

theorem newMachine (s : Session) (machine : Machine) :
    Balanced s { s with machines := s.machines.push machine } where
  running := rfl
  machines := Nat.le_of_lt (by simp)
  kept _ old := congrArg Machine.stack (Session.machineAt_push old machine)

theorem frame {frame : Frame} {stack : CallStack} (pushed : s.machine.stack.push frame = .ok stack)
    (inner : Balanced { s with machine := { s.machine with stack } } t) : Balanced s t.popFrame :=
  .undo (f := fun _ => stack) (CallStack.pop_of_push pushed) inner

theorem shadow {x : ScopeId} (inner : Balanced (s.mapFrame (·.pushInner x)) t) :
    Balanced s (t.mapFrame Frame.popInner) := by
  refine .undo (f := (·.mapCurrent (·.pushInner x))) (g := (·.mapCurrent Frame.popInner)) ?_ inner
  simp only [CallStack.mapCurrent_mapCurrent, Frame.popInner_pushInner, CallStack.mapCurrent_self]

theorem switch {m : MachineId} (inner : Balanced (s.switch m) t) :
    Balanced s (t.switch s.running) := by
  have size := s.size_switch m
  have grown : s.machines.size ≤ t.machines.size := size ▸ inner.machines
  refine ⟨t.running_switch s.running, ?_, fun k old => ?_⟩
  · rw [Session.size_switch]
    exact grown
  · rw [Session.machineAt_switch (Nat.lt_of_lt_of_le old grown), inner.kept k (size ▸ old),
      Session.machineAt_switch old]

theorem stack_eq (balanced : Balanced s t) (present : s.running.index < s.machines.size) :
    t.machine.stack = s.machine.stack := by
  have kept := balanced.kept s.running present
  rwa [Session.machineAt, Session.machineAt, if_pos balanced.running.symm, if_pos rfl] at kept

end Balanced

/-- Every guarded run is balanced. -/
theorem Run.balanced {s t : Session} (run : Run false s t) : Balanced s t := by
  induction run with
  | refl => exact .refl _
  | trans _ _ first second => exact first.trans second
  | heap | count | setVariable | dropVariable | report | script | chains | builders | stack =>
    exact .of_same rfl rfl rfl
  | machine => exact .newMachine _ _
  | install free | handle free => cases free
  | holding known _ inner => exact ⟨inner.running, inner.machines, inner.kept⟩
  | frame _ pushed _ inner => exact inner.frame pushed
  | shadow _ _ inner => exact inner.shadow
  | switch _ inner => exact inner.switch

/-- Whatever way a guarded expression ends, and whatever bodies it runs on the way, the stack of the
running machine is the one before, and so are those of all other machines. -/
theorem stack_after_eval (nesting : Nat) {s : Session} (sound : s.Sound)
    (present : s.running.index < s.machines.size)
    (code : ∀ body ∈ s.code, Expr.guardedAll body = true) {e : Expr} (guarded : e.guarded = true) :
    ((eval (runBody nesting) e).after s).machine.stack = s.machine.stack ∧
      ∀ m : MachineId, m.index < s.machines.size →
        (((eval (runBody nesting) e).after s).machineAt m).stack = (s.machineAt m).stack := by
  have fit : s.Fit false := { sound with allowed := fun body place => .inr (code body place) }
  have balanced := (runs_eval (runs_runBody nesting) fit e (.inr guarded)).after.balanced
  refine ⟨?_, balanced.kept⟩
  have current := balanced.kept s.running present
  rwa [Session.machineAt, Session.machineAt, if_pos balanced.running.symm, if_pos rfl] at current

/-- A frame whose body fails with a scope in front of the chain, after a failure that it has caught.
-/
theorem stack_after_failing_body :
    let e : Expr := .withFrame (.apply (.query (.machine .toplevelFrame)) [])
      [.rescue [.apply (.query (.failure .fail)) [.str "caught"]],
        .withScope (.apply (.command (.table .scope)) [.str "identifier"])
          [.apply (.command (.call .lookup)) [.str "missing"]]]
    ((eval (runBody 1) e).after (Program.ready {})).machine.stack =
      (Program.ready {}).machine.stack :=
  have fit : (Program.ready {}).Fit false := Program.fit_ready {}
  (stack_after_eval 1 fit.toSound (by decide)
    (fun body place => (fit.allowed body place).resolve_left nofun) rfl).1

end Delegation
