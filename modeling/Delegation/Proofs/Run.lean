import Delegation.Program
import Delegation.Proofs.Heap.Shape
import Delegation.Proofs.Outcome
import Delegation.Proofs.Places

/-!
# What a run does to a session

The forms and operations of a script act on a session in few ways. The heap takes a step, a call is
counted, a variable or a shared thing is set, the report grows; and an action may run in between of
something done and the same thing undone: an object is held and let go, a frame is pushed and
popped, a scope is put in front of the current chain and taken away, another machine takes over and
gives way again. `Run` says so once. What is undone is done to whatever is foremost then, as
evaluation does it, not to what was put there; that these agree has to be proved.

Only the commands on stacks and the installation of a machine replace a stack outright. Scripts
without them are called guarded, and their runs are told apart by an index.
-/

namespace Delegation

/-! ## What a session refers to -/

mutual

/-- What an object refers to by itself, whether it owns it or not. What is behind the name of a
shared thing belongs to the session. -/
def Object.refs : Object → List Node
  | .value v => v.owned
  | .scope s => [.scope s]
  | .cell c => c.owned
  | .frame f => f.owned
  | .weak e => [.entity e]
  | .registry r => r.owned
  | .list items => refsAll items
  | .chain _ | .callable _ | .stack _ | .failure _ | .builder _ | .machine _ => []

/-- What the objects of a list refer to. -/
def Object.refsAll : List Object → List Node
  | [] => []
  | x :: xs => x.refs ++ refsAll xs

end

namespace Session

/-- All that a session refers to is in its heap. Its heap is never without a scope: the globals of
the first machine come first. -/
structure Grounded (session : Session) : Prop where
  inhabited : 0 < session.heap.scopes.size
  vars : ∀ entry ∈ session.vars, session.heap.HasAll entry.2.refs
  held : ∀ x ∈ session.held, session.heap.HasAll x.refs
  machine : session.heap.HasAll session.machine.owned
  machines : ∀ machine ∈ session.machines, session.heap.HasAll machine.owned
  chains : ∀ chain ∈ session.sharedChains, session.heap.HasAll (Chain.owned chain)
  sharedStacks : ∀ stack ∈ session.sharedStacks, session.heap.HasAll stack.owned
  builders : ∀ registry, some registry ∈ session.builders → session.heap.HasAll registry.owned

/-- A session that refers to what is in its heap, and a heap as steps make it. -/
structure Sound (session : Session) : Prop extends Grounded session where
  heap : session.heap.Sound

end Session

/-! ## Guarded scripts -/

/-- Whether an operation replaces or changes a stack that is there already. -/
def Operation.handlesStacks : Operation → Bool
  | .command (.stack .stack) => false
  | .command (.stack _) => true
  | _ => false

mutual

/-- Whether an expression leaves stacks to the forms that put back what they change. -/
def Expr.guarded : Expr → Bool
  | .void | .bool _ | .int _ | .str _ | .var _ | .drop _ | .machine _ => true
  | .bind _ value | .log value | .machineOn _ value => value.guarded
  | .block body | .iterate _ body | .rescue body | .annotate _ body
  | .callable _ _ body | .nullary _ body => guardedAll body
  | .cond test yes no => test.guarded && (yes.guarded && no.guarded)
  | .withScope x body | .withFrame x body | .enterFrame x body | .withMachine x body =>
      x.guarded && guardedAll body
  | .install _ | .installOn _ _ => false
  | .apply operation operands => !operation.handlesStacks && guardedAll operands

/-- Whether all expressions of a body are guarded. -/
def Expr.guardedAll : List Expr → Bool
  | [] => true
  | e :: rest => e.guarded && guardedAll rest

end

/-- Whether something may be run: anything if stacks may be handled by hand, else what is guarded.
-/
def Allowed (raw guarded : Bool) : Prop := raw = true ∨ guarded = true

theorem Allowed.and {raw a b : Bool} (allowed : Allowed raw (a && b)) :
    Allowed raw a ∧ Allowed raw b := by
  rcases allowed with free | guarded
  · exact ⟨.inl free, .inl free⟩
  · rw [Bool.and_eq_true] at guarded
    exact ⟨.inr guarded.1, .inr guarded.2⟩

/-- A sound session all of whose bodies may be run. -/
structure Session.Fit (raw : Bool) (session : Session) : Prop extends session.Sound where
  allowed : ∀ body ∈ session.code, Allowed raw (Expr.guardedAll body)

/-! ## Runs -/

/-- What a run may do to a session. If `raw` is false, stacks are not handled by hand. -/
inductive Run (raw : Bool) : Session → Session → Prop
  | refl (s : Session) : Run raw s s
  | trans {s t u : Session} (first : Run raw s t) (second : Run raw t u) : Run raw s u
  | heap {s : Session} {heap : Heap}
      (step : Heap.Step (fun frame => frame = s.machine.currentFrame) s.heap heap) :
      Run raw s { s with heap }
  | count (s : Session) (kind : BindingKind) :
      Run raw s { s with machine := s.machine.countCall kind }
  | setVariable {s : Session} (name : String) {x : Object} (known : s.heap.HasAll x.refs) :
      Run raw s { s with vars := (name, x) :: s.varsBut name }
  | dropVariable (s : Session) (name : String) : Run raw s { s with vars := s.varsBut name }
  | report (s : Session) (reported : List EntityId) (log : List Datum) :
      Run raw s { s with reported, log }
  | script (s : Session) {body : List Expr} (allowed : Allowed raw (Expr.guardedAll body)) :
      Run raw s { s with code := s.code.push body }
  | chains {s : Session} {sharedChains : Array Chain}
      (known : ∀ chain ∈ sharedChains, s.heap.HasAll (Chain.owned chain)) :
      Run raw s { s with sharedChains }
  | builders {s : Session} {builders : Array (Option Registry)}
      (known : ∀ registry, some registry ∈ builders → s.heap.HasAll registry.owned) :
      Run raw s { s with builders }
  | stack (s : Session) (limit : Option Nat) :
      Run raw s { s with sharedStacks := s.sharedStacks.push { limit } }
  | machine {s : Session} (config : Config) {registry : Registry}
      (known : s.heap.HasAll registry.owned) :
      Run raw s { s with machines := s.machines.push (.fresh config registry) }
  | install {s : Session} (free : raw = true) (config : Config) {registry : Registry}
      (known : s.heap.HasAll registry.owned) :
      Run raw s { s with machine := .fresh config registry }
  | handle {s : Session} (free : raw = true) (command : StackCommand) {xs : List Object}
      (known : s.heap.HasAll (Object.refsAll xs)) :
      Run raw s ((command.act xs).after s)
  | holding {s t : Session} {x : Object} (known : s.heap.HasAll x.refs)
      (inner : Run raw { s with held := x :: s.held } t) : Run raw s { t with held := s.held }
  | frame {s t : Session} {frame : Frame} {stack : CallStack} (known : s.heap.HasAll frame.owned)
      (pushed : s.machine.stack.push frame = .ok stack)
      (inner : Run raw { s with machine := { s.machine with stack } } t) : Run raw s t.popFrame
  | shadow {s t : Session} {x : ScopeId} (known : s.heap.Has (.scope x))
      (inner : Run raw (s.mapFrame (·.pushInner x)) t) : Run raw s (t.mapFrame Frame.popInner)
  | switch {s t : Session} {m : MachineId} (inner : Run raw (s.switch m) t) :
      Run raw s (t.switch s.running)

end Delegation
