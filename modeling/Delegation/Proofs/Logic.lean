import Delegation.Proofs.Chronicle
import Delegation.Proofs.Level
import Delegation.Proofs.Run.Soundness

/-!
# Logics of chronicles

What is said of an action along with its chronicle is shown the way actions and their chronicles are
put together. The judgement may be of any kind, as long as it keeps the rules of a logic: those for
single deeds, for actions in a row, and for what is done and undone around an action. Then it holds
of all that operations, expressions, bodies and programs do.

Most actions change little, of which nobody takes notice. What such a change may be is up to the
judgement, within reason: the heap may change as it does without any calls, and so may what a
session keeps beside its heap and its machines. What machines count by kind has no influence on it.

A judgement may be one on scripts that leave machines alone, and frames to calls. Such scripts are
called homebound, and a logic that is for them only is told apart by an index.
-/

namespace Delegation

variable {α β : Type} {s t : Session}

/-! ## Homebound scripts -/

mutual

/-- Whether an expression leaves machines alone, and stacks to calls and to scopes that are put in
front of the current chain. -/
def Expr.homebound : Expr → Bool
  | .void | .bool _ | .int _ | .str _ | .var _ | .drop _ | .machine _ => true
  | .bind _ value | .log value | .machineOn _ value => value.homebound
  | .block body | .iterate _ body | .rescue body | .annotate _ body
  | .callable _ _ body | .nullary _ body => homeboundAll body
  | .cond test yes no => test.homebound && (yes.homebound && no.homebound)
  | .withScope x body => x.homebound && homeboundAll body
  | .withFrame _ _ | .enterFrame _ _ | .withMachine _ _ | .install _ | .installOn _ _ => false
  | .apply operation operands => !operation.handlesStacks && homeboundAll operands

/-- Whether all expressions of a body are homebound. -/
def Expr.homeboundAll : List Expr → Bool
  | [] => true
  | e :: rest => e.homebound && homeboundAll rest

end

/-! ## Changes that nobody takes notice of -/

/-- A relation between sessions that allows for changes to the heap, for closures that capture the
current frame, and for changes to what is neither the heap nor a machine. -/
class Harmless (R : Session → Session → Prop) : Prop where
  refl (s : Session) : R s s
  trans {s t u : Session} (first : R s t) (second : R t u) : R s u
  addScope (s : Session) (scope : Scope) : R s { s with heap := (s.heap.addScope scope).2 }
  addBinding (s : Session) {binding : Binding}
    (captured : ∀ frame, binding.strategy = .closure frame → frame = s.machine.currentFrame) :
    R s { s with heap := (s.heap.addBinding binding).2 }
  addEntity (s : Session) (super type : Option EntityId) (name : String) :
    R s { s with heap := (s.heap.addEntity super type name).2 }
  declare {s : Session} {x : ScopeId} {name : String} {cell : Cell} {scope : Scope}
    (declared : (s.heap.scope x).declare name cell = .ok scope) :
    R s { s with heap := s.heap.setScope x scope }
  store {s : Session} {x : ScopeId} {name : String} {old : Value} (v : Value)
    (found : (s.heap.scope x).cell? name = some (.mutable old)) :
    R s { s with heap := s.heap.modifyScope x (·.store name v) }
  close (s : Session) (x : ScopeId) : R s { s with heap := s.heap.modifyScope x Scope.close }
  chains (s : Session) (sharedChains : Array Chain) : R s { s with sharedChains }
  builders (s : Session) (builders : Array (Option Registry)) : R s { s with builders }
  vars (s : Session) (vars : List (String × Object)) : R s { s with vars }
  report (s : Session) (reported : List EntityId) (log : List Datum) :
    R s { s with reported, log }

namespace Action

/-- From a session, the action does no more than the relation allows, and does not depend on
counters. -/
structure QuietAt (R : Session → Session → Prop) (s : Session) (action : Action α) : Prop where
  leads : action.Leads R s fun _ _ => True
  steady : action.SteadyAt s

def Quiet (R : Session → Session → Prop) (action : Action α) : Prop := ∀ s, action.QuietAt R s

variable {R : Session → Session → Prop}

theorem QuietAt.change {action : Action α} (quiet : action.QuietAt R s) : R s (action.after s) :=
  quiet.leads.after

/-- A single change. -/
theorem QuietAt.of_change {action : Action α} {a : α} (gives : action s = .ok a t) (change : R s t)
    (through : ∀ s : Session, action s.uncounted = bracket s Session.uncounted action) :
    action.QuietAt R s where
  leads := by
    rw [Leads, gives]
    exact ⟨change, trivial⟩
  steady := steadyAt_of_eq through

/-- Of a session that is read, nothing may be used but what does not depend on counters. -/
theorem QuietAt.get_bind {next : Session → Action α}
    (same : ∀ s : Session, next s.uncounted = next s) (quiet : (next s).QuietAt R s) :
    (get >>= next).QuietAt R s := ⟨leads_get_bind quiet.leads, steadyAt_get_bind same quiet.steady⟩

theorem quiet_get_bind {next : Session → Action α}
    (same : ∀ s : Session, next s.uncounted = next s) (second : ∀ s, Quiet R (next s)) :
    Quiet R (get >>= next) := fun s => .get_bind same (second s s)

variable [Harmless R]

theorem quiet_pure (a : α) : Quiet R (pure a) :=
  fun s => ⟨leads_pure (Harmless.refl s) trivial, steadyAt_pure a⟩

theorem quiet_throw (stop : Stop) : Quiet R (throw stop : Action α) :=
  fun s => ⟨leads_throw (Harmless.refl s) stop, steadyAt_throw stop⟩

theorem quiet_fail (cause : Cause) : Quiet R (fail cause : Action α) := quiet_throw _

theorem quiet_malformed (reason : String) : Quiet R (malformed reason : Action α) := quiet_throw _

theorem QuietAt.bind {action : Action α} {next : α → Action β} (first : action.QuietAt R s)
    (second : ∀ a, Quiet R (next a)) : (action >>= next).QuietAt R s where
  leads := first.leads.bind Harmless.trans fun t a _ _ => (second a t).leads
  steady := first.steady.bind fun a t _ => (second a t).steady

theorem Quiet.bind {action : Action α} {next : α → Action β} (first : Quiet R action)
    (second : ∀ a, Quiet R (next a)) : Quiet R (action >>= next) := fun s => (first s).bind second

theorem Quiet.map {action : Action α} (first : Quiet R action) (f : α → β) :
    Quiet R (action >>= fun a => Pure.pure (f a)) := first.bind fun a => quiet_pure (f a)

theorem quiet_lift (found : Except Stop α) : Quiet R (liftM found : Action α) :=
  fun s => ⟨leads_lift (Harmless.refl s) fun _ _ => trivial, steadyAt_lift found⟩

theorem quiet_lift_bind {found : Except Stop α} {next : α → Action β}
    (second : ∀ a, Quiet R (next a)) : Quiet R ((liftM found : Action α) >>= next) :=
  (quiet_lift found).bind second

end Action

/-! ## Logics -/

/-- The deeds that leave everything as it was. -/
def Deed.idle : Deed → Prop
  | .operation (.command (.stack _)) _ => False
  | .operation _ _ | .body _ => True
  | _ => False

/-- Whether a frame is one that calls push: its chain ends in the globals, or it was captured. -/
def Session.Calls (s : Session) (frame : Frame) : Prop :=
  frame.chain.getLast? = some s.machine.globals ∨
    ∃ b, (s.heap.binding b).strategy = .closure frame

/-- The rules for a judgement on actions along with their chronicles, from a session. The mark says
whether the body of a binding is due. If `raw` is false the judgement is on homebound scripts. -/
structure Logic (raw : Bool) (R : Session → Session → Prop)
    (P : {α : Type} → Bool → Session → Action α → Chronicle → Prop) : Prop where
  /-- Only what the action does from the session, and from those that are level with it, matters. -/
  congr {α : Type} {due : Bool} {s : Session} {action action' : Action α} {c : Chronicle}
    (holds : P due s action' c) (same : ∀ t, s.Level t → action t = action' t) : P due s action c
  /-- Bodies have been looked at when they came into the session. -/
  code {α : Type} {due : Bool} {s : Session} {action : Action α} {c : Chronicle}
    (holds : (∀ body ∈ s.code, Allowed raw (Expr.homeboundAll body)) → P due s action c) :
    P due s action c
  script (s : Session) {body : List Expr} (allowed : Allowed raw (Expr.homeboundAll body)) :
    R s { s with code := s.code.push body }
  result {α : Type} (due : Bool) (s : Session) (a : α) : P due s (pure a) []
  step {α β : Type} {due : Bool} {s : Session} {action : Action α} {next : α → Action β}
    {rest : α → Session → Chronicle} (quiet : action.QuietAt R s)
    (second : ∀ a t, action s = .ok a t → P due t (next a) (rest a t)) :
    P due s (action >>= next) (Chronicle.step action rest s)
  seq {α β : Type} {s : Session} {action : Action α} {next : α → Action β} {c : Chronicle}
    {rest : α → Session → Chronicle} (first : P false s action c)
    (second : ∀ a t, action s = .ok a t → P false t (next a) (rest a t)) :
    P false s (action >>= next) (c ++ Chronicle.next action rest s)
  note {α : Type} {s : Session} {action : Action α} {c : Chronicle} {deed : Deed}
    (holds : P false s action c) (idle : deed.idle) : P false s action (⟨deed, s⟩ :: c)
  /-- The answer to a query is found by reading the session. -/
  ask {s : Session} {q : Query} {xs : List Object} {c : Chronicle}
    (holds : P false s (liftM (q.answer s xs) : Action Object) c) :
    P false s (do q.answer (← get) xs) (⟨.operation (.query q) xs, s⟩ :: c)
  serve {α : Type} {s : Session} {action : Action α} {c : Chronicle} (b : BindingId)
    (holds : P false s action c) : P true s action (⟨.serve b, s⟩ :: c)
  hold {α : Type} {due : Bool} {s : Session} {x : Object} {action : Action α}
    {inner : Session → Chronicle}
    (holds : P due { s with held := x :: s.held } action (inner { s with held := x :: s.held })) :
    P due s (holding x action) (Chronicle.keeping x inner s)
  frame {α : Type} {due : Bool} {s : Session} {frame : Frame} {action : Action α}
    {inner : Session → Chronicle} (own : raw = true ∨ s.Calls frame)
    (holds : ∀ t, P due t action (inner t)) :
    P due s (withFrame frame action) (Chronicle.inFrame true frame action inner s)
  enter {α : Type} {due : Bool} {s : Session} {frame : Frame} {action : Action α}
    {inner : Session → Chronicle} (free : raw = true) (holds : ∀ t, P due t action (inner t)) :
    P due s (enterFrame frame action) (Chronicle.inFrame false frame action inner s)
  shadow {α : Type} {due : Bool} {s : Session} {action : Action α} {inner : Session → Chronicle}
    (x : ScopeId) (holds : ∀ t, P due t action (inner t)) :
    P due s (shadowing x action) (Chronicle.shadowed x inner s)
  switch {α : Type} {s : Session} {action : Action α} {inner : Session → Chronicle}
    (m : MachineId) (free : raw = true) (holds : ∀ t, P false t action (inner t)) :
    P false s (onMachine m action) (Chronicle.onMachine m inner s)
  rescue {α : Type} {s : Session} {action : Action α} {c : Chronicle}
    (holds : P false s action c) :
    P false s (attempt action) (c ++ Chronicle.caught action (fun _ _ => []) s)
  annotate {s : Session} {action : Action Object} {c : Chronicle} (note : String)
    (holds : P false s action c) : P false s (mapFailure (·.withNote note) action)
      (c ++ Chronicle.caught action (fun failure t => [⟨.raise (failure.withNote note), t⟩]) s)
  call {α : Type} {s : Session} {b : BindingId} {args : List Value} {next : Unit → Action α}
    {rest : Unit → Session → Chronicle}
    (holds : ∀ t, t.heap = s.heap → P true t (next ()) (rest () t)) :
    P false s
      (holding (.value (.binding b)) (countCall (s.heap.binding b).strategy.kind >>= next))
      (⟨.call b args, s⟩ :: Chronicle.keeping (.value (.binding b))
        (Chronicle.step (countCall (s.heap.binding b).strategy.kind) rest) s)
  build (s : Session) (config : Config) (registry : Registry) :
    P false s (startMachine config registry) [⟨.build config, s⟩]
  install (free : raw = true) (s : Session) (config : Config) (registry : Registry) :
    P false s (installMachine config registry) [⟨.install config, s⟩]
  handle (s : Session) {command : StackCommand} (xs : List Object)
    (allowed : Allowed raw (!(Operation.command (.stack command)).handlesStacks)) :
    P false s (command.act xs)
      (⟨.operation (.command (.stack command)) xs, s⟩ :: Chronicle.quietly (command.act xs) s)

namespace Logic

open Delegation.Action

variable {raw due : Bool} {R : Session → Session → Prop} [Harmless R]
  {P : {α : Type} → Bool → Session → Action α → Chronicle → Prop} (logic : Logic raw R P)

include logic

/-! ## Actions in a row -/

omit [Harmless R] in
theorem quietly {action : Action α} (quiet : action.QuietAt R s) :
    P due s action (Chronicle.quietly action s) := by
  have holds : P due s (action >>= pure) (Chronicle.quietly action s) :=
    logic.step quiet fun a t _ => logic.result due t a
  rwa [bind_pure] at holds

omit [Harmless R] in
theorem quiet {action : Action α} (quiet : action.Quiet R) :
    P due s action (Chronicle.quietly action s) := logic.quietly (quiet s)

omit [Harmless R] in
/-- A result of an action of which nobody takes notice. -/
theorem ok {action : Action α} {a : α} (quiet : action.QuietAt R s) (gives : action s = .ok a t) :
    P due s action [] := by
  have holds : P due s action (Chronicle.quietly action s) := logic.quietly quiet
  simpa only [Chronicle.quietly, Chronicle.step, gives] using holds

theorem failing (cause : Cause) : P due s (fail cause : Action α) (Chronicle.failing cause s) :=
  logic.quiet (quiet_fail cause)

theorem malformed (reason : String) : P due s (Delegation.malformed reason : Action α) [] :=
  logic.quiet (quiet_malformed reason)

theorem exhausted : P due s (throw .exhausted : Action α) [] := logic.quiet (quiet_throw _)

omit [Harmless R] in
theorem reading {next : Session → Action α} {c : Chronicle}
    (same : ∀ s : Session, next s.uncounted = next s) (holds : P due s (next s) c) :
    P due s (get >>= next) c :=
  logic.congr holds fun t level => congrFun (level.same next same) t

omit [Harmless R] in
theorem holdReading {x : Object} {next : Session → Action α} {c : Chronicle}
    (same : ∀ s : Session, next s.uncounted = next s)
    (holds : P due s (holding x (next { s with held := x :: s.held })) c) :
    P due s (holding x (get >>= next)) c :=
  logic.congr holds fun t level => by
    have inside := (level.map (f := fun t => { t with held := x :: t.held }) fun _ => rfl)
    have read := inside.same next same
    simp only [holding, bind, EStateM.bind, get_eq_ok, read]

omit [Harmless R] logic in
theorem ite {p : Prop} [Decidable p] {yes no : Action α} {c d : Chronicle}
    (holds : p → P due s yes c) (holds' : ¬p → P due s no d) :
    P due s (if p then yes else no) (if p then c else d) := by
  by_cases true : p
  · rw [if_pos true, if_pos true]
    exact holds true
  · rw [if_neg true, if_neg true]
    exact holds' true

theorem given {found : Except Stop α} {next : α → Action β} {rest : α → Session → Chronicle}
    (second : ∀ a, found = .ok a → P due s (next a) (rest a s)) :
    P due s ((liftM found : Action α) >>= next) (Chronicle.given found rest s) := by
  refine logic.step (quiet_lift found s) fun a t ends => ?_
  cases found with
  | ok b =>
    cases ends
    exact second _ rfl
  | error stop => cases ends

omit [Harmless R] in
/-- What follows is quiet and gives a result. -/
theorem onwards {action : Action α} {next : α → Action β} {c : Chronicle}
    (first : P false s action c) (second : ∀ a, Quiet R (next a))
    (gives : ∀ a t, ∃ b u, next a t = .ok b u) : P false s (action >>= next) c := by
  have holds : P false s (action >>= next) (c ++ Chronicle.next action (fun _ _ => []) s) := by
    refine logic.seq first fun a t _ => ?_
    obtain ⟨b, u, gives⟩ := gives a t
    exact logic.ok (second a t) gives
  have same : Chronicle.next action (fun _ _ => []) s = [] := by
    unfold Chronicle.next
    split <;> rfl
  rwa [same, List.append_nil] at holds

theorem map {action : Action α} {c : Chronicle} (first : P false s action c) (f : α → β) :
    P false s (action >>= fun a => Pure.pure (f a)) c :=
  logic.onwards first (fun _ => quiet_pure _) fun _ t => ⟨_, t, rfl⟩

/-! ## Scopes in front of the current chain -/

omit [Harmless R] in
theorem scope (x : ScopeId) {action : Action α} {inner : Session → Chronicle}
    (holds : ∀ t, P due t action (inner t)) :
    P due s (withScope x action) (Chronicle.inScope x action inner s) := by
  unfold Chronicle.inScope
  split
  · next outside =>
    have framed : P due s (withFrame s.machine.toplevelFrame (shadowing x action)) _ :=
      logic.frame (.inr (.inl rfl)) fun t => logic.shadow x holds
    refine logic.congr framed fun t level => ?_
    have same : t.machine.toplevelFrame = s.machine.toplevelFrame :=
      level.same (·.machine.toplevelFrame) fun _ => rfl
    rw [← level.stack] at outside
    rw [← same]
    exact if_pos outside
  · next framed =>
    refine logic.congr (logic.shadow x holds) fun t level => ?_
    rw [← level.stack] at framed
    exact if_neg framed

end Logic

end Delegation
