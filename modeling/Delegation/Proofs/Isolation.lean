import Delegation.Proofs.Closures
import Delegation.Proofs.Twins.Evaluation

/-!
# Isolation from the caller

Whoever calls a binding, its body does not see it. The body runs in a frame of its own, and the
chain of that frame begins with scopes made for the call and goes on with those that belong to the
binding; nothing of it comes from the frames below. So a call that runs calmly on one stack and on
another comes to the same: the same result or, but for its trace, the same failure, and the same
heap and counts.
-/

namespace Delegation

open Delegation.Action

variable {α : Type} {s t u : Session} {b : BindingId} {args : List Value} {body : Body}
  {inner call : Runner → Action Value} {base : Heap} {names : List String} {chain : Chain}

/-! ## What a body sees -/

theorem Enters.unique {body' : Body} {u' : Session} (enters : Enters call s body u)
    (enters' : Enters call s body' u') : u' = u := by
  classical
  obtain ⟨leave, report, -, -, ends⟩ := enters
  obtain ⟨leave', report', -, -, ends'⟩ := enters'
  by_contra other
  -- A runner that tells the two sessions apart.
  let run : Runner := fun _ t => if t = u then .error .exhausted t else .error (.malformed "") t
  have given := ends run
  have given' := ends' run
  simp only [run, if_true, if_neg other, unwind] at given given'
  rw [given] at given'
  cases given'

/-- However bodies are run, the call fails before one begins. -/
def Fails (call : Runner → Action Value) (s : Session) : Prop :=
  ∃ failure t, ∀ run, call run s = .error (.failure failure) t

theorem Enters.not_fails (enters : Enters call s body u) : ¬Fails call s := by
  rintro ⟨failure, t, fails⟩
  obtain ⟨leave, report, -, -, ends⟩ := enters
  let run : Runner := fun _ t => .error .exhausted t
  have given := (fails run).symm.trans (ends run)
  cases given

namespace Fails

theorem after {f : Runner → Action α} {g : Runner → α → Action Value} {a : α}
    (ends : ∀ run, f run s = .ok a t) (fails : Fails (fun run => g run a) t) :
    Fails (fun run => f run >>= g run) s := by
  obtain ⟨failure, u, fails⟩ := fails
  refine ⟨failure, u, fun run => ?_⟩
  simp only [bind, EStateM.bind, ends]
  exact fails run

theorem holding {x : Object} (fails : Fails inner { s with held := x :: s.held }) :
    Fails (fun run => holding x (inner run)) s := by
  obtain ⟨failure, u, fails⟩ := fails
  refine ⟨failure, { u with held := s.held }, fun run => ?_⟩
  simp only [Delegation.holding, fails]

theorem withFrame {cause : Cause} {frame : Frame}
    (full : s.machine.stack.push frame = .error cause) :
    Fails (fun run => withFrame frame (inner run)) s := by
  refine ⟨.ofCause cause, s, fun run => ?_⟩
  simp only [Delegation.withFrame, enterFrame, pushFrame, full]

end Fails

/-- The scopes of a heap are in another one, with the same in them. -/
def Heap.Spared (before after : Heap) : Prop :=
  ∀ x, before.Has (.scope x) → after.Has (.scope x) ∧ after.scope x = before.scope x

namespace Heap.Spared

theorem refl (heap : Heap) : heap.Spared heap := fun _ has => ⟨has, rfl⟩

theorem trans {a b c : Heap} (first : a.Spared b) (second : b.Spared c) : a.Spared c := by
  intro x has
  obtain ⟨has', is'⟩ := first x has
  obtain ⟨has'', is''⟩ := second x has'
  exact ⟨has'', is''.trans is'⟩

theorem addScope (heap : Heap) (scope : Scope) : heap.Spared (heap.addScope scope).2 := by
  refine fun x has => ⟨?_, Heap.scope_addScope_of_lt scope has⟩
  show x.index < (heap.scopes.push scope).size
  rw [Array.size_push]
  exact Nat.lt_succ_of_lt has

end Heap.Spared

/-- A scope that a heap has not, without a parent and with no other names than some. -/
structure Session.Fresh (u : Session) (base : Heap) (names : List String) (x : ScopeId) : Prop where
  new : ¬base.Has (.scope x)
  root : (u.heap.scope x).parent = none
  names : (u.heap.scope x).symbols ⊆ names

theorem Session.fresh_addScope (scope : Scope) (spared : base.Spared s.heap)
    (root : scope.parent = none) (among : scope.symbols ⊆ names)
    (is : u.heap = (s.heap.addScope scope).2) :
    u.Fresh base names (s.heap.addScope scope).1 := by
  refine ⟨fun has => Nat.lt_irrefl _ (spared _ has).1, ?_, ?_⟩
  · rw [is, Heap.scope_addScope]
    exact root
  · rw [is, Heap.scope_addScope]
    exact among

/-- A call runs a body that sees fresh scopes and behind them a chain. -/
structure Begins (base : Heap) (names : List String) (chain : Chain)
    (call : Runner → Action Value) (s : Session) (body : Body) (u : Session) : Prop where
  enters : Enters call s body u
  spared : s.heap.Spared u.heap
  sees : ∃ fresh, u.machine.currentChain = fresh ++ chain ∧ ∀ x ∈ fresh, u.Fresh base names x

/-- A call fails, or it runs a body that sees fresh scopes and behind them a chain. -/
def Sees (base : Heap) (names : List String) (chain : Chain) (call : Runner → Action Value)
    (s : Session) : Prop :=
  Fails call s ∨ ∃ body u, Begins base names chain call s body u

namespace Sees

theorem after {f : Runner → Action α} {g : Runner → α → Action Value} {a : α}
    (ends : ∀ run, f run s = .ok a t) (spared : s.heap.Spared t.heap)
    (sees : Sees base names chain (fun run => g run a) t) :
    Sees base names chain (fun run => f run >>= g run) s := by
  rcases sees with fails | ⟨body, u, begins⟩
  · exact .inl (fails.after ends)
  · exact .inr ⟨body, u, .after ends begins.enters, spared.trans begins.spared, begins.sees⟩

theorem holding {x : Object} (sees : Sees base names chain inner { s with held := x :: s.held }) :
    Sees base names chain (fun run => holding x (inner run)) s := by
  rcases sees with fails | ⟨body, u, begins⟩
  · exact .inl fails.holding
  · exact .inr ⟨body, u, .holding begins.enters, begins.spared, begins.sees⟩

theorem withFrame {frame : Frame}
    (sees : Sees base names chain inner (s.mapFrames (frame :: ·))) :
    Sees base names chain (fun run => withFrame frame (inner run)) s := by
  cases fits : s.machine.stack.push frame with
  | error cause => exact .inl (.withFrame fits)
  | ok stack =>
    have is : { s with machine := { s.machine with stack } } = s.mapFrames (frame :: ·) := by
      rw [CallStack.eq_of_push fits]
      rfl
    rcases sees with ⟨failure, u, fails⟩ | ⟨body, u, begins⟩
    · refine .inl ⟨u.heap.attachTrace u.machine.stack failure, u.popFrame, fun run => ?_⟩
      simp only [Delegation.withFrame, enterFrame, pushFrame, fits, is, tracing, fails]
    · exact .inr ⟨body, u, .withFrame fits (is ▸ begins.enters), begins.spared, begins.sees⟩

theorem withScope {x : ScopeId} (framed : s.machine.stack.frames ≠ [])
    (sees : Sees base names chain inner (s.mapFrame (·.pushInner x))) :
    Sees base names chain (fun run => withScope x (inner run)) s := by
  rcases sees with ⟨failure, u, fails⟩ | ⟨body, u, begins⟩
  · refine .inl ⟨failure, u.mapFrame Frame.popInner, fun run => ?_⟩
    simp only [Delegation.withScope, if_neg (mt List.isEmpty_iff.1 framed), shadowing, fails]
  · exact .inr ⟨body, u, .withScope framed begins.enters, begins.spared, begins.sees⟩

/-- A fresh scope may be counted among those in front. -/
theorem front {x : ScopeId} (sees : Sees base names (x :: chain) call s)
    (has : s.heap.Has (.scope x)) (fresh : s.Fresh base names x) :
    Sees base names chain call s := by
  rcases sees with fails | ⟨body, u, begins⟩
  · exact .inl fails
  · obtain ⟨others, is, all⟩ := begins.sees
    refine .inr ⟨body, u, begins.enters, begins.spared, others ++ [x], by simp [is], ?_⟩
    intro y place
    rcases List.mem_append.1 place with early | last
    · exact all y early
    · have same := (begins.spared x has).2
      rw [List.mem_singleton.1 last]
      exact ⟨fresh.new, same ▸ fresh.root, same ▸ fresh.names⟩

theorem invoke (framed : s.machine.stack.frames ≠ []) (spared : base.Spared s.heap)
    {callable : Callable} (among : callable.params ⊆ names) (args : List Value) :
    Sees base names s.machine.currentChain (fun run => callable.invoke run args) s := by
  by_cases enough : args.length = callable.arity
  · refine .inr ⟨_, _, callable.enters_invoke enough framed, .addScope _ _,
      [(s.heap.addScope (callable.parameters args)).1], ?_, ?_⟩
    · obtain ⟨frame, rest, frames⟩ := List.exists_cons_of_ne_nil framed
      simp only [Machine.currentChain, CallStack.current, Session.mapFrame, CallStack.mapCurrent,
        frames]
      rfl
    · refine List.forall_mem_singleton.2 (Session.fresh_addScope _ spared rfl ?_ rfl)
      rw [Callable.symbols_parameters enough]
      exact among
  · refine .inl ⟨.ofCause (.arityMismatch callable.name callable.arity args.length), s,
      fun run => ?_⟩
    simp only [Callable.invoke, if_pos enough]
    rfl

theorem callMethod (spared : base.Spared s.heap) {callable : Callable}
    (among : callable.params ++ ["self", "super"] ⊆ names) (owner : EntityId) (args : List Value) :
    Sees base names (methodChain s owner) (fun run => callMethod run callable owner args) s := by
  obtain ⟨params, identities⟩ := List.append_subset.1 among
  let inside := { s with held := .value (.entity owner) :: s.held }
  let identity := identityScope s.heap owner (inside.receiver owner)
  have added := Heap.Spared.addScope s.heap identity
  refine .holding (.after (fun _ => rfl) (.refl _) (.after (fun _ => rfl) added (.withFrame ?_)))
  refine .front (x := (s.heap.addScope identity).1) (.withScope (List.cons_ne_nil _ _) ?_) ?_ ?_
  · exact .invoke (List.cons_ne_nil _ _) (spared.trans added) params args
  · show s.heap.scopes.size < (s.heap.scopes.push identity).size
    rw [Array.size_push]
    exact Nat.lt_succ_self _
  · exact Session.fresh_addScope identity spared rfl identities rfl

theorem countCall {kind : BindingKind} {g : Runner → Action Value}
    (sees : Sees base names chain g { s with machine := s.machine.countCall kind }) :
    Sees base names chain (fun run => do countCall kind; g run) s := by
  cases budget : (s.machine.countCall kind).overBudget? with
  | none => exact .after (fun _ => countCall_within budget) (.refl _) sees
  | some cause =>
    refine .inl ⟨.ofCause cause, { s with machine := s.machine.countCall kind }, fun run => ?_⟩
    simp only [bind, EStateM.bind, countCall_over budget]

end Sees

/-- The names that a binding gives its body: the parameters, and for a method `self` and `super`. -/
def Binding.givenNames (binding : Binding) : List String :=
  match binding.strategy with
  | .method _ | .declared _ => binding.callable.params ++ ["self", "super"]
  | .function _ | .closure _ => binding.callable.params

/-- The scopes that belong to a binding: those it has been made with, and the globals unless they
are among them. -/
def Session.scopesOf (s : Session) (b : BindingId) : Chain :=
  match (s.heap.binding b).strategy with
  | .function enclosing => enclosing.toList ++ [s.machine.globals]
  | .method owner | .declared owner => methodChain s owner
  | .closure captured => captured.chain

/-- A call of a binding fails, or its body sees what it is given and the scopes of the binding. -/
theorem BindingId.call_sees (s : Session) (b : BindingId) (args : List Value) :
    Sees s.heap (s.heap.binding b).givenNames (s.scopesOf b) (fun run => b.call run args) s := by
  refine .holding (.after (fun _ => rfl) (.refl _) (.countCall ?_))
  unfold Session.scopesOf Binding.givenNames
  cases (s.heap.binding b).strategy with
  | function enclosing =>
    refine .after (fun _ => rfl) (.refl _) (.withFrame ?_)
    exact .invoke (List.cons_ne_nil _ _) (.refl _) (List.Subset.refl _) args
  | method owner => exact .callMethod (.refl _) (List.Subset.refl _) owner args
  | declared owner =>
    refine .after (fun _ => rfl) (.refl _) ?_
    dsimp only
    split
    · exact .callMethod (.refl _) (List.Subset.refl _) owner args
    · exact .inl ⟨_, _, fun run => rfl⟩
  | closure captured =>
    refine .withFrame ?_
    exact .invoke (List.cons_ne_nil _ _) (.refl _) (List.Subset.refl _) args

/-! ## Two callers -/

/-- What an action comes to: its result or, but for the trace, its failure, and the heap and the
counts that it leaves. -/
structure Upshot (α : Type) where
  result : Except Stop α
  heap : Heap
  calls : Nat
  counters : Option Counters

def Action.upshot (action : Action α) (s : Session) : Upshot α :=
  match action s with
  | .ok a t => ⟨.ok a, t.heap, t.machine.calls, t.machine.counters⟩
  | .error stop t => ⟨.error stop.untraced, t.heap, t.machine.calls, t.machine.counters⟩

theorem Agrees.upshot {callers : Callers} {upper : List Frame} {action action' : Action α}
    (agrees : Agrees callers upper Eq s t action action') :
    action'.upshot t = action.upshot s := by
  have counts {u v : Session} (ends : Ends callers upper s u v) :
      v.machine.calls = u.machine.calls ∧ v.machine.counters = u.machine.counters := by
    rw [ends.toTwin.machine.restacked]
    exact ⟨rfl, rfl⟩
  cases agrees with
  | ok gives gives' same ends =>
    simp only [Action.upshot, gives, gives', same, ends.toTwin.heap, counts ends]
  | error stops stops' same ends =>
    simp only [Action.upshot, stops, stops', same, ends.toTwin.heap, counts ends]

/-- Two stacks for the machine of a session, with the same limit and with the same entities alive.
-/
structure Session.Interchangeable (s : Session) (stack stack' : CallStack) : Prop where
  running : s.running.index < s.machines.size
  limit : stack'.limit = stack.limit
  sound : (s.withStack stack).Sound
  sound' : (s.withStack stack').Sound
  alive : ∀ e, (s.withStack stack').isLive e = (s.withStack stack).isLive e

variable {stack stack' : CallStack}

namespace Session.Interchangeable

variable (either : s.Interchangeable stack stack')

include either

theorem world : SameWorld (s.withStack stack) (s.withStack stack') := ⟨rfl, either.alive⟩

theorem twins : FitTwins ⟨s.running, stack.frames, stack'.frames⟩ []
    (s.withStack stack) (s.withStack stack') where
  around := rfl
  running := rfl
  size := rfl
  present := either.running
  machine := by
    refine ⟨fun away => absurd rfl away, fun _ => ⟨rfl, ?_⟩⟩
    have is : stack' = { stack with frames := stack'.frames } := by rw [← either.limit]
    simp only [Session.withStack, List.nil_append, ← is]
  parked m away := ⟨fun _ => rfl, fun home => absurd home away⟩
  owned _ := List.subset_append_left _ _
  vars := rfl
  held := rfl
  fit := either.sound.fit
  known := either.sound'.fit.stack

end Session.Interchangeable

/-- A binding is isolated from its callers. A call that runs calmly on either of two stacks comes to
the same on both; and on whatever stack it is called, its body sees nothing but what it is given
and the scopes of the binding. -/
theorem BindingId.isolation (either : s.Interchangeable stack stack')
    (has : s.heap.Has (.binding b)) (known : ∀ v ∈ args, s.heap.HasAll v.owned) (nesting : Nat)
    (calm : b.heeds (Calm (s.withStack stack)) nesting args (s.withStack stack))
    (calm' : b.heeds (Calm (s.withStack stack')) nesting args (s.withStack stack')) :
    (b.call (runBody nesting) args).upshot (s.withStack stack') =
        (b.call (runBody nesting) args).upshot (s.withStack stack) ∧
      ∀ body u, Enters (fun run => b.call run args) (s.withStack stack) body u →
        ∃ fresh, u.machine.currentChain = fresh ++ s.scopesOf b ∧
          ∀ x ∈ fresh, u.Fresh s.heap (s.heap.binding b).givenNames x := by
  constructor
  · have paired := Paired.runBody ⟨s.running, stack.frames, stack'.frames⟩ either.world nesting
    exact (paired.call either.twins (.inr rfl) has known calm calm').upshot
  · intro body u enters
    rcases b.call_sees (s.withStack stack) args with fails | ⟨_, u', begins⟩
    · exact absurd fails enters.not_fails
    · rw [begins.enters.unique enters]
      exact begins.sees

/-- A method that looks up a name which its caller knows does not find it. -/
theorem BindingId.isolation_of_lookup :
    let x : Scope := { Scope.root .identifier with cells := [("x", .constant (.int 1))] }
    let m : Binding := ⟨.nullary "m" (.script 0), .method ⟨0⟩⟩
    let s : Session := { Program.founded with
      heap := (((Program.founded.heap.addScope x).2.addEntity none none "e").2.addBinding m).2
      code := #[[.apply (.command (.call .lookup)) [.str "x"]]]
      vars := [("e", .value (.entity ⟨0⟩))] }
    let caller : CallStack := { frames := [⟨.void, "caller", [⟨1⟩]⟩] }
    s.Interchangeable caller {} ∧
      (⟨0⟩ : BindingId).heeds (Calm (s.withStack caller)) 1 [] (s.withStack caller) ∧
      (⟨0⟩ : BindingId).heeds (Calm (s.withStack {})) 1 [] (s.withStack {}) ∧
      (lookup (runBody 0) "x").succeeds (s.withStack caller) = true ∧
      (BindingId.call (runBody 1) ⟨0⟩ []).upshot (s.withStack {}) =
        (BindingId.call (runBody 1) ⟨0⟩ []).upshot (s.withStack caller) ∧
      ∀ body u, Enters (fun run => BindingId.call run ⟨0⟩ []) (s.withStack caller) body u →
        ∃ fresh, u.machine.currentChain = fresh ++ [⟨4⟩, ⟨3⟩, ⟨0⟩] := by
  intro x m s caller
  have added : Heap.Step (fun _ => True) Program.founded.heap (Program.founded.heap.addScope x).2 :=
    .addScope ⟨⟨none, rfl⟩, Heap.hasAll_nil _, by decide, by decide⟩
  have built : Heap.Step (fun _ => True) (Program.founded.heap.addScope x).2
      ((Program.founded.heap.addScope x).2.addEntity none none "e").2 :=
    .addEntity "e" nofun nofun nofun
  have bound : Heap.Step (fun _ => True)
      ((Program.founded.heap.addScope x).2.addEntity none none "e").2 s.heap :=
    .addBinding (Heap.hasAll_cons.2 ⟨Nat.zero_lt_one, Heap.hasAll_nil _⟩) nofun
  have founded : Program.founded.Fit true := Program.fit_founded
  have eHas : s.heap.Has (.entity ⟨0⟩) := Nat.zero_lt_one
  have fit : s.Fit true :=
    { ((founded.step added).step built).step bound with
      vars := List.forall_mem_singleton.2 (Heap.hasAll_cons.2 ⟨eHas, Heap.hasAll_nil _⟩)
      allowed := fun _ _ => .inl rfl }
  have sound {stack : CallStack} (known : s.heap.HasAll stack.owned) : (s.withStack stack).Sound :=
    (fit.withStack known).toSound
  have empty : s.heap.HasAll (CallStack.owned {}) := Heap.hasAll_nil _
  have owned : s.heap.HasAll caller.owned := by
    have has : s.heap.Has (.scope ⟨1⟩) := (by decide : 1 < 5)
    exact Heap.hasAll_cons.2 ⟨has, Heap.hasAll_nil _⟩
  -- A variable holds the only entity there is.
  have live {t : Session} (sound : t.Sound) (vars : t.vars = s.vars)
      (size : t.heap.entities.size = 1) (e : EntityId) : t.isLive e = true ↔ e = ⟨0⟩ := by
    refine ⟨fun live => ?_, fun is => ?_⟩
    · have has : e.index < 1 := size ▸ sound.has_of_isLive live
      obtain ⟨index⟩ := e
      exact congrArg _ (Nat.lt_one_iff.1 has)
    · rw [is]
      apply Session.isLive_of_isRooted
      rw [Session.isRooted, vars]
      rfl
  have either : s.Interchangeable caller {} := by
    refine ⟨Nat.zero_lt_one, rfl, sound owned, sound empty, fun e => ?_⟩
    rw [Bool.eq_iff_iff, live (sound empty) rfl rfl, live (sound owned) rfl rfl]
  have calm {stack : CallStack} (known : s.heap.HasAll stack.owned) (free : stack.limit = none) :
      (⟨0⟩ : BindingId).heeds (Calm (s.withStack stack)) 1 [] (s.withStack stack) := by
    have mKnown : s.heap.HasAll (Object.value (.binding ⟨0⟩)).refs :=
      Heap.hasAll_cons.2 ⟨Nat.zero_lt_one, Heap.hasAll_nil _⟩
    have eKnown : s.heap.HasAll (Object.value (.entity ⟨0⟩)).refs :=
      Heap.hasAll_cons.2 ⟨eHas, Heap.hasAll_nil _⟩
    have held := ((fit.withStack known).hold mKnown).hold eKnown
    obtain ⟨frames, limit⟩ := stack
    cases free
    rintro _ _ ⟨⟩
    have before := live (sound known) rfl rfl
    refine ⟨fun e => (live { held with } rfl rfl e).trans ?_, ?_⟩
    · rw [← before]
      exact ⟨.inl, fun is => is.resolve_right fun both => both.2 both.1⟩
    · rintro _ _ ⟨⟩
      refine ⟨⟨_, rfl⟩, ?_⟩
      rintro _ _ ⟨⟩ - _ ⟨⟩ _ _ ⟨⟩
      refine ⟨rfl, ⟨⟨trivial, fun _ _ _ => trivial⟩, ?_⟩, fun _ _ _ => trivial⟩
      intro xs t reads
      have is (u : Session) : evalOperands (runBody 0) [.str "x"] u = .ok [.value (.str "x")] u :=
        rfl
      rw [is] at reads
      cases reads
      rintro _ ⟨⟩ _ found
      cases found
  obtain ⟨same, sees⟩ := BindingId.isolation either Nat.zero_lt_one (List.forall_mem_nil _) 1
    (calm owned rfl) (calm empty rfl)
  refine ⟨either, calm owned rfl, calm empty rfl, by decide +kernel, same, fun body u enters => ?_⟩
  obtain ⟨fresh, chain, -⟩ := sees body u enters
  exact ⟨fresh, chain⟩

end Delegation
