import Delegation.Proofs.Logic
import Delegation.Proofs.Routes

/-!
# Calls and look-ups in a logic

Calling a binding, reading and writing names, and what entities are asked for: what a logic says of
bodies, it says of each of these.
-/

namespace Delegation

open Delegation.Action

/-! ## Quiet actions on the heap -/

section

variable {R : Session → Session → Prop} [Harmless R]

theorem quiet_newScope (scope : Scope) : Quiet R (newScope scope) :=
  fun s => .of_change rfl (Harmless.addScope s scope) fun _ => rfl

theorem quiet_newBinding {binding : Binding} (open' : ∀ frame, binding.strategy ≠ .closure frame) :
    Quiet R (newBinding binding) := fun s =>
  .of_change rfl (Harmless.addBinding s fun frame is => absurd is (open' frame)) fun _ => rfl

theorem quiet_attach (b : BindingId) : Quiet R (attach b) := by
  refine quiet_get_bind (fun s => ?_) fun s => ?_
  · simp only [Session.isLive_uncounted]
    rfl
  · dsimp only
    cases (s.heap.binding b).strategy with
    | declared owner =>
      dsimp only
      split
      · exact quiet_newBinding fun _ => by simp
      · exact quiet_pure b
    | function | method | closure => exact quiet_pure b

end

/-- Attaching a binding gives a result. -/
theorem attach_eq_ok (b : BindingId) (s : Session) : ∃ made t, attach b s = .ok made t := by
  simp only [attach, bind, EStateM.bind, get_eq_ok]
  cases (s.heap.binding b).strategy with
  | declared owner =>
    dsimp only
    split <;> exact ⟨_, _, rfl⟩
  | function | method | closure => exact ⟨_, _, rfl⟩

/-! ## Calls -/

variable {α : Type} {s : Session} {run : Runner} {bodies : Body → Session → Chronicle}

/-- A judgement holds of every body. The mark says whether it may be the body of a binding that is
due. -/
def Runner.Told (P : {α : Type} → Bool → Session → Action α → Chronicle → Prop) (due : Bool)
    (run : Runner) (bodies : Body → Session → Chronicle) : Prop :=
  ∀ body s, P due s (run body) (bodies body s)

theorem get_of_computed {x t : ScopeId} {name : String} {getter : BindingId}
    {setter : Option BindingId}
    (leads : s.heap.resolve x name = some (t, .computed getter setter)) :
    x.get run name s = getter.call run [] s := by
  simp only [ScopeId.get, bind, EStateM.bind, getThe_eq_ok, leads]

theorem set_of_setter {x t : ScopeId} {name : String} {getter setter : BindingId}
    (leads : s.heap.resolve x name = some (t, .computed getter (some setter))) (v : Value) :
    x.set run name v s = (setter.call run [v] >>= fun _ => pure ()) s := by
  simp only [ScopeId.set, bind, EStateM.bind, getThe_eq_ok, leads]

namespace Logic

variable {raw due : Bool} {R : Session → Session → Prop} [Harmless R]
  {P : {α : Type} → Bool → Session → Action α → Chronicle → Prop} (logic : Logic raw R P)

include logic

omit [Harmless R] in
theorem told_serving (told : run.Told P false bodies) (b : BindingId) :
    run.Told P true (Chronicle.serving bodies b) :=
  fun body s => logic.serve b (told body s)

section

variable (told : run.Told P due bodies)

include told

theorem holds_invoke (callable : Callable) (args : List Value) :
    P due s (callable.invoke run args) (Chronicle.invoke run bodies callable args s) := by
  refine Logic.ite (fun _ => logic.failing _) fun _ => ?_
  cases bindParameters callable args with
  | error cause => exact logic.failing cause
  | ok scope =>
    exact logic.step (quiet_newScope scope s) fun x t _ => logic.scope x (told callable.body)

theorem holds_callMethod (callable : Callable) (owner : EntityId) (args : List Value) :
    P due s (callMethod run callable owner args)
      (Chronicle.callMethod run bodies callable owner args s) := by
  refine logic.hold (logic.reading (fun s => ?_)
    (logic.step (quiet_newScope _ _) fun identity t made => ?_))
  · simp only [Session.receiver_uncounted]
    rfl
  cases made
  exact logic.frame (.inr (.inl List.getLast?_concat)) fun u => logic.scope _ fun v =>
    logic.holds_invoke told callable args

end

section

variable (told : run.Told P false bodies)

include told

theorem holds_call (b : BindingId) (args : List Value) :
    P false s (b.call run args) (Chronicle.call run bodies b args s) := by
  have served := logic.told_serving told b
  refine logic.holdReading (fun _ => rfl) (logic.call fun t same => ?_)
  rw [← same]
  cases is : (t.heap.binding b).strategy with
  | function enclosing =>
    exact logic.reading (fun _ => rfl) (logic.frame (.inr (.inl List.getLast?_concat)) fun u =>
      logic.holds_invoke served _ args)
  | method owner => exact logic.holds_callMethod served _ owner args
  | declared owner =>
    apply logic.reading fun s => by rw [Session.isLive_uncounted]
    exact Logic.ite (fun _ => logic.holds_callMethod served _ owner args) fun _ => logic.failing _
  | closure captured =>
    exact logic.frame (.inr (.inr ⟨b, is⟩)) fun u => logic.holds_invoke served _ args

/-! ## Names -/

theorem holds_get (x : ScopeId) (name : String) :
    P false s (x.get run name) (Chronicle.get run bodies x name s) := by
  unfold Chronicle.get
  split
  · next leads =>
    exact logic.congr (logic.holds_call told _ []) fun t level =>
      get_of_computed (level.heap ▸ leads)
  · next plain =>
    refine logic.quietly (.get_bind (fun _ => rfl) ?_)
    rcases found : s.heap.resolve x name with _ | ⟨t, _ | _ | _⟩
    · exact quiet_fail _ s
    · exact quiet_pure _ s
    · exact quiet_pure _ s
    · exact absurd found (plain _ _ _)

theorem holds_set (x : ScopeId) (name : String) (v : Value) :
    P false s (x.set run name v) (Chronicle.set run bodies x name v s) := by
  unfold Chronicle.set
  split
  · next leads =>
    exact logic.congr (logic.map (logic.holds_call told _ [v]) _) fun t level =>
      set_of_setter (level.heap ▸ leads) v
  · next plain =>
    refine logic.quietly (.get_bind (fun _ => rfl) ?_)
    rcases found : s.heap.resolve x name with _ | ⟨t, _ | _ | ⟨getter, _ | setter⟩⟩
    · exact quiet_fail _ s
    · exact .of_change rfl (Harmless.store v (Heap.cell?_of_resolve found)) fun _ => rfl
    · exact quiet_fail _ s
    · exact quiet_fail _ s
    · exact absurd found (plain _ _ _)

theorem holds_chainGet (chain : Chain) (name : String) :
    P false s (chain.get run name) (Chronicle.chainGet run bodies chain name s) := by
  refine logic.hold (logic.reading (fun _ => rfl) ?_)
  dsimp only
  cases s.heap.findScope chain name with
  | some x => exact logic.holds_get told x name
  | none => exact logic.failing _

theorem holds_chainSet (chain : Chain) (name : String) (v : Value) :
    P false s (chain.set run name v) (Chronicle.chainSet run bodies chain name v s) := by
  refine logic.hold (logic.reading (fun _ => rfl) ?_)
  dsimp only
  cases s.heap.findScope chain name with
  | some x => exact logic.holds_set told x name v
  | none => exact logic.failing _

theorem holds_lookup (name : String) :
    P false s (lookup run name) (Chronicle.lookup run bodies name s) :=
  logic.reading (fun _ => rfl) (logic.holds_chainGet told _ name)

theorem holds_assign (name : String) (v : Value) :
    P false s (assign run name v) (Chronicle.assign run bodies name v s) :=
  logic.reading (fun _ => rfl) (logic.holds_chainSet told _ name v)

/-! ## Entities -/

theorem holds_getMember (e : EntityId) (name : String) :
    P false s (getMember run e name) (Chronicle.getMember run bodies e name s) := by
  refine logic.reading (fun _ => rfl) (Logic.ite (fun _ => ?_) fun _ => logic.failing _)
  refine logic.onwards (logic.holds_get told _ name) (fun v => ?_) fun v t => ?_
  · cases v with
    | binding b => exact (quiet_attach b).map _
    | void | bool | int | str | entity => exact quiet_pure _
  · cases v with
    | binding b =>
      obtain ⟨made, u, attached⟩ := attach_eq_ok b t
      refine ⟨.binding made, u, ?_⟩
      simp only [bind, EStateM.bind, attached]
      rfl
    | void | bool | int | str | entity => exact ⟨_, t, rfl⟩

theorem holds_setMember (e : EntityId) (name : String) (v : Value) :
    P false s (setMember run e name v) (Chronicle.setMember run bodies e name v s) :=
  logic.reading (fun _ => rfl)
    (Logic.ite (fun _ => logic.holds_set told _ name v) fun _ => logic.failing _)

theorem holds_invokeHook (e : EntityId) (name : String) (args : List Value) :
    P false s (invokeHook run e name args) (Chronicle.invokeHook run bodies e name args s) := by
  refine logic.reading (fun _ => rfl) (Logic.ite (fun _ => ?_) fun _ => logic.failing _)
  refine logic.seq (logic.holds_get told _ name) fun v t _ => ?_
  cases v with
  | binding b => exact logic.holds_call told b args
  | void | bool | int | str | entity => exact logic.failing _

theorem holds_callValue (callee : Value) (args : List Value) :
    P false s (callValue run callee args) (Chronicle.callValue run bodies callee args s) := by
  cases callee with
  | binding b => exact logic.holds_call told b args
  | entity e =>
    unfold callValue Chronicle.callValue
    refine logic.hold (logic.reading (fun _ => rfl) ?_)
    exact Logic.ite (fun _ => logic.holds_invokeHook told e callHook args) fun _ => logic.failing _
  | void | bool | int | str => exact logic.failing _

theorem holds_invokeMember (e : EntityId) (name : String) (args : List Value) :
    P false s (invokeMember run e name args) (Chronicle.invokeMember run bodies e name args s) :=
  logic.seq (logic.holds_getMember told e name) fun v _ _ => logic.holds_callValue told v args

/-! ## Root methods -/

theorem holds_selfEntity : P false s (selfEntity run) (Chronicle.selfEntity run bodies s) := by
  refine logic.seq (logic.holds_lookup told "self") fun v t _ => ?_
  cases v with
  | entity e => exact logic.result _ _ e
  | void | bool | int | str | binding => exact logic.failing _

theorem holds_rootMethod (method : RootMethod) :
    P false s (method.answer run) (Chronicle.rootMethod run bodies method s) := by
  refine logic.seq (logic.holds_selfEntity told) fun e t _ => ?_
  cases method with
  | id => exact logic.result _ _ _
  | type | super | text => exact logic.reading (fun _ => rfl) (logic.result _ _ _)
  | hasMember =>
    refine logic.seq (logic.holds_lookup told "name") fun v u _ => ?_
    cases v with
    | str name => exact logic.reading (fun _ => rfl) (logic.result _ _ _)
    | void | bool | int | entity | binding => exact logic.failing _

end

end Logic

end Delegation
