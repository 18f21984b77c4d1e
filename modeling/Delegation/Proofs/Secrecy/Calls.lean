import Delegation.Proofs.Logic.Calls
import Delegation.Proofs.Run.Calls
import Delegation.Proofs.Secrecy.Answers

/-!
# Calls do not see a secret

Calling a binding, reading and writing names and asking entities does not see a secret, if bodies
do not. A method of the owner may be called as well, as long as its body does not begin: its frame
would see the secret, but all that happens in there is that a failure arises.
-/

namespace Delegation

open Delegation.Action

variable {α : Type} {secret : Secret} {s : Session} {run : Runner}
  {bodies : Body → Session → Chronicle} {post : α → Prop} {c : Chronicle}

/-! ## Invocation -/

/-- No body sees the secret, if what it does spares it. -/
def Runner.Discreet (secret : Secret) (run : Runner) (bodies : Body → Session → Chronicle) :
    Prop :=
  ∀ body s, Blind secret s (run body) (fun v => secret.Clear v.owned) (bodies body s)

theorem discreet_serving (discreet : run.Discreet secret bodies) (b : BindingId) :
    run.Discreet secret (Chronicle.serving bodies b) :=
  fun body s => (discreet body s).noted _

theorem Secret.clear_parameters {callable : Callable} {args : List Value}
    (clear : ∀ v ∈ args, secret.Clear v.owned) :
    secret.Clear (callable.parameters args).refs := by
  intro x place
  obtain ⟨v, argument, owned⟩ := Callable.exists_owned_of_mem_refs place
  exact clear v argument x owned

theorem blind_invoke (discreet : run.Discreet secret bodies) {callable : Callable}
    {args : List Value} (clear : ∀ v ∈ args, secret.Clear v.owned) :
    Blind secret s (callable.invoke run args) (fun v => secret.Clear v.owned)
      (Chronicle.invoke run bodies callable args s) := by
  refine blind_ite (fun _ => blind_fail _) fun enough => ?_
  rw [Callable.bindParameters_eq_ok (not_not.1 enough)]
  exact (blind_newScope (Secret.clear_parameters clear)).step fun x t _ found =>
    blind_withScope (discreet callable.body) found

/-- Counting a call does not depend on anything in the heap. -/
theorem blind_countCall (kind : BindingKind) : Blind secret s (countCall kind) (fun _ => True) c :=
  fun hides _ => by
    have counted : { s with machine := s.machine.countCall kind }.Hides secret :=
      hides.withMachine hides.machine
    cases budget : (s.machine.countCall kind).overBudget? with
    | none => exact .ok (countCall_within budget) (countCall_within budget) counted trivial
    | some cause => exact .error (countCall_over budget) (countCall_over budget) counted

/-! ## Methods -/

theorem Heap.Hides.clear_identityScope {heap : Heap} (hides : heap.Hides secret)
    {owner receiver : EntityId} (found : ¬secret.lost (.node (.entity owner)))
    (receiverFound : ¬secret.lost (.node (.entity receiver))) :
    secret.Clear (identityScope heap owner receiver).refs := by
  refine Secret.clear_cons.2 ⟨receiverFound, ?_⟩
  cases is : (heap.entity owner).super with
  | none => simp [Cell.ownedByAll, Cell.owned, Value.owned]
  | some base =>
    have baseFound := hides.super found is
    simp [Cell.ownedByAll, Cell.owned, Value.owned, baseFound]

theorem Session.Hides.methodChain (hides : s.Hides secret) {owner : EntityId}
    (found : ¬secret.lost (.node (.entity owner))) (other : owner ≠ secret.owner) :
    secret.Clear (Chain.owned (methodChain s owner)) := by
  have fields := hides.heap.fields found other
  have members := hides.heap.members found
  simp [Delegation.methodChain, Heap.privateView, Chain.owned, fields, members, hides.globals]

/-- A method of the owner may not begin. -/
def Chronicle.Avoids (secret : Secret) (bodies : Body → Session → Chronicle)
    (bindings : Array Binding) : Prop :=
  ∀ body t, t.heap.bindings = bindings → ¬(bodies body t).Spares secret.owner

section Avoided

variable {frame : Frame} {x : ScopeId} {stack : CallStack} {callable : Callable} {args : List Value}
  (pushed : s.machine.stack.push frame = .ok stack)

include pushed

/-- What a frame sees makes no difference if all that happens inside it is that a failure arises. -/
theorem withFrame_fail (cause : Cause) :
    withFrame frame (withScope x (fail cause : Action α)) s =
      .error (.failure (s.heap.attachTrace stack (.ofCause cause))) s := by
  obtain rfl := CallStack.eq_of_push pushed
  rw [withFrame, enterFrame_of_push pushed]
  rfl

/-- A call with as many arguments as expected that finds room for its frame runs a body. -/
theorem exists_body_of_spares (enough : args.length = callable.arity)
    (spares : Chronicle.Spares secret.owner
      (Chronicle.inFrame true frame (withScope x (callable.invoke run args))
        (Chronicle.inScope x (callable.invoke run args)
          (Chronicle.invoke run bodies callable args)) s)) :
    ∃ t, t.heap.bindings = s.heap.bindings ∧ (bodies callable.body t).Spares secret.owner := by
  have entered : pushFrame frame s = .ok () (s.withStack stack) := by
    simp only [pushFrame, pushed]
    rfl
  have inside := (Chronicle.spares_cons.1 (Chronicle.spares_append.1 (spares.step entered)).1).2
  obtain rfl := CallStack.eq_of_push pushed
  have invoked := inside.shadowed (List.cons_ne_nil _ _)
  rw [Chronicle.shadowed, Chronicle.invoke, if_neg (not_not_intro enough),
    Callable.bindParameters_eq_ok enough] at invoked
  have begins := (Chronicle.Spares.step invoked rfl).shadowed (List.cons_ne_nil _ _)
  refine ⟨_, ?_, begins⟩
  rfl

end Avoided

/-- A frame may see the secret if no body begins in it. -/
theorem blind_withFrame_of_avoids {post : Value → Prop} {frame : Frame} {x : ScopeId}
    {callable : Callable} {args : List Value}
    (avoids : Chronicle.Avoids secret bodies s.heap.bindings) :
    Blind secret s (withFrame frame (withScope x (callable.invoke run args))) post
      (Chronicle.inFrame true frame (withScope x (callable.invoke run args))
        (Chronicle.inScope x (callable.invoke run args)
          (Chronicle.invoke run bodies callable args)) s) := by
  intro hides spares
  cases pushed : s.machine.stack.push frame with
  | error cause =>
    exact .error (enterFrame_of_full pushed _) (enterFrame_of_full (s := s.veil secret) pushed _)
      hides
  | ok stack =>
    by_cases enough : args.length = callable.arity
    · obtain ⟨t, same, begins⟩ := exists_body_of_spares pushed enough spares
      exact absurd begins (avoids _ t same)
    · have fails : callable.invoke run args =
          fail (.arityMismatch callable.name callable.arity args.length) := if_pos enough
      rw [fails]
      exact .error (withFrame_fail pushed _) (withFrame_fail (s := s.veil secret) pushed _) hides

theorem blind_callMethod (discreet : run.Discreet secret bodies) {callable : Callable}
    {owner : EntityId} {args : List Value} (found : ¬secret.lost (.node (.entity owner)))
    (clear : ∀ v ∈ args, secret.Clear v.owned)
    (avoids : owner = secret.owner → Chronicle.Avoids secret bodies s.heap.bindings) :
    Blind secret s (callMethod run callable owner args) (fun v => secret.Clear v.owned)
      (Chronicle.callMethod run bodies callable owner args s) := by
  unfold callMethod Chronicle.callMethod
  apply blind_holding (Secret.bare_entity found)
  apply blind_of_hides
  intro hides
  apply blind_get_bind
  · intro _
    simp only [hides.receiver_veil]
    rfl
  have receiverFound := hides.receiver found
  refine (blind_newScope (hides.heap.clear_identityScope found receiverFound)).step
    fun identity t made identityFound => ?_
  by_cases own : owner = secret.owner
  · cases made
    exact blind_withFrame_of_avoids (avoids own)
  · refine blind_withFrame (Secret.clear_cons.2 ⟨receiverFound, hides.methodChain found own⟩)
      fun u => blind_withScope (fun v => ?_) identityFound
    exact blind_invoke discreet clear

theorem blind_store {x : ScopeId} (found : ¬secret.lost (.node (.scope x))) (name : String)
    {v : Value} (clear : secret.Clear v.owned) :
    Blind secret s (onHeap fun heap => ((), heap.modifyScope x (·.store name v))) (fun _ => True)
      c := by
  refine blind_onHeap (fun hides => ?_) (fun hides => ?_) fun _ => trivial
  · simp only [Heap.modifyScope_eq, hides.scope_veil_of_open found, s.heap.setScope_veil found]
  · have together := Secret.clear_append.2 ⟨hides.scope found, clear⟩
    simp only [Heap.modifyScope_eq]
    exact hides.setScope found (together.subset (Scope.refs_store_subset _ name v))

/-! ## Bindings -/

/-- Before the body of a method of the owner the secret would not be spared. -/
theorem avoids_serving {b : BindingId} {heap : Heap}
    (own : (heap.binding b).strategy.owner? = some secret.owner) :
    Chronicle.Avoids secret (Chronicle.serving bodies b) heap.bindings := by
  intro body t same spares
  have serves := (Chronicle.spares_cons.1 spares).1
  have there : t.heap.binding b = heap.binding b := by rw [Heap.binding, same, Heap.binding]
  simp [Moment.spares, there, own] at serves

section

variable (discreet : run.Discreet secret bodies)

include discreet

theorem blind_call {b : BindingId} {args : List Value} (found : ¬secret.lost (.node (.binding b)))
    (clear : ∀ v ∈ args, secret.Clear v.owned) :
    Blind secret s (b.call run args) (fun v => secret.Clear v.owned)
      (Chronicle.call run bodies b args s) := by
  have served := discreet_serving discreet b
  refine Blind.noted (blind_holding (Secret.bare_value (Secret.clear_singleton.2 found)) ?_) _
  apply blind_of_hides
  intro hides
  apply blind_get_bind fun _ => rfl
  have strategyClear := hides.heap.binding found
  refine (blind_countCall _).step fun _ t counts _ => ?_
  have same := heap_of_countCall counts
  dsimp only at strategyClear ⊢
  cases is : (s.heap.binding b).strategy with
  | function enclosing =>
    rw [is] at strategyClear
    apply blind_get_bind fun _ => rfl
    apply blind_of_hides
    intro hides
    refine blind_withFrame ?_ fun u => blind_invoke served clear
    simp only [Frame.owned, Chain.owned, Value.owned, List.map_append, Secret.clear_append]
    exact ⟨Secret.clear_singleton.2 found, strategyClear, Secret.clear_singleton.2 hides.globals⟩
  | method owner =>
    rw [is] at strategyClear
    refine blind_callMethod served (Secret.clear_cons.1 strategyClear).1 clear fun own => ?_
    exact avoids_serving (by rw [same, is, own]; rfl)
  | declared owner =>
    rw [is] at strategyClear
    apply blind_get_bind
    · intro hides
      simp only [hides.isLive_veil]
    refine blind_ite (fun _ => ?_) fun _ => blind_fail _
    refine blind_callMethod served (Secret.clear_cons.1 strategyClear).1 clear fun own => ?_
    exact avoids_serving (by rw [same, is, own]; rfl)
  | closure captured =>
    rw [is] at strategyClear
    exact blind_withFrame strategyClear fun u => blind_invoke served clear

/-! ## Names -/

theorem blind_get {x : ScopeId} (found : ¬secret.lost (.node (.scope x))) (name : String) :
    Blind secret s (x.get run name) (fun v => secret.Clear v.owned)
      (Chronicle.get run bodies x name s) := by
  apply blind_of_hides
  intro hides
  apply blind_get_bind
  · intro _
    simp only [Session.veil, hides.heap.resolve_veil found]
  unfold Chronicle.get
  rcases leads : s.heap.resolve x name with _ | ⟨y, v | v | ⟨getter, setter⟩⟩
  · exact blind_fail _
  · exact blind_pure (hides.heap.resolve found leads).2
  · exact blind_pure (hides.heap.resolve found leads).2
  · have getterFound := (Secret.clear_cons.1 (hides.heap.resolve found leads).2).1
    exact blind_call discreet getterFound (List.forall_mem_nil _)

theorem blind_set {x : ScopeId} (found : ¬secret.lost (.node (.scope x))) (name : String)
    {v : Value} (clear : secret.Clear v.owned) :
    Blind secret s (x.set run name v) (fun _ => True) (Chronicle.set run bodies x name v s) := by
  apply blind_of_hides
  intro hides
  apply blind_get_bind
  · intro _
    simp only [Session.veil, hides.heap.resolve_veil found]
  unfold Chronicle.set
  rcases leads : s.heap.resolve x name with _ | ⟨y, old | old | ⟨getter, _ | setter⟩⟩
  · exact blind_fail _
  · exact blind_store (hides.heap.resolve found leads).1 name clear
  · exact blind_fail _
  · exact blind_fail _
  · have setterFound := (Secret.clear_cons.1 (Secret.clear_cons.1
      (hides.heap.resolve found leads).2).2).1
    exact (blind_call discreet setterFound (List.forall_mem_singleton.2 clear)).map
      fun _ _ => trivial

theorem blind_chainGet {chain : Chain} (clear : secret.Clear (Chain.owned chain)) (name : String) :
    Blind secret s (Chain.get run chain name) (fun v => secret.Clear v.owned)
      (Chronicle.chainGet run bodies chain name s) := by
  apply blind_holding (Secret.bare_ofScopes clear)
  apply blind_get_bind
  · intro hides
    simp only [Session.veil, hides.heap.findScope_veil clear]
  dsimp only
  cases leads : s.heap.findScope chain name with
  | none => exact blind_fail _
  | some x =>
    exact blind_get discreet (Secret.clear_chain.1 clear x (Heap.mem_of_findScope leads)) name

theorem blind_chainSet {chain : Chain} (clear : secret.Clear (Chain.owned chain)) (name : String)
    {v : Value} (valueClear : secret.Clear v.owned) :
    Blind secret s (Chain.set run chain name v) (fun _ => True)
      (Chronicle.chainSet run bodies chain name v s) := by
  apply blind_holding (Secret.bare_ofScopes clear)
  apply blind_get_bind
  · intro hides
    simp only [Session.veil, hides.heap.findScope_veil clear]
  dsimp only
  cases leads : s.heap.findScope chain name with
  | none => exact blind_fail _
  | some x =>
    have found := Secret.clear_chain.1 clear x (Heap.mem_of_findScope leads)
    exact blind_set discreet found name valueClear

theorem blind_lookup (name : String) :
    Blind secret s (lookup run name) (fun v => secret.Clear v.owned)
      (Chronicle.lookup run bodies name s) :=
  blind_of_hides fun hides =>
    blind_get_bind (fun _ => rfl) (blind_chainGet discreet hides.currentChain name)

theorem blind_assign (name : String) {v : Value} (clear : secret.Clear v.owned) :
    Blind secret s (assign run name v) (fun _ => True)
      (Chronicle.assign run bodies name v s) :=
  blind_of_hides fun hides =>
    blind_get_bind (fun _ => rfl) (blind_chainSet discreet hides.currentChain name clear)

/-! ## Entities -/

omit discreet in
theorem blind_attach {b : BindingId} (found : ¬secret.lost (.node (.binding b))) :
    Blind secret s (attach b) (fun made => ¬secret.lost (.node (.binding made))) c := by
  apply blind_of_hides
  intro hides
  have strategyClear := hides.heap.binding found
  apply blind_get_bind
  · intro hides
    simp only [hides.isLive_veil]
    rfl
  dsimp only
  split
  · next owner is =>
    rw [is] at strategyClear
    split
    · exact blind_newBinding strategyClear
    · exact blind_pure found
  · exact blind_pure found

theorem blind_getMember {e : EntityId} (found : ¬secret.lost (.node (.entity e))) (name : String) :
    Blind secret s (getMember run e name) (fun v => secret.Clear v.owned)
      (Chronicle.getMember run bodies e name s) := by
  apply blind_of_hides
  intro hides
  have members := hides.heap.members found
  apply blind_get_bind
  · intro _
    simp only [hides.hasMember_veil found]
    rfl
  refine blind_ite (fun _ => ?_) fun _ => blind_fail _
  refine (blind_get discreet members name).onwards fun v t _ clear => ?_
  cases v with
  | binding b =>
    exact (blind_attach (Secret.clear_singleton.1 clear)).map fun _ found =>
      Secret.clear_singleton.2 found
  | void | bool | int | str | entity => exact blind_pure clear

theorem blind_setMember {e : EntityId} (found : ¬secret.lost (.node (.entity e))) (name : String)
    {v : Value} (clear : secret.Clear v.owned) :
    Blind secret s (setMember run e name v) (fun _ => True)
      (Chronicle.setMember run bodies e name v s) := by
  apply blind_of_hides
  intro hides
  apply blind_get_bind
  · intro _
    simp only [hides.hasMember_veil found]
    rfl
  refine blind_ite (fun _ => ?_) fun _ => blind_fail _
  exact blind_set discreet (hides.heap.members found) name clear

theorem blind_invokeHook {e : EntityId} (found : ¬secret.lost (.node (.entity e))) (name : String)
    {args : List Value} (clear : ∀ v ∈ args, secret.Clear v.owned) :
    Blind secret s (invokeHook run e name args) (fun v => secret.Clear v.owned)
      (Chronicle.invokeHook run bodies e name args s) := by
  apply blind_of_hides
  intro hides
  apply blind_get_bind
  · intro _
    simp only [hides.supportsHook_veil found]
    rfl
  refine blind_ite (fun _ => ?_) fun _ => blind_fail _
  refine (blind_get discreet (hides.heap.hooks found) name).bind fun v t _ hookClear => ?_
  cases v with
  | binding b => exact blind_call discreet (Secret.clear_singleton.1 hookClear) clear
  | void | bool | int | str | entity => exact blind_fail _

theorem blind_callValue {callee : Value} (calleeClear : secret.Clear callee.owned)
    {args : List Value} (clear : ∀ v ∈ args, secret.Clear v.owned) :
    Blind secret s (callValue run callee args) (fun v => secret.Clear v.owned)
      (Chronicle.callValue run bodies callee args s) := by
  cases callee with
  | binding b => exact blind_call discreet (Secret.clear_singleton.1 calleeClear) clear
  | entity e =>
    have found := Secret.clear_singleton.1 calleeClear
    unfold callValue Chronicle.callValue
    apply blind_holding (Secret.bare_value calleeClear)
    apply blind_get_bind
    · intro hides
      simp only [hides.supportsHook_veil found]
      rfl
    exact blind_ite (fun _ => blind_invokeHook discreet found callHook clear) fun _ => blind_fail _
  | void | bool | int | str => exact blind_fail _

theorem blind_invokeMember {e : EntityId} (found : ¬secret.lost (.node (.entity e)))
    (name : String) {args : List Value} (clear : ∀ v ∈ args, secret.Clear v.owned) :
    Blind secret s (invokeMember run e name args) (fun v => secret.Clear v.owned)
      (Chronicle.invokeMember run bodies e name args s) :=
  (blind_getMember discreet found name).bind fun _ _ _ calleeClear =>
    blind_callValue discreet calleeClear clear

/-! ## Root methods -/

theorem blind_selfEntity :
    Blind secret s (selfEntity run) (fun e => ¬secret.lost (.node (.entity e)))
      (Chronicle.selfEntity run bodies s) := by
  refine (blind_lookup discreet "self").bind fun v t _ clear => ?_
  cases v with
  | entity e => exact blind_pure (Secret.clear_singleton.1 clear)
  | void | bool | int | str | binding => exact blind_fail _

omit discreet in
theorem Secret.clear_ofEntity {found : Option EntityId}
    (clear : ∀ e, found = some e → ¬secret.lost (.node (.entity e))) :
    secret.Clear (Value.ofEntity? found).owned := by
  cases found with
  | none => exact clear_nil
  | some e => exact clear_singleton.2 (clear e rfl)

theorem blind_rootMethod (method : RootMethod) :
    Blind secret s (method.answer run) (fun v => secret.Clear v.owned)
      (Chronicle.rootMethod run bodies method s) := by
  refine (blind_selfEntity discreet).bind fun self t _ found => ?_
  cases method with
  | id => exact blind_pure Secret.clear_nil
  | type =>
    refine blind_of_hides fun hides => blind_get_bind (fun _ => rfl) (blind_pure ?_)
    exact Secret.clear_ofEntity fun _ is => hides.heap.type found is
  | super =>
    refine blind_of_hides fun hides => blind_get_bind (fun _ => rfl) (blind_pure ?_)
    exact Secret.clear_ofEntity fun _ is => hides.heap.super found is
  | text => exact blind_get_bind (fun _ => rfl) (blind_pure Secret.clear_nil)
  | hasMember =>
    refine (blind_lookup discreet "name").bind fun v u _ _ => ?_
    cases v with
    | str name =>
      apply blind_get_bind
      · intro hides
        rw [hides.hasMember_veil found]
      · exact blind_pure Secret.clear_nil
    | void | bool | int | entity | binding => exact blind_fail _

end

end Delegation
