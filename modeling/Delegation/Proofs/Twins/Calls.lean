import Delegation.Proofs.Run.Registries
import Delegation.Proofs.Twins.Calm

/-!
# Calls and look-ups agree

Calling a binding from twins runs its body in the same frame on top of both stacks, and names are
looked up in the same chain once something has been pushed. So as long as bodies agree, calls and
look-ups do, and so does all that entities are asked for.
-/

namespace Delegation

open Delegation.Action

/-- How bodies are run and which ones heed what has to be heeded, for two runs: bodies agree that
begin in fit twins, in the same frame. -/
structure Paired (callers : Callers) (start start' : Session) (run : Runner)
    (inside inside' : Body → Session → Prop) : Prop where
  world : SameWorld start start'
  runs : run.Runs true
  bodies : ∀ upper s t body, upper ≠ [] → FitTwins callers upper s t → inside body s →
    inside' body t → Agrees callers upper Eq s t (run body) (run body)

variable {callers : Callers} {upper : List Frame} {start start' s t : Session} {run : Runner}
  {inside inside' : Body → Session → Prop}

namespace Paired

variable (paired : Paired callers start start' run inside inside')

include paired

/-! ## Invocation -/

theorem invoke (twins : FitTwins callers upper s t) (framed : upper ≠ []) {callable : Callable}
    {args : List Value} (known : ∀ v ∈ args, s.heap.HasAll v.owned)
    (calm : Heeding.invoke (Calm start) inside callable args s)
    (calm' : Heeding.invoke (Calm start') inside' callable args t) :
    Agrees callers upper Eq s t (callable.invoke run args) (callable.invoke run args) := by
  by_cases enough : args.length = callable.arity
  · have bound := Callable.bindParameters_eq_ok enough
    rw [Callable.invoke_eq run enough]
    apply ((Oblivious.newScope _).agrees twins.toTwin).bind twins
      (runs_newScope (Callable.admits_parameters known enough))
    intro x _ u v gives gives' same _ twins' xKnown
    subst same
    refine agrees_withScope twins' framed (Heap.hasAll_cons.1 xKnown).1
      (calm enough _ bound _ _ gives) (calm' enough _ bound _ _ gives') ?_
    exact fun upper' u v framed' twins'' _ => paired.bodies upper' u v _ framed' twins''
  · simp only [Callable.invoke, if_pos enough]
    exact agrees_fail twins.toTwin _

theorem callMethod (twins : FitTwins callers upper s t)
    (framed : upper ≠ [] ∨ s.running = callers.home) {callable : Callable} {owner : EntityId}
    {args : List Value} (has : s.heap.Has (.entity owner))
    (known : ∀ v ∈ args, s.heap.HasAll v.owned)
    (calm : Heeding.callMethod (Calm start) inside callable owner args s)
    (calm' : Heeding.callMethod (Calm start') inside' callable owner args t) :
    Agrees callers upper Eq s t (callMethod run callable owner args)
      (callMethod run callable owner args) := by
  apply agrees_keeping twins rfl (by simp [Object.refs, Value.owned, has]) calm calm'
  rintro u v twins running heap ⟨ask, calm⟩ ⟨ask', calm'⟩
  rw [← heap] at has known
  rw [← running] at framed
  have receiver := twins.receiver paired.world ask ask' has
  have chain : methodChain v owner = methodChain u owner := by
    rw [methodChain, methodChain, twins.heap, twins.globals]
  have receiverHas := Session.has_receiver twins.fit.heap has
  have frameKnown : u.heap.HasAll (Frame.owned
      ⟨.entity (u.receiver owner), callable.name, methodChain u owner⟩) :=
    Heap.hasAll_cons.2 ⟨receiverHas, hasAll_methodChain twins.fit has⟩
  rw [receiver, chain, twins.heap] at calm'
  apply agrees_get_bind
  dsimp only
  rw [receiver, chain, twins.heap]
  apply ((Oblivious.newScope _).agrees twins.toTwin).bind twins
    (runs_newScope (admits_identityScope twins.fit.heap has receiverHas))
  intro x _ u' v' gives gives' same onward twins' xKnown
  subst same
  rw [← onward.running] at framed
  refine agrees_withFrame twins' framed (onward.grows.hasAll frameKnown) (calm _ _ gives)
    (calm' _ _ gives') fun upper' w w' framed' twins'' same calm calm' => ?_
  refine agrees_withScope twins'' framed' (same ▸ (Heap.hasAll_cons.1 xKnown).1) calm calm' ?_
  intro upper'' z z' framed'' twins''' same' calm calm'
  refine paired.invoke twins''' framed'' (fun a place => ?_) calm calm'
  rw [same', same]
  exact onward.grows.hasAll (known a place)

theorem call (twins : FitTwins callers upper s t)
    (framed : upper ≠ [] ∨ s.running = callers.home) {b : BindingId} {args : List Value}
    (has : s.heap.Has (.binding b)) (known : ∀ v ∈ args, s.heap.HasAll v.owned)
    (calm : Heeding.call (Calm start) inside b args s)
    (calm' : Heeding.call (Calm start') inside' b args t) :
    Agrees callers upper Eq s t (b.call run args) (b.call run args) := by
  apply agrees_keeping twins rfl (by simp [Object.refs, Value.owned, has]) calm calm'
  intro u v twins running heap calm calm'
  rw [← heap] at has known
  rw [← running] at framed
  rw [twins.heap] at calm'
  apply agrees_get_bind
  dsimp only at calm calm' ⊢
  rw [twins.heap]
  apply ((Oblivious.countCall _).agrees twins.toTwin).bind twins (runs_countCall twins.fit _)
  intro _ _ u' v' gives gives' _ onward twins' _
  replace calm := calm _ _ gives
  replace calm' := calm' _ _ gives'
  rw [← onward.running] at framed
  have strategyKnown := onward.grows.hasAll (twins.fit.heap.has_binding has)
  have argsKnown : ∀ v ∈ args, u'.heap.HasAll v.owned :=
    fun v place => onward.grows.hasAll (known v place)
  have bKnown := onward.grows.has _ has
  cases is : (u.heap.binding b).strategy with
  | function enclosing =>
    rw [is] at strategyKnown
    simp only [is] at calm calm' ⊢
    rw [twins'.globals] at calm'
    apply agrees_get_bind
    rw [twins'.globals]
    have enclosingKnown : u'.heap.HasAll (enclosing.toList.map .scope) := strategyKnown
    refine agrees_withFrame twins' framed ?_ calm calm' ?_
    · simp only [Frame.owned, Chain.owned, Value.owned, List.map_append, List.map_cons,
        List.map_nil, Heap.hasAll_append, Heap.hasAll_cons]
      exact ⟨⟨bKnown, Heap.hasAll_nil _⟩, enclosingKnown, twins'.fit.globals, Heap.hasAll_nil _⟩
    · intro upper' w w' framed' twins'' same
      exact paired.invoke twins'' framed' fun a place => same ▸ argsKnown a place
  | method owner =>
    rw [is] at strategyKnown
    simp only [is] at calm calm' ⊢
    exact paired.callMethod twins' framed (Heap.hasAll_cons.1 strategyKnown).1 argsKnown calm calm'
  | declared owner =>
    rw [is] at strategyKnown
    simp only [is] at calm calm' ⊢
    have live := twins'.isLive paired.world calm.1 calm'.1 owner
    apply agrees_get_bind
    rw [live]
    split
    · next alive =>
      exact paired.callMethod twins' framed (Heap.hasAll_cons.1 strategyKnown).1 argsKnown
        (calm.2 alive) (calm'.2 (live.trans alive))
    · exact agrees_fail twins'.toTwin _
  | closure captured =>
    rw [is] at strategyKnown
    simp only [is] at calm calm' ⊢
    refine agrees_withFrame twins' framed strategyKnown calm calm' ?_
    intro upper' w w' framed' twins'' same
    exact paired.invoke twins'' framed' fun a place => same ▸ argsKnown a place

/-! ## Names -/

theorem get (twins : FitTwins callers upper s t) (framed : upper ≠ []) {x : ScopeId}
    (has : s.heap.Has (.scope x)) {name : String}
    (calm : Heeding.get (Calm start) inside x name s)
    (calm' : Heeding.get (Calm start') inside' x name t) :
    Agrees callers upper Eq s t (x.get run name) (x.get run name) := by
  unfold Heeding.get at calm calm'
  rw [twins.heap] at calm'
  apply agrees_get_bind
  rw [twins.heap]
  cases found : s.heap.resolve x name with
  | none => exact agrees_fail twins.toTwin _
  | some entry =>
    obtain ⟨y, cell⟩ := entry
    rw [found] at calm calm'
    cases cell with
    | mutable v | constant v => exact agrees_pure twins.toTwin rfl
    | computed getter setter =>
      have getterHas := (Heap.hasAll_cons.1 (twins.fit.heap.has_resolve has found).2.1).1
      exact paired.call twins (.inl framed) getterHas nofun calm calm'

theorem set (twins : FitTwins callers upper s t) (framed : upper ≠ []) {x : ScopeId}
    (has : s.heap.Has (.scope x)) {name : String} {v : Value} (known : s.heap.HasAll v.owned)
    (calm : Heeding.set (Calm start) inside x name v s)
    (calm' : Heeding.set (Calm start') inside' x name v t) :
    Agrees callers upper Eq s t (x.set run name v) (x.set run name v) := by
  unfold Heeding.set at calm calm'
  rw [twins.heap] at calm'
  apply agrees_get_bind
  rw [twins.heap]
  cases found : s.heap.resolve x name with
  | none => exact agrees_fail twins.toTwin _
  | some entry =>
    obtain ⟨y, cell⟩ := entry
    rw [found] at calm calm'
    cases cell with
    | mutable _ => exact (Oblivious.onHeap _).agrees twins.toTwin
    | constant _ => exact agrees_fail twins.toTwin _
    | computed getter setter =>
      cases setter with
      | none => exact agrees_fail twins.toTwin _
      | some setter =>
        have cellKnown := (twins.fit.heap.has_resolve has found).2.1
        have setterHas := (Heap.hasAll_cons.1 (Heap.hasAll_cons.1 cellKnown).2).1
        exact (paired.call twins (.inl framed) setterHas (List.forall_mem_singleton.2 known) calm
          calm').map fun _ _ _ => rfl

theorem chainGet (twins : FitTwins callers upper s t) (framed : upper ≠ []) {chain : Chain}
    (known : s.heap.HasAll (Chain.owned chain)) {name : String}
    (calm : Heeding.chainGet (Calm start) inside chain name s)
    (calm' : Heeding.chainGet (Calm start') inside' chain name t) :
    Agrees callers upper Eq s t (Chain.get run chain name) (Chain.get run chain name) := by
  apply agrees_keeping twins rfl ((refs_ofScopes chain).symm ▸ known) calm calm'
  intro u v twins _ heap calm calm'
  rw [twins.heap] at calm'
  apply agrees_get_bind
  rw [twins.heap]
  split
  · next found =>
    have has := hasAll_chain.1 known _ (Heap.mem_of_findScope found)
    exact paired.get twins framed (heap ▸ has) (calm _ found) (calm' _ found)
  · exact agrees_fail twins.toTwin _

theorem chainSet (twins : FitTwins callers upper s t) (framed : upper ≠ []) {chain : Chain}
    (known : s.heap.HasAll (Chain.owned chain)) {name : String} {v : Value}
    (valueKnown : s.heap.HasAll v.owned)
    (calm : Heeding.chainSet (Calm start) inside chain name v s)
    (calm' : Heeding.chainSet (Calm start') inside' chain name v t) :
    Agrees callers upper Eq s t (Chain.set run chain name v) (Chain.set run chain name v) := by
  apply agrees_keeping twins rfl ((refs_ofScopes chain).symm ▸ known) calm calm'
  intro u w twins _ heap calm calm'
  rw [twins.heap] at calm'
  apply agrees_get_bind
  rw [twins.heap]
  split
  · next found =>
    have has := hasAll_chain.1 known _ (Heap.mem_of_findScope found)
    exact paired.set twins framed (heap ▸ has) (heap ▸ valueKnown) (calm _ found) (calm' _ found)
  · exact agrees_fail twins.toTwin _

theorem lookup (twins : FitTwins callers upper s t) (framed : upper ≠ []) {name : String}
    (calm : Heeding.lookup (Calm start) inside name s)
    (calm' : Heeding.lookup (Calm start') inside' name t) :
    Agrees callers upper Eq s t (lookup run name) (lookup run name) := by
  unfold Heeding.lookup at calm calm'
  rw [twins.currentChain framed] at calm'
  apply agrees_get_bind
  rw [twins.currentChain framed]
  exact paired.chainGet twins framed twins.fit.currentChain calm calm'

theorem assign (twins : FitTwins callers upper s t) (framed : upper ≠ []) {name : String}
    {v : Value} (known : s.heap.HasAll v.owned)
    (calm : Heeding.assign (Calm start) inside name v s)
    (calm' : Heeding.assign (Calm start') inside' name v t) :
    Agrees callers upper Eq s t (assign run name v) (assign run name v) := by
  unfold Heeding.assign at calm calm'
  rw [twins.currentChain framed] at calm'
  apply agrees_get_bind
  rw [twins.currentChain framed]
  exact paired.chainSet twins framed twins.fit.currentChain known calm calm'

/-! ## Entities -/

omit paired in
theorem attach (world : SameWorld start start') (twins : FitTwins callers upper s t)
    {b : BindingId} (calm : Heeding.attach (Calm start) b s)
    (calm' : Heeding.attach (Calm start') b t) :
    Agrees callers upper Eq s t (attach b) (attach b) := by
  unfold Heeding.attach at calm calm'
  rw [twins.heap] at calm'
  apply agrees_get_bind
  dsimp only
  rw [twins.heap]
  split
  · next owner is =>
    rw [is] at calm calm'
    rw [twins.isLive world calm calm']
    split
    · exact (Oblivious.newBinding _).agrees twins.toTwin
    · exact agrees_pure twins.toTwin rfl
  · exact agrees_pure twins.toTwin rfl

theorem getMember (twins : FitTwins callers upper s t) (framed : upper ≠ []) {e : EntityId}
    (has : s.heap.Has (.entity e)) {name : String}
    (calm : Heeding.getMember (Calm start) run inside e name s)
    (calm' : Heeding.getMember (Calm start') run inside' e name t) :
    Agrees callers upper Eq s t (getMember run e name) (getMember run e name) := by
  unfold Heeding.getMember at calm calm'
  rw [twins.heap] at calm'
  apply agrees_get_bind
  dsimp only
  rw [twins.heap]
  split
  · next member =>
    obtain ⟨reads, attaches⟩ := calm member
    obtain ⟨reads', attaches'⟩ := calm' member
    have tableHas := (twins.fit.heap.has_tables has).2.2
    apply (paired.get twins framed tableHas reads reads').bind twins
      (runs_get paired.runs twins.fit tableHas name)
    intro v _ u w gives gives' same _ twins' known
    subst same
    have attaches := attaches _ _ gives
    have attaches' := attaches' _ _ gives'
    cases v with
    | binding b => exact (attach paired.world twins' attaches attaches').map fun _ _ => congrArg _
    | void | bool | int | str | entity => exact agrees_pure twins'.toTwin rfl
  · exact agrees_fail twins.toTwin _

theorem setMember (twins : FitTwins callers upper s t) (framed : upper ≠ []) {e : EntityId}
    (has : s.heap.Has (.entity e)) {name : String} {v : Value} (known : s.heap.HasAll v.owned)
    (calm : Heeding.setMember (Calm start) inside e name v s)
    (calm' : Heeding.setMember (Calm start') inside' e name v t) :
    Agrees callers upper Eq s t (setMember run e name v) (setMember run e name v) := by
  unfold Heeding.setMember at calm calm'
  rw [twins.heap] at calm'
  apply agrees_get_bind
  dsimp only
  rw [twins.heap]
  split
  · next member =>
    exact paired.set twins framed (twins.fit.heap.has_tables has).2.2 known (calm member)
      (calm' member)
  · exact agrees_fail twins.toTwin _

theorem invokeHook (twins : FitTwins callers upper s t) (framed : upper ≠ []) {e : EntityId}
    (has : s.heap.Has (.entity e)) {name : String} {args : List Value}
    (known : ∀ v ∈ args, s.heap.HasAll v.owned)
    (calm : Heeding.invokeHook (Calm start) run inside e name args s)
    (calm' : Heeding.invokeHook (Calm start') run inside' e name args t) :
    Agrees callers upper Eq s t (invokeHook run e name args) (invokeHook run e name args) := by
  unfold Heeding.invokeHook at calm calm'
  rw [twins.heap] at calm'
  apply agrees_get_bind
  dsimp only
  rw [twins.heap]
  split
  · next supported =>
    obtain ⟨reads, calls⟩ := calm supported
    obtain ⟨reads', calls'⟩ := calm' supported
    have tableHas := (twins.fit.heap.has_tables has).2.1
    apply (paired.get twins framed tableHas reads reads').bind twins
      (runs_get paired.runs twins.fit tableHas name)
    intro v _ u w gives gives' same onward twins' vKnown
    subst same
    have calls := calls _ _ gives
    have calls' := calls' _ _ gives'
    cases v with
    | binding b =>
      exact paired.call twins' (.inl framed) (Heap.hasAll_cons.1 vKnown).1
        (fun a place => onward.grows.hasAll (known a place)) calls calls'
    | void | bool | int | str | entity => exact agrees_fail twins'.toTwin _
  · exact agrees_fail twins.toTwin _

theorem callValue (twins : FitTwins callers upper s t) (framed : upper ≠ []) {callee : Value}
    {args : List Value} (has : s.heap.HasAll callee.owned)
    (known : ∀ v ∈ args, s.heap.HasAll v.owned)
    (calm : Heeding.callValue (Calm start) run inside callee args s)
    (calm' : Heeding.callValue (Calm start') run inside' callee args t) :
    Agrees callers upper Eq s t (callValue run callee args) (callValue run callee args) := by
  cases callee with
  | binding b => exact paired.call twins (.inl framed) (Heap.hasAll_cons.1 has).1 known calm calm'
  | entity e =>
    simp only [Heeding.callValue] at calm calm'
    apply agrees_keeping (x := .value (.entity e)) twins rfl has calm calm'
    intro u v twins _ heap calm calm'
    rw [← heap] at has known
    apply agrees_get_bind
    dsimp only
    rw [twins.heap]
    split
    · exact paired.invokeHook twins framed (Heap.hasAll_cons.1 has).1 known calm calm'
    · exact agrees_fail twins.toTwin _
  | void | bool | int | str => exact agrees_fail twins.toTwin _

theorem invokeMember (twins : FitTwins callers upper s t) (framed : upper ≠ []) {e : EntityId}
    (has : s.heap.Has (.entity e)) {name : String} {args : List Value}
    (known : ∀ v ∈ args, s.heap.HasAll v.owned)
    (calm : Heeding.invokeMember (Calm start) run inside e name args s)
    (calm' : Heeding.invokeMember (Calm start') run inside' e name args t) :
    Agrees callers upper Eq s t (invokeMember run e name args) (invokeMember run e name args) := by
  apply (paired.getMember twins framed has calm.1 calm'.1).bind twins
    (runs_getMember paired.runs twins.fit has name)
  intro v _ u w gives gives' same onward twins' vKnown
  subst same
  exact paired.callValue twins' framed vKnown (fun a place => onward.grows.hasAll (known a place))
    (calm.2 _ _ gives) (calm'.2 _ _ gives')

end Paired

end Delegation
