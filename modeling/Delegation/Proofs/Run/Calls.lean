import Delegation.Proofs.Heap.Layers
import Delegation.Proofs.Parameters
import Delegation.Proofs.Run.Rules

/-!
# Calls and look-ups run

Calling a binding, reading and writing names, and what entities are built and asked for. What a name
leads to is in the heap: the ancestors of a scope are, and what its cells hold.
-/

namespace Delegation

open Delegation.Action

variable {raw : Bool} {s : Session} {run : Runner}

/-! ## Invocation -/

/-- The scope with the parameters refers to what the arguments do. -/
theorem Callable.exists_owned_of_mem_refs {callable : Callable} {args : List Value} {x : Node}
    (place : x ∈ (callable.parameters args).refs) : ∃ v ∈ args, x ∈ v.owned := by
  obtain ⟨entry, listed, owned⟩ := Cell.mem_ownedByAll.1 place
  obtain ⟨v, argument, is⟩ := List.mem_map.1 (List.of_mem_zip listed).2
  rw [← is] at owned
  exact ⟨v, argument, owned⟩

theorem Callable.admits_parameters {heap : Heap} {callable : Callable} {args : List Value}
    (known : ∀ v ∈ args, heap.HasAll v.owned) (enough : args.length = callable.arity) :
    heap.Admits (callable.parameters args) where
  lineage := ⟨none, rfl⟩
  known x place := by
    obtain ⟨v, argument, owned⟩ := exists_owned_of_mem_refs place
    exact known v argument x owned
  distinct := by
    rw [symbols_parameters enough]
    exact callable.distinct
  accepted name place := by
    rw [symbols_parameters enough] at place
    exact callable.identifiers name place

theorem runs_invoke (runs : run.Runs raw) (fit : s.Fit raw) {callable : Callable}
    {args : List Value} (known : ∀ v ∈ args, s.heap.HasAll v.owned) :
    Runs raw s (callable.invoke run args) Value.owned := by
  by_cases enough : args.length = callable.arity
  · rw [Callable.invoke_eq run enough]
    refine (runs_newScope (Callable.admits_parameters known enough)).bind fit
      fun t x _ fit xKnown => ?_
    exact runs_withScope fit (Heap.hasAll_cons.1 xKnown).1 fun u fit _ => runs u callable.body fit
  · simp only [Callable.invoke, if_pos enough]
    exact runs_fail _

theorem runs_countCall (fit : s.Fit raw) (kind : BindingKind) :
    Runs raw s (countCall kind) fun _ => [] := by
  have counts : Runs raw s (modifyMachine (·.countCall kind)) fun _ => [] :=
    ⟨.count s kind, Heap.hasAll_nil _⟩
  apply counts.bind fit
  intro t _ _ _ _
  apply runs_get_bind
  split
  · exact runs_pure (Heap.hasAll_nil _)
  · exact runs_fail _

theorem admits_identityScope {heap : Heap} (sound : heap.Sound) {owner receiver : EntityId}
    (has : heap.Has (.entity owner)) (receiverHas : heap.Has (.entity receiver)) :
    heap.Admits (identityScope heap owner receiver) where
  lineage := ⟨none, rfl⟩
  known := by
    refine Heap.hasAll_cons.2 ⟨receiverHas, ?_⟩
    cases is : (heap.entity owner).super with
    | none => simp [Cell.ownedByAll, Cell.owned, Value.owned]
    | some base =>
      have baseHas := sound.has_super has is
      simp [Cell.ownedByAll, Cell.owned, Value.owned, baseHas]
  distinct := (by decide : ["self", "super"].Nodup)
  accepted := (by decide : ∀ name ∈ ["self", "super"], isIdentifier name = true)

theorem hasAll_methodChain (fit : s.Fit raw) {owner : EntityId} (has : s.heap.Has (.entity owner)) :
    s.heap.HasAll (Chain.owned (methodChain s owner)) := by
  have tables := fit.heap.has_tables has
  simp [methodChain, Heap.privateView, Chain.owned, tables, fit.globals]

theorem runs_callMethod (runs : run.Runs raw) (fit : s.Fit raw) {callable : Callable}
    {owner : EntityId} {args : List Value} (has : s.heap.Has (.entity owner))
    (known : ∀ v ∈ args, s.heap.HasAll v.owned) :
    Runs raw s (callMethod run callable owner args) Value.owned := by
  apply runs_holding fit (by simp [Object.refs, Value.owned, has])
  intro t fit same
  rw [← same] at has known
  have receiverHas := Session.has_receiver fit.heap has
  have identity := admits_identityScope fit.heap has receiverHas
  have chain := hasAll_methodChain fit has
  refine runs_get_bind ((runs_newScope identity).bind fit fun u x ran fit' xKnown => ?_)
  have frameKnown : u.heap.HasAll (Frame.owned
      ⟨.entity (t.receiver owner), callable.name, methodChain t owner⟩) :=
    ran.known fit (Heap.hasAll_cons.2 ⟨receiverHas, chain⟩)
  apply runs_withFrame fit' frameKnown
  intro v fitV same'
  rw [← same'] at xKnown
  apply runs_withScope fitV (Heap.hasAll_cons.1 xKnown).1
  intro w fitW same''
  apply runs_invoke runs fitW
  intro a place
  rw [same'', same']
  exact ran.known fit (known a place)

theorem runs_call (runs : run.Runs raw) (fit : s.Fit raw) {b : BindingId} {args : List Value}
    (has : s.heap.Has (.binding b)) (known : ∀ v ∈ args, s.heap.HasAll v.owned) :
    Runs raw s (b.call run args) Value.owned := by
  apply runs_holding fit (by simp [Object.refs, Value.owned, has])
  intro t fit same
  rw [← same] at has known
  refine runs_get_bind ((runs_countCall fit _).bind fit fun u _ ran fit' _ => ?_)
  have strategyKnown := ran.known fit (fit.heap.has_binding has)
  have argsKnown : ∀ v ∈ args, u.heap.HasAll v.owned := fun v place => ran.known fit (known v place)
  cases is : (t.heap.binding b).strategy with
  | function enclosing =>
    rw [is] at strategyKnown
    refine runs_get_bind (runs_withFrame fit' ?_ fun v fit'' same' => ?_)
    · have bKnown := ran.has fit has
      have enclosingKnown : u.heap.HasAll (enclosing.toList.map .scope) := strategyKnown
      simp only [Frame.owned, Chain.owned, Value.owned, List.map_append, List.map_cons,
        List.map_nil, Heap.hasAll_append, Heap.hasAll_cons]
      exact ⟨⟨bKnown, Heap.hasAll_nil _⟩, enclosingKnown, fit'.globals, Heap.hasAll_nil _⟩
    · exact runs_invoke runs fit'' fun v place => same' ▸ argsKnown v place
  | method owner =>
    rw [is] at strategyKnown
    exact runs_callMethod runs fit' (Heap.hasAll_cons.1 strategyKnown).1 argsKnown
  | declared owner =>
    rw [is] at strategyKnown
    apply runs_get_bind
    split
    · exact runs_callMethod runs fit' (Heap.hasAll_cons.1 strategyKnown).1 argsKnown
    · exact runs_fail _
  | closure captured =>
    rw [is] at strategyKnown
    exact runs_withFrame fit' strategyKnown fun v fit'' same' =>
      runs_invoke runs fit'' fun v place => same' ▸ argsKnown v place

/-! ## Names -/

theorem Heap.Sound.has_resolve {heap : Heap} (sound : heap.Sound) {x t : ScopeId} {name : String}
    {cell : Cell} (has : heap.Has (.scope x)) (found : heap.resolve x name = some (t, cell)) :
    heap.Has (.scope t) ∧ heap.HasAll cell.owned ∧ (heap.scope t).cell? name = some cell := by
  obtain ⟨u, place, found⟩ := List.exists_of_findSome?_eq_some found
  obtain ⟨cell', there, same⟩ := Option.map_eq_some_iff.1 found
  cases same
  have known := sound.has_path has place
  exact ⟨known, sound.has_cell known there, there⟩

theorem runs_get (runs : run.Runs raw) (fit : s.Fit raw) {x : ScopeId}
    (has : s.heap.Has (.scope x)) (name : String) : Runs raw s (x.get run name) Value.owned := by
  apply runs_get_bind
  split
  · next found => exact runs_pure (fit.heap.has_resolve has found).2.1
  · next found => exact runs_pure (fit.heap.has_resolve has found).2.1
  · next found =>
    have getterHas := (Heap.hasAll_cons.1 (fit.heap.has_resolve has found).2.1).1
    exact runs_call runs fit getterHas nofun
  · exact runs_fail _

theorem runs_set (runs : run.Runs raw) (fit : s.Fit raw) {x : ScopeId} {v : Value}
    (has : s.heap.Has (.scope x)) (name : String) (known : s.heap.HasAll v.owned) :
    Runs raw s (x.set run name v) fun _ => [] := by
  apply runs_get_bind
  split
  · next found =>
    obtain ⟨tHas, _, there⟩ := fit.heap.has_resolve has found
    exact runs_onHeap (.store tHas known there) (Heap.hasAll_nil _)
  · exact runs_fail _
  · exact runs_fail _
  · next found =>
    have cellKnown := (fit.heap.has_resolve has found).2.1
    have setterHas := (Heap.hasAll_cons.1 (Heap.hasAll_cons.1 cellKnown).2).1
    exact (runs_call runs fit setterHas (List.forall_mem_singleton.2 known)).bind fit
      fun _ _ _ _ _ => runs_pure (Heap.hasAll_nil _)
  · exact runs_fail _

theorem Heap.mem_of_findScope {heap : Heap} {chain : Chain} {name : String} {x : ScopeId}
    (found : heap.findScope chain name = some x) : x ∈ chain := List.mem_of_find?_eq_some found

theorem runs_chainGet (runs : run.Runs raw) (fit : s.Fit raw) {chain : Chain}
    (known : s.heap.HasAll (Chain.owned chain)) (name : String) :
    Runs raw s (Chain.get run chain name) Value.owned := by
  apply runs_holding fit ((refs_ofScopes chain).symm ▸ known)
  intro t fit same
  apply runs_get_bind
  split
  · next found =>
    exact runs_get runs fit (same ▸ hasAll_chain.1 known _ (Heap.mem_of_findScope found)) name
  · exact runs_fail _

theorem runs_chainSet (runs : run.Runs raw) (fit : s.Fit raw) {chain : Chain} {v : Value}
    (known : s.heap.HasAll (Chain.owned chain)) (name : String)
    (valueKnown : s.heap.HasAll v.owned) :
    Runs raw s (Chain.set run chain name v) fun _ => [] := by
  apply runs_holding fit ((refs_ofScopes chain).symm ▸ known)
  intro t fit same
  apply runs_get_bind
  split
  · next found =>
    exact runs_set runs fit (same ▸ hasAll_chain.1 known _ (Heap.mem_of_findScope found)) name
      (same ▸ valueKnown)
  · exact runs_fail _

theorem Session.Fit.currentChain (fit : s.Fit raw) :
    s.heap.HasAll (Chain.owned s.machine.currentChain) := by
  unfold Machine.currentChain
  split
  · next frame is =>
    have frameKnown : s.heap.HasAll frame.owned := by
      obtain ⟨rest, frames⟩ := List.head?_eq_some_iff.1 is
      have stack := fit.stack
      rw [CallStack.owned, frames, List.flatMap_cons, Heap.hasAll_append] at stack
      exact stack.1
    exact (Heap.hasAll_append.1 frameKnown).2
  · exact Heap.hasAll_cons.2 ⟨fit.globals, Heap.hasAll_nil _⟩

theorem runs_lookup (runs : run.Runs raw) (fit : s.Fit raw) (name : String) :
    Runs raw s (lookup run name) Value.owned :=
  runs_get_bind (runs_chainGet runs fit fit.currentChain name)

theorem runs_assign (runs : run.Runs raw) (fit : s.Fit raw) (name : String) {v : Value}
    (known : s.heap.HasAll v.owned) : Runs raw s (assign run name v) fun _ => [] :=
  runs_get_bind (runs_chainSet runs fit fit.currentChain name known)

/-! ## Entities -/

theorem runs_buildEntity {super type : Option EntityId} (name : String)
    (superKnown : ∀ base ∈ super, s.heap.Has (.entity base))
    (typeKnown : ∀ t ∈ type, s.heap.Has (.entity t)) :
    Runs raw s (buildEntity super type name) fun e => [.entity e] := by
  apply runs_get_bind
  dsimp only
  split
  · exact runs_fail _
  · next free =>
    have unlinked : ∀ base ∈ super, (s.heap.entity base).derived = none := by
      intro base is
      cases is
      simpa [Option.filter] using free
    apply runs_onHeap (.addEntity name superKnown typeKnown unlinked)
    rw [Heap.fst_addEntity, Heap.hasAll_cons]
    exact ⟨by simp [Heap.Has, Heap.size_entities_addEntity], Heap.hasAll_nil _⟩

theorem runs_declaredMethod {e : EntityId} (callable : Callable) (has : s.heap.Has (.entity e)) :
    Runs raw s (declaredMethod e callable) fun b => [.binding b] :=
  runs_newBinding _ (Heap.hasAll_cons.2 ⟨has, Heap.hasAll_nil _⟩) nofun

theorem runs_declareHook (fit : s.Fit raw) {e : EntityId} (has : s.heap.Has (.entity e))
    (name : String) (callable : Callable) :
    Runs raw s (declareHook e name callable) fun _ => [] := by
  apply (runs_declaredMethod callable has).bind fit
  intro t b ran fit' bKnown
  apply runs_get_bind
  exact runs_declare (fit'.heap.has_tables (ran.has fit has)).2.1 bKnown

theorem runs_declareMethod (fit : s.Fit raw) {e : EntityId} (has : s.heap.Has (.entity e))
    (name : String) (callable : Callable) :
    Runs raw s (declareMethod e name callable) fun _ => [] := by
  apply (runs_declaredMethod callable has).bind fit
  intro t b ran fit' bKnown
  apply runs_get_bind
  exact runs_declare (fit'.heap.has_tables (ran.has fit has)).2.2 bKnown

theorem runs_checkAccessor (accessor : Callable) (expected : Nat) :
    Runs raw s (checkAccessor accessor expected) fun _ => [] := by
  unfold checkAccessor
  split
  · exact runs_pure (Heap.hasAll_nil _)
  · exact runs_fail _

/-- What a property refers to. -/
def Property.refs : Property → List Node
  | .stored v => v.owned
  | .getter _ | .accessors _ _ => []

theorem runs_propertyCell (fit : s.Fit raw) {e : EntityId} (has : s.heap.Has (.entity e))
    {property : Property} (known : s.heap.HasAll property.refs) :
    Runs raw s (propertyCell e property) Cell.owned := by
  cases property with
  | stored v => exact runs_pure known
  | getter get =>
    apply (runs_checkAccessor get 0).bind fit
    intro t _ ran fit' _
    exact (runs_declaredMethod get (ran.has fit has)).map fun b => List.Subset.refl _
  | accessors get set =>
    apply (runs_checkAccessor get 0).bind fit
    intro t _ ran fitT _
    apply (runs_checkAccessor set 1).bind fitT
    intro u _ ran' fitU _
    have hasU := ran'.has fitT (ran.has fit has)
    apply (runs_declaredMethod get hasU).bind fitU
    intro v getter ranV fitV getterKnown
    refine (runs_declaredMethod set (ranV.has fitU hasU)).bind fitV
      fun w setter ranW _ setterKnown => ?_
    exact runs_pure (Heap.hasAll_append.2 ⟨ranW.known fitV getterKnown, setterKnown⟩)

theorem runs_declareProperty (fit : s.Fit raw) {e : EntityId} (has : s.heap.Has (.entity e))
    (name : String) {property : Property} (known : s.heap.HasAll property.refs) :
    Runs raw s (declareProperty e name property) fun _ => [] := by
  apply (runs_propertyCell fit has known).bind fit
  intro t cell ran fit' cellKnown
  exact runs_get_bind (runs_declare (fit'.heap.has_tables (ran.has fit has)).2.2 cellKnown)

theorem runs_declareField (fit : s.Fit raw) {e : EntityId} (has : s.heap.Has (.entity e))
    (name : String) {cell : Cell} (known : s.heap.HasAll cell.owned) :
    Runs raw s (declareField e name cell) fun _ => [] :=
  runs_get_bind (runs_declare (fit.heap.has_tables has).1 known)

theorem runs_attach (fit : s.Fit raw) {b : BindingId} (has : s.heap.Has (.binding b)) :
    Runs raw s (attach b) fun b => [.binding b] := by
  have same : s.heap.HasAll [.binding b] := Heap.hasAll_cons.2 ⟨has, Heap.hasAll_nil _⟩
  apply runs_get_bind
  dsimp only
  split
  · next owner is =>
    have known := fit.heap.has_binding has
    rw [is] at known
    split
    · exact runs_newBinding _ known nofun
    · exact runs_pure same
  · exact runs_pure same

theorem runs_getMember (runs : run.Runs raw) (fit : s.Fit raw) {e : EntityId}
    (has : s.heap.Has (.entity e)) (name : String) :
    Runs raw s (getMember run e name) Value.owned := by
  apply runs_get_bind
  dsimp only
  split
  · refine (runs_get runs fit (fit.heap.has_tables has).2.2 name).bind fit
      fun t v _ fit' known => ?_
    split
    · exact (runs_attach fit' (Heap.hasAll_cons.1 known).1).map fun _ => List.Subset.refl _
    · exact runs_pure known
  · exact runs_fail _

theorem runs_setMember (runs : run.Runs raw) (fit : s.Fit raw) {e : EntityId}
    (has : s.heap.Has (.entity e)) (name : String) {v : Value} (known : s.heap.HasAll v.owned) :
    Runs raw s (setMember run e name v) fun _ => [] := by
  apply runs_get_bind
  dsimp only
  split
  · exact runs_set runs fit (fit.heap.has_tables has).2.2 name known
  · exact runs_fail _

theorem runs_invokeHook (runs : run.Runs raw) (fit : s.Fit raw) {e : EntityId}
    (has : s.heap.Has (.entity e)) (name : String) {args : List Value}
    (known : ∀ v ∈ args, s.heap.HasAll v.owned) :
    Runs raw s (invokeHook run e name args) Value.owned := by
  apply runs_get_bind
  dsimp only
  split
  · refine (runs_get runs fit (fit.heap.has_tables has).2.1 name).bind fit
      fun t v ran fit' vKnown => ?_
    split
    · exact runs_call runs fit' (Heap.hasAll_cons.1 vKnown).1 fun v place =>
        ran.known fit (known v place)
    · exact runs_fail _
  · exact runs_fail _

theorem runs_callValue (runs : run.Runs raw) (fit : s.Fit raw) {callee : Value} {args : List Value}
    (has : s.heap.HasAll callee.owned) (known : ∀ v ∈ args, s.heap.HasAll v.owned) :
    Runs raw s (callValue run callee args) Value.owned := by
  unfold callValue
  split
  · exact runs_call runs fit (Heap.hasAll_cons.1 has).1 known
  · refine runs_holding fit has fun t fit same => runs_get_bind ?_
    rw [← same] at has known
    dsimp only
    split
    · exact runs_invokeHook runs fit (Heap.hasAll_cons.1 has).1 callHook known
    · exact runs_fail _
  · exact runs_fail _

theorem runs_invokeMember (runs : run.Runs raw) (fit : s.Fit raw) {e : EntityId}
    (has : s.heap.Has (.entity e)) (name : String) {args : List Value}
    (known : ∀ v ∈ args, s.heap.HasAll v.owned) :
    Runs raw s (invokeMember run e name args) Value.owned :=
  (runs_getMember runs fit has name).bind fit fun _ _ ran fit' calleeKnown =>
    runs_callValue runs fit' calleeKnown fun v place => ran.known fit (known v place)

end Delegation
