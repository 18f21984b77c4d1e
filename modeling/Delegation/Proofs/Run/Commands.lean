import Delegation.Proofs.Run.Queries
import Delegation.Proofs.Run.Registries

/-!
# Commands run

Every command makes a run, those on stacks one that handles stacks by hand.
-/

namespace Delegation

open Delegation.Action Delegation.Object

variable {raw : Bool} {s : Session} {run : Runner} {xs : List Object}

/-! ## Shared things -/

theorem runs_newChain (fit : s.Fit raw) {chain : Chain}
    (known : s.heap.HasAll (Chain.owned chain)) :
    Runs raw s (newChain chain) fun _ => [] := by
  refine ⟨.chains fun other place => ?_, Heap.hasAll_nil _⟩
  rcases Array.mem_push.1 place with old | rfl
  · exact fit.chains other old
  · exact known

theorem runs_modifyChain (fit : s.Fit raw) (c : ChainId) (f : Chain → Chain)
    (keeps : s.heap.HasAll (Chain.owned (s.chain c)) →
      s.heap.HasAll (Chain.owned (f (s.chain c)))) :
    Runs raw s (modifyChain c f) fun _ => [] := by
  refine ⟨.chains fun other place => ?_, Heap.hasAll_nil _⟩
  obtain ⟨i, below, is⟩ := Array.mem_iff_getElem.1 place
  rw [Array.size_modify] at below
  rw [Array.getElem_modify] at is
  have old := fit.chains _ (Array.getElem_mem below)
  split at is
  · next same =>
    have here : s.chain c = s.sharedChains[i] := by simp [Session.chain, same, below]
    rw [← is, ← here]
    exact keeps (here ▸ old)
  · exact is ▸ old

theorem runs_newBuilder (fit : s.Fit raw) {registry : Registry}
    (known : s.heap.HasAll registry.owned) : Runs raw s (newBuilder registry) fun _ => [] := by
  refine ⟨.builders fun other place => ?_, Heap.hasAll_nil _⟩
  rcases Array.mem_push.1 place with old | same
  · exact fit.builders other old
  · cases same
    exact known

theorem runs_setBuilder (fit : s.Fit raw) (b : BuilderId) {registry : Option Registry}
    (known : ∀ r, registry = some r → s.heap.HasAll r.owned) :
    Runs raw s (setBuilder b registry) fun _ => [] := by
  refine ⟨.builders fun other place => ?_, Heap.hasAll_nil _⟩
  rcases Array.mem_or_eq_of_mem_setIfInBounds place with old | same
  · exact fit.builders other old
  · exact known other same.symm

theorem runs_builderAt (fit : s.Fit raw) (b : BuilderId) :
    Runs raw s (builderAt b) Registry.owned := by
  apply runs_get_bind
  split
  · next registry is => exact runs_pure (fit.builder is)
  · exact runs_malformed _

/-! ## Commands -/

theorem admits_emptyScope {heap : Heap} (parent : Option ScopeId) (policy : Policy)
    (known : ∀ x ∈ (parent.map heap.path).getD [], heap.Has (.scope x)) :
    heap.Admits (heap.emptyScope parent policy) where
  lineage := ⟨parent, rfl⟩
  known := by
    refine Heap.hasAll_append.2 ⟨fun x place => ?_, Heap.hasAll_nil _⟩
    obtain ⟨t, listed, rfl⟩ := List.mem_map.1 place
    exact known t listed
  distinct := .nil
  accepted := nofun

theorem runs_tableCommand (runs : run.Runs raw) (fit : s.Fit raw) (command : TableCommand)
    (known : s.heap.HasAll (refsAll xs)) : Runs raw s (command.act run xs) Object.refs := by
  cases command with
  | scope =>
    apply runs_lift_bind
    intro policy _
    exact (runs_newScope (admits_emptyScope none policy nofun)).map
      fun _ => List.Subset.refl _
  | child =>
    apply runs_lift_bind
    intro parent read
    apply runs_lift_bind
    intro policy _
    apply runs_get_bind
    have has := operand_has reads_asScope known read
    exact (runs_newScope
      (admits_emptyScope (some parent) policy fun _ => fit.heap.has_path has)).map
      fun _ => List.Subset.refl _
  | declare =>
    refine runs_lift_bind fun x read => runs_lift_bind fun name _ =>
      runs_lift_bind fun cell read' => ?_
    have cellKnown := operand_known reads_asCell known read'
    exact (runs_declare (operand_has reads_asScope known read) cellKnown).map
      fun _ => List.Subset.refl _
  | «seal» =>
    apply runs_lift_bind
    intro x read
    exact (runs_close (operand_has reads_asScope known read)).map fun _ => List.Subset.refl _
  | get =>
    apply runs_lift_bind
    intro table read
    apply runs_lift_bind
    intro name _
    have tableKnown := operand_known reads_asTable known read
    cases table with
    | inl x =>
      exact (runs_get runs fit (Heap.hasAll_cons.1 tableKnown).1 name).map
        fun _ => List.Subset.refl _
    | inr c =>
      exact runs_get_bind ((runs_chainGet runs fit (fit.chain c) name).map
        fun _ => List.Subset.refl _)
  | set =>
    refine runs_lift_bind fun table read => runs_lift_bind fun name _ =>
      runs_lift_bind fun v read' => ?_
    have tableKnown := operand_known reads_asTable known read
    have valueKnown := operand_known reads_asValue known read'
    cases table with
    | inl x =>
      exact (runs_set runs fit (Heap.hasAll_cons.1 tableKnown).1 name valueKnown).map
        fun _ => List.Subset.refl _
    | inr c =>
      exact runs_get_bind ((runs_chainSet runs fit (fit.chain c) name valueKnown).map
        fun _ => List.Subset.refl _)
  | chain =>
    apply runs_lift_bind
    intro scopes read
    have scopesKnown := hasAll_chain.2 (operandsFrom_has reads_asScope known read)
    exact (runs_newChain fit scopesKnown).map fun _ => List.Subset.refl _
  | copyChain =>
    apply runs_lift_bind
    intro c _
    apply runs_get_bind
    exact (runs_newChain fit (fit.chain c)).map fun _ => List.Subset.refl _
  | frameChain =>
    apply runs_lift_bind
    intro frame read
    have frameKnown := operand_known reads_asFrame known read
    exact (runs_newChain fit (Heap.hasAll_append.1 frameKnown).2).map fun _ => List.Subset.refl _
  | currentChain =>
    exact runs_get_bind ((runs_newChain fit fit.currentChain).map fun _ => List.Subset.refl _)
  | privateView =>
    apply runs_lift_bind
    intro e read
    apply runs_get_bind
    have tables := fit.heap.has_tables (operand_has reads_asEntity known read)
    have viewKnown : s.heap.HasAll (Chain.owned (s.heap.privateView e)) :=
      Heap.hasAll_cons.2 ⟨tables.1, Heap.hasAll_cons.2 ⟨tables.2.2, Heap.hasAll_nil _⟩⟩
    exact (runs_newChain fit viewKnown).map fun _ => List.Subset.refl _
  | pushInner =>
    apply runs_lift_bind
    intro c _
    apply runs_lift_bind
    intro x read
    have has := operand_has reads_asScope known read
    exact (runs_modifyChain fit c (x :: ·) fun old => Heap.hasAll_cons.2 ⟨has, old⟩).map
      fun _ => List.Subset.refl _
  | pushOuter =>
    apply runs_lift_bind
    intro c _
    apply runs_lift_bind
    intro x read
    have has := operand_has reads_asScope known read
    refine (runs_modifyChain fit c (· ++ [x]) fun old => ?_).map fun _ => List.Subset.refl _
    rw [hasAll_chain] at old ⊢
    exact List.forall_mem_append.2 ⟨old, List.forall_mem_singleton.2 has⟩
  | popInner =>
    apply runs_lift_bind
    intro c _
    apply runs_get_bind
    have removed : Runs raw s (modifyChain c List.tail) fun _ => [] :=
      runs_modifyChain fit c _ fun old =>
        hasAll_chain.2 fun x place => hasAll_chain.1 old x (List.mem_of_mem_tail place)
    refine removed.bind fit fun t _ ran _ _ => runs_pure (hasAll_ofOption fun x is => ?_)
    have has := hasAll_chain.1 (fit.chain c) x (List.mem_of_mem_head? is)
    exact Heap.hasAll_cons.2 ⟨ran.has fit has, Heap.hasAll_nil _⟩

theorem Session.Fit.currentFrame (fit : s.Fit raw) :
    s.heap.HasAll s.machine.currentFrame.owned := by
  unfold Machine.currentFrame
  cases is : s.machine.stack.current with
  | none => exact Heap.hasAll_cons.2 ⟨fit.globals, Heap.hasAll_nil _⟩
  | some frame => exact hasAll_frames fit.stack (List.mem_of_mem_head? is)

theorem runs_callCommand (runs : run.Runs raw) (fit : s.Fit raw) (command : CallCommand)
    (known : s.heap.HasAll (refsAll xs)) : Runs raw s (command.act run xs) Object.refs := by
  cases command with
  | invoke =>
    apply runs_lift_bind
    intro callable _
    apply runs_lift_bind
    intro args read
    exact (runs_invoke runs fit (operandsFrom_known reads_asValue known read)).map
      fun _ => List.Subset.refl _
  | function =>
    apply runs_lift_bind
    intro callable _
    apply runs_lift_bind
    intro enclosing read
    have enclosingKnown := operand_known (reads_orVoid reads_asScope) known read
    refine (runs_newBinding ⟨callable, .function enclosing⟩ ?_ nofun).map
      fun _ => List.Subset.refl _
    cases enclosing with
    | none => exact Heap.hasAll_nil _
    | some x => exact enclosingKnown
  | bound =>
    apply runs_lift_bind
    intro callable _
    apply runs_lift_bind
    intro owner read
    have ownerKnown := operand_known reads_asEntity known read
    exact (runs_newBinding ⟨callable, .method owner⟩ ownerKnown nofun).map
      fun _ => List.Subset.refl _
  | closure =>
    apply runs_lift_bind
    intro callable _
    apply runs_get_bind
    refine (runs_newBinding ⟨callable, .closure s.machine.currentFrame⟩ fit.currentFrame
      fun frame is => ?_).map fun _ => List.Subset.refl _
    cases is
    rfl
  | callBinding =>
    apply runs_lift_bind
    intro b read
    apply runs_lift_bind
    intro args read'
    exact (runs_call runs fit (operand_has reads_asBinding known read)
      (operandsFrom_known reads_asValue known read')).map fun _ => List.Subset.refl _
  | lookup =>
    apply runs_lift_bind
    intro name _
    exact (runs_lookup runs fit name).map fun _ => List.Subset.refl _
  | assign =>
    apply runs_lift_bind
    intro name _
    apply runs_lift_bind
    intro v read
    exact (runs_assign runs fit name (operand_known reads_asValue known read)).map
      fun _ => List.Subset.refl _
  | call =>
    apply runs_lift_bind
    intro callee read
    apply runs_lift_bind
    intro args read'
    exact (runs_callValue runs fit (operand_known reads_asValue known read)
      (operandsFrom_known reads_asValue known read')).map fun _ => List.Subset.refl _

theorem reads_fieldCell {v : Value} {x : Object} {cell : Cell}
    (is : EntityCommand.fieldCell? v x = some cell) : cell.owned = v.owned := by
  unfold EntityCommand.fieldCell? at is
  split at is <;> cases is <;> rfl

/-- What a property is made of is among the operands. -/
theorem readProperty_subset {property : Property}
    (is : EntityCommand.readProperty xs = .ok property) : property.refs ⊆ refsAll xs := by
  cases property with
  | stored v =>
    simp only [EntityCommand.readProperty, bind, Except.bind] at is
    split at is
    · cases is
    · -- only the word for a stored value leads to one
      split at is
      · split at is <;> cases is
        next read =>
          have within := operand_subset reads_asValue read
          exact within
      · split at is <;> cases is
      · split at is
        · cases is
        · split at is <;> cases is
      · cases is
  | getter | accessors => exact List.nil_subset _

theorem readProperty_known {heap : Heap} {property : Property} (known : heap.HasAll (refsAll xs))
    (is : EntityCommand.readProperty xs = .ok property) : heap.HasAll property.refs :=
  fun x place => known x (readProperty_subset is place)

theorem has_orVoid {heap : Heap} {found : Option EntityId}
    (known : heap.HasAll (found.elim [] fun e => [.entity e])) :
    ∀ e ∈ found, heap.Has (.entity e) := by
  cases found with
  | none => exact has_none
  | some e => exact has_some (Heap.hasAll_cons.1 known).1

theorem runs_entityCommand (runs : run.Runs raw) (fit : s.Fit raw) (command : EntityCommand)
    (known : s.heap.HasAll (refsAll xs)) : Runs raw s (command.act run xs) Object.refs := by
  cases command with
  | entity =>
    refine runs_lift_bind fun name _ => runs_lift_bind fun super read =>
      runs_lift_bind fun type read' => ?_
    have superKnown := operand_known (reads_orVoid reads_asEntity) known read
    have typeKnown := operand_known (reads_orVoid reads_asEntity) known read'
    exact (runs_buildEntity name (has_orVoid superKnown) (has_orVoid typeKnown)).map
      fun _ => List.Subset.refl _
  | selfScope =>
    apply runs_lift_bind
    intro e read
    apply runs_get_bind
    have has := operand_has reads_asEntity known read
    have admitted := admits_identityScope fit.heap has (Session.has_receiver fit.heap has)
    exact (runs_newScope admitted).map fun _ => List.Subset.refl _
  | hook =>
    refine runs_lift_bind fun e read => runs_lift_bind fun name _ =>
      runs_lift_bind fun callable _ => ?_
    exact (runs_declareHook fit (operand_has reads_asEntity known read) name callable).map
      fun _ => List.Subset.refl _
  | method =>
    refine runs_lift_bind fun e read => runs_lift_bind fun name _ =>
      runs_lift_bind fun callable _ => ?_
    exact (runs_declareMethod fit (operand_has reads_asEntity known read) name callable).map
      fun _ => List.Subset.refl _
  | field =>
    refine runs_lift_bind fun e read => runs_lift_bind fun name _ =>
      runs_lift_bind fun v read' => runs_lift_bind fun cell read'' => ?_
    have valueKnown := operand_known reads_asValue known read'
    have cellKnown : s.heap.HasAll cell.owned := reads_fieldCell (operand_eq_ok read'') ▸ valueKnown
    exact (runs_declareField fit (operand_has reads_asEntity known read) name cellKnown).map
      fun _ => List.Subset.refl _
  | property =>
    refine runs_lift_bind fun e read => runs_lift_bind fun name _ =>
      runs_lift_bind fun property read' => ?_
    have has := operand_has reads_asEntity known read
    exact (runs_declareProperty fit has name (readProperty_known known read')).map
      fun _ => List.Subset.refl _
  | getMember =>
    apply runs_lift_bind
    intro e read
    apply runs_lift_bind
    intro name _
    exact (runs_getMember runs fit (operand_has reads_asEntity known read) name).map
      fun _ => List.Subset.refl _
  | setMember =>
    refine runs_lift_bind fun e read => runs_lift_bind fun name _ =>
      runs_lift_bind fun v read' => ?_
    have valueKnown := operand_known reads_asValue known read'
    exact (runs_setMember runs fit (operand_has reads_asEntity known read) name valueKnown).map
      fun _ => List.Subset.refl _
  | send =>
    refine runs_lift_bind fun e read => runs_lift_bind fun name _ =>
      runs_lift_bind fun args read' => ?_
    exact (runs_invokeMember runs fit (operand_has reads_asEntity known read) name
      (operandsFrom_known reads_asValue known read')).map fun _ => List.Subset.refl _
  | sendHook =>
    refine runs_lift_bind fun e read => runs_lift_bind fun name _ =>
      runs_lift_bind fun args read' => ?_
    exact (runs_invokeHook runs fit (operand_has reads_asEntity known read) name
      (operandsFrom_known reads_asValue known read')).map fun _ => List.Subset.refl _
  | idMatches =>
    apply runs_lift_bind
    intro e read
    apply runs_lift_bind
    intro other _
    exact (runs_invokeMember runs fit (operand_has reads_asEntity known read) "id"
      (List.forall_mem_nil _)).map
      fun _ => List.nil_subset _

theorem runs_registryCommand (fit : s.Fit raw) (command : RegistryCommand)
    (known : s.heap.HasAll (refsAll xs)) : Runs raw s (command.act xs) Object.refs := by
  cases command with
  | builder =>
    exact Registry.runs_start.bind fit fun t registry _ fitT registryKnown =>
      (runs_newBuilder fitT registryKnown).map fun _ => List.Subset.refl _
  | register =>
    apply runs_lift_bind
    intro b _
    apply runs_lift_bind
    intro name _
    apply runs_lift_bind
    intro v read
    apply (runs_builderAt fit b).bind fit
    intro t registry ran _ registryKnown
    have valueKnown := ran.known fit (operand_known reads_asValue known read)
    exact (registry.runs_register registryKnown name valueKnown).map fun _ => List.Subset.refl _
  | registerType =>
    apply runs_lift_bind
    intro b _
    apply runs_lift_bind
    intro type read
    apply (runs_builderAt fit b).bind fit
    intro t registry ran fitT registryKnown
    have has := ran.has fit (operand_has reads_asEntity known read)
    refine (registry.runs_registerType fitT registryKnown has).bind fitT
      fun u registry' _ fitU known' => ?_
    refine (runs_setBuilder fitU b fun r is => ?_).map fun _ => List.Subset.refl _
    cases is
    exact known'
  | rootMethod =>
    refine runs_lift_bind fun b _ => runs_lift_bind fun name _ =>
      runs_lift_bind fun callable _ => ?_
    apply (runs_builderAt fit b).bind fit
    intro t registry ran fitT registryKnown
    split
    · next registry' added =>
      refine (runs_setBuilder fitT b fun r is => ?_).map fun _ => List.Subset.refl _
      cases is
      unfold Registry.rootMethod at added
      split at added <;> cases added
      exact registryKnown
    · exact runs_fail _
  | build =>
    apply runs_lift_bind
    intro b _
    apply (runs_builderAt fit b).bind fit
    intro t registry _ fitT registryKnown
    apply (registry.runs_finish fitT registryKnown).bind fitT
    intro u finished _ fitU known'
    have used : ∀ r : Registry, none = some r → u.heap.HasAll r.owned := fun _ is => by cases is
    exact (runs_setBuilder fitU b used).bind fitU fun _ _ ran _ _ =>
      runs_pure (ran.known fitU known')
  | bootstrap => exact (Registry.runs_bootstrap fit).map fun _ => List.Subset.refl _
  | empty => exact (Registry.runs_empty fit).map fun _ => List.Subset.refl _
  | instantiateRoot =>
    apply runs_lift_bind
    intro registry read
    have registryKnown := operand_known reads_asRegistry known read
    exact (registry.runs_instantiateRoot fit registryKnown).map fun _ => List.Subset.refl _
  | instantiateChain =>
    apply runs_lift_bind
    intro registry read
    apply runs_lift_bind
    intro types read'
    have registryKnown := operand_known reads_asRegistry known read
    have typesKnown := operandsFrom_has reads_asEntity known read'
    apply (registry.runs_instantiateChain fit registryKnown typesKnown).map
    intro layers
    have same : refsAll (layers.map fun e => .value (.entity e)) = layers.map .entity := by
      induction layers with
      | nil => rfl
      | cons e rest ih => exact congrArg (Node.entity e :: ·) ih
    exact fun x place => same ▸ place

theorem runs_stackCommand (fit : s.Fit raw) (command : StackCommand)
    (known : s.heap.HasAll (refsAll xs))
    (allowed : Allowed raw (!(Operation.command (.stack command)).handlesStacks)) :
    Runs raw s (command.act xs) Object.refs := by
  have leads := Restacked.leads_act fit.toGrounded command known
  rcases allowed with free | guarded
  · exact leads.change (.handle free command known)
  · cases command with
    | stack =>
      apply runs_lift_bind
      intro limit _
      have made : Runs raw s (newStack { limit }) fun _ => [] := ⟨.stack s limit, Heap.hasAll_nil _⟩
      exact made.map fun _ => List.Subset.refl _
    | push | pop | pushInner | popInner | suspend | resume => cases guarded

/-- Every command that may be carried out makes a run. -/
theorem runs_command (runs : run.Runs raw) (fit : s.Fit raw) (command : Command)
    (known : s.heap.HasAll (refsAll xs))
    (allowed : Allowed raw (!(Operation.command command).handlesStacks)) :
    Runs raw s (command.act run xs) Object.refs := by
  cases command with
  | table command => exact runs_tableCommand runs fit command known
  | entity command => exact runs_entityCommand runs fit command known
  | call command => exact runs_callCommand runs fit command known
  | stack command => exact runs_stackCommand fit command known allowed
  | registry command => exact runs_registryCommand fit command known

end Delegation
