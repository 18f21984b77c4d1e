import Delegation.Proofs.Logic.Commands
import Delegation.Proofs.Run.Commands
import Delegation.Proofs.Secrecy.Calls

/-!
# Operations do not see a secret

What operations do to the heap they do to things that are not lost: declaring, building entities and
registries, and what is shared by name. The two commands that get at the fields of an entity by
themselves may be used on any entity but the owner.
-/

namespace Delegation

open Delegation.Action Delegation.Object

variable {secret : Secret} {s : Session} {run : Runner} {bodies : Body → Session → Chronicle}
  {c : Chronicle} {xs : List Object}

/-! ## Declaring and building -/

theorem Secret.found_none : ∀ e ∈ (none : Option EntityId), ¬secret.lost (.node (.entity e)) := by
  simp

theorem Secret.found_some {e : EntityId} (found : ¬secret.lost (.node (.entity e))) :
    ∀ d ∈ some e, ¬secret.lost (.node (.entity d)) := by
  simpa using found

theorem Secret.found_orVoid {found : Option EntityId}
    (clear : secret.Clear (found.elim [] fun e => [.entity e])) :
    ∀ e ∈ found, ¬secret.lost (.node (.entity e)) := by
  cases found with
  | none => exact Secret.found_none
  | some e => exact Secret.found_some (Secret.clear_singleton.1 clear)

theorem blind_declare {x : ScopeId} (found : ¬secret.lost (.node (.scope x))) (name : String)
    {cell : Cell} (clear : secret.Clear cell.owned) :
    Blind secret s (declare x name cell) (fun _ => True) c := by
  apply blind_of_hides
  intro hides
  apply blind_get_bind
  · intro _
    simp only [Session.veil, hides.heap.scope_veil_of_open found]
  cases declared : (s.heap.scope x).declare name cell with
  | error cause => exact blind_fail cause
  | ok scope =>
    refine blind_onHeap (fun _ => ?_) (fun hides => ?_) fun _ => trivial
    · exact congrArg (Prod.mk ()) (s.heap.setScope_veil found scope)
    · have together := Secret.clear_append.2 ⟨hides.scope found, clear⟩
      exact hides.setScope found (together.subset (Scope.refs_subset_of_declare declared))

theorem blind_close {x : ScopeId} (found : ¬secret.lost (.node (.scope x))) :
    Blind secret s (onHeap fun heap => ((), heap.modifyScope x Scope.close)) (fun _ => True) c := by
  refine blind_onHeap (fun hides => ?_) (fun hides => ?_) fun _ => trivial
  · simp only [Heap.modifyScope_eq, hides.scope_veil_of_open found, s.heap.setScope_veil found]
  · simp only [Heap.modifyScope_eq]
    exact hides.setScope found (hides.scope found)

theorem blind_buildEntity {super type : Option EntityId} (name : String)
    (superFound : ∀ base ∈ super, ¬secret.lost (.node (.entity base)))
    (typeFound : ∀ d ∈ type, ¬secret.lost (.node (.entity d))) :
    Blind secret s (buildEntity super type name) (fun e => ¬secret.lost (.node (.entity e))) c := by
  apply blind_get_bind fun _ => rfl
  dsimp only
  split
  · exact blind_fail _
  · refine blind_onHeap (fun hides => hides.addEntity_veil superFound type name)
      (fun hides => hides.addEntity superFound typeFound name) fun hides => ?_
    rw [Heap.fst_addEntity]
    exact hides.fresh_entity

section Found

variable {e : EntityId} (found : ¬secret.lost (.node (.entity e)))

include found

theorem blind_declaredMethod (callable : Callable) :
    Blind secret s (declaredMethod e callable) (fun b => ¬secret.lost (.node (.binding b))) c :=
  blind_newBinding (Secret.clear_singleton.2 found)

theorem blind_declareHook (name : String) (callable : Callable) :
    Blind secret s (declareHook e name callable) (fun _ => True) c :=
  (blind_declaredMethod found callable).onwards fun _ _ hides made =>
    blind_get_bind (fun _ => rfl)
      (blind_declare (hides.heap.hooks found) name (Secret.clear_singleton.2 made))

theorem blind_declareMethod (name : String) (callable : Callable) :
    Blind secret s (declareMethod e name callable) (fun _ => True) c :=
  (blind_declaredMethod found callable).onwards fun _ _ hides made =>
    blind_get_bind (fun _ => rfl)
      (blind_declare (hides.heap.members found) name (Secret.clear_singleton.2 made))

omit found in
theorem blind_checkAccessor (accessor : Callable) (expected : Nat) :
    Blind secret s (checkAccessor accessor expected) (fun _ => True) c := by
  unfold checkAccessor
  split
  · exact blind_pure trivial
  · exact blind_fail _

theorem blind_propertyCell {property : Property} (clear : secret.Clear property.refs) :
    Blind secret s (propertyCell e property) (fun cell => secret.Clear cell.owned) c := by
  cases property with
  | stored v => exact blind_pure clear
  | getter get =>
    exact (blind_checkAccessor get 0).onwards fun _ _ _ _ =>
      (blind_declaredMethod found get).map fun _ made => Secret.clear_singleton.2 made
  | accessors get set =>
    refine (blind_checkAccessor get 0).onwards fun _ _ _ _ =>
      (blind_checkAccessor set 1).onwards fun _ _ _ _ =>
        (blind_declaredMethod found get).onwards fun getter _ _ getterMade =>
          (blind_declaredMethod found set).map fun setter setterMade => ?_
    exact Secret.clear_cons.2 ⟨getterMade, Secret.clear_singleton.2 setterMade⟩

theorem blind_declareProperty (name : String) {property : Property}
    (clear : secret.Clear property.refs) :
    Blind secret s (declareProperty e name property) (fun _ => True) c :=
  (blind_propertyCell found clear).onwards fun _ _ hides cellClear =>
    blind_get_bind (fun _ => rfl) (blind_declare (hides.heap.members found) name cellClear)

/-- Fields may be declared on every other entity. -/
theorem blind_declareField (other : e ≠ secret.owner) (name : String) {cell : Cell}
    (clear : secret.Clear cell.owned) :
    Blind secret s (declareField e name cell) (fun _ => True) c :=
  blind_of_hides fun hides =>
    blind_get_bind (fun _ => rfl) (blind_declare (hides.heap.fields found other) name clear)

end Found

/-! ## Registries -/

namespace Registry

theorem blind_start : Blind secret s start (fun registry => secret.Clear registry.owned) c :=
  (blind_newScope Secret.clear_nil).map fun _ made => Secret.clear_singleton.2 made

section

variable {registry : Registry} (clear : secret.Clear registry.owned)

include clear

theorem blind_register (name : String) {v : Value} (valueClear : secret.Clear v.owned) :
    Blind secret s (registry.register name v) (fun _ => True) c :=
  blind_declare (Secret.clear_cons.1 clear).1 name valueClear

theorem blind_registerType {type : EntityId} (found : ¬secret.lost (.node (.entity type))) :
    Blind secret s (registry.registerType type) (fun registry => secret.Clear registry.owned)
      c := by
  apply blind_get_bind fun _ => rfl
  have typeClear : secret.Clear (Value.entity type).owned := Secret.clear_singleton.2 found
  refine (blind_register clear _ typeClear).map fun _ _ => ?_
  rw [owned_eq] at clear ⊢
  rw [List.map_append, ← List.cons_append]
  exact Secret.clear_append.2 ⟨clear, typeClear⟩

theorem blind_finish :
    Blind secret s registry.finish (fun registry => secret.Clear registry.owned) c :=
  (blind_close (Secret.clear_cons.1 clear).1).map fun _ _ => clear

theorem blind_registerTypes {type : EntityId} (found : ¬secret.lost (.node (.entity type)))
    (names : List String) :
    Blind secret s (registry.registerTypes type names)
      (fun registry => secret.Clear registry.owned) c := by
  induction names generalizing s registry c with
  | nil => exact blind_pure clear
  | cons name rest ih =>
    exact (blind_buildEntity name Secret.found_none (Secret.found_some found)).onwards
      fun made _ _ madeFound => (blind_registerType clear madeFound).onwards
        fun _ _ _ registryClear => ih registryClear

theorem blind_finishCore :
    Blind secret s registry.finishCore (fun registry => secret.Clear registry.owned) c :=
  (blind_buildEntity "Type" Secret.found_none Secret.found_none).onwards fun _ _ _ found =>
    (blind_registerType clear found).onwards fun _ _ _ registryClear =>
      (blind_registerTypes registryClear found _).onwards fun _ _ _ allClear =>
        blind_finish allClear

end

theorem blind_bootstrap :
    Blind secret s bootstrap (fun registry => secret.Clear registry.owned) c :=
  blind_start.onwards fun _ _ _ clear => blind_finishCore clear

theorem blind_empty : Blind secret s empty (fun registry => secret.Clear registry.owned) c :=
  blind_start.onwards fun _ _ _ clear => blind_finish clear

theorem blind_ofConfig (config : Config) :
    Blind secret s (ofConfig config) (fun registry => secret.Clear registry.owned) c := by
  unfold ofConfig
  split
  · exact blind_bootstrap
  · exact blind_empty

theorem blind_declareMethods {e : EntityId} (found : ¬secret.lost (.node (.entity e)))
    (methods : List (String × Callable)) :
    Blind secret s (declareMethods e methods) (fun _ => True) c := by
  induction methods generalizing s c with
  | nil => exact blind_pure trivial
  | cons entry rest ih =>
    exact (blind_declareMethod found entry.1 entry.2).onwards fun _ _ _ _ => ih

theorem blind_instantiateRoot {registry : Registry} (clear : secret.Clear registry.owned) :
    Blind secret s registry.instantiateRoot (fun e => ¬secret.lost (.node (.entity e))) c :=
  (blind_buildEntity "Object" Secret.found_none fun _ is => clear _ (type_mem_owned is)).onwards
    fun _ _ _ found => (blind_declareMethods found _).map fun _ _ => found

theorem blind_buildLayers {base : EntityId} (found : ¬secret.lost (.node (.entity base)))
    {types : List EntityId} (typesFound : ∀ type ∈ types, ¬secret.lost (.node (.entity type))) :
    Blind secret s (buildLayers base types)
      (fun layers => ∀ e ∈ layers, ¬secret.lost (.node (.entity e))) c := by
  induction types generalizing s base c with
  | nil => exact blind_pure nofun
  | cons type rest ih =>
    rw [List.forall_mem_cons] at typesFound
    apply blind_get_bind fun _ => rfl
    exact (blind_buildEntity _ (Secret.found_some found) (Secret.found_some typesFound.1)).onwards
      fun _ _ _ made => (ih made typesFound.2).map fun _ layersFound =>
        List.forall_mem_cons.2 ⟨made, layersFound⟩

end Registry

/-! ## Shared things -/

theorem blind_newChain {chain : Chain} (clear : secret.Clear (Chain.owned chain)) :
    Blind secret s (newChain chain) (fun made => ¬secret.lost (.chain made)) c :=
  fun hides _ => .ok rfl rfl (hides.addChain clear) hides.fresh_chain

theorem blind_modifyChain {d : ChainId} (found : ¬secret.lost (.chain d)) {f : Chain → Chain}
    (keeps : secret.Clear (Chain.owned (s.chain d)) →
      secret.Clear (Chain.owned (f (s.chain d)))) :
    Blind secret s (modifyChain d f) (fun _ => True) c :=
  fun hides _ => .ok rfl rfl (hides.modifyChain found keeps) trivial

theorem blind_newStack {stack : CallStack} (clear : secret.Clear stack.owned) :
    Blind secret s (newStack stack) (fun made => ¬secret.lost (.stack made)) c :=
  fun hides _ => .ok rfl rfl (hides.addStack clear) hides.fresh_stack

theorem blind_setStack (target : Option StackId) {stack : CallStack}
    (clear : secret.Clear stack.owned) :
    Blind secret s (setStack target stack) (fun _ => True) c := by
  intro hides _
  cases target with
  | none => exact .ok rfl rfl (hides.withStack clear) trivial
  | some d => exact .ok rfl rfl (hides.putStack d clear) trivial

theorem blind_newBuilder {registry : Registry} (clear : secret.Clear registry.owned) :
    Blind secret s (newBuilder registry) (fun made => ¬secret.lost (.builder made)) c :=
  fun hides _ => .ok rfl rfl (hides.addBuilder clear) hides.fresh_builder

theorem blind_setBuilder (b : BuilderId) {registry : Option Registry}
    (clear : ∀ r, registry = some r → secret.Clear r.owned) :
    Blind secret s (setBuilder b registry) (fun _ => True) c :=
  fun hides _ => .ok rfl rfl (hides.setBuilder b clear) trivial

theorem blind_builderAt {b : BuilderId} (found : ¬secret.lost (.builder b)) :
    Blind secret s (builderAt b) (fun registry => secret.Clear registry.owned) c := by
  apply blind_of_hides
  intro hides
  apply blind_get_bind fun _ => rfl
  cases is : s.builders.getD b.index none with
  | none => exact blind_malformed _
  | some registry => exact blind_pure (hides.builders b found registry is)

/-! ## Commands -/

theorem Secret.bare_layers {layers : List EntityId}
    (found : ∀ e ∈ layers, ¬secret.lost (.node (.entity e))) :
    secret.Bare (.list (layers.map fun e => .value (.entity e))) :=
  Secret.bare_list.2 (List.forall_mem_map.2 fun e place => Secret.bare_entity (found e place))

section Commands

variable (bare : ∀ x ∈ xs, secret.Bare x)

include bare

theorem blind_registryCommand (command : RegistryCommand) :
    Blind secret s (command.act xs) secret.Bare c := by
  cases command with
  | builder =>
    exact Registry.blind_start.onwards fun _ _ _ clear =>
      (blind_newBuilder clear).map fun _ made => List.forall_mem_singleton.2 made
  | register =>
    refine blind_lift_bind fun b read => blind_lift_bind fun name _ =>
      blind_lift_bind fun v read' => ?_
    have valueClear := operand_clear bare reads_asValue read'
    exact (blind_builderAt (operand_names bare names_asBuilder read)).onwards fun _ _ _ clear =>
      (Registry.blind_register clear name valueClear).map fun _ _ => Secret.bare_of_nil rfl
  | registerType =>
    refine blind_lift_bind fun b read => blind_lift_bind fun type read' => ?_
    have found := operand_found bare reads_asEntity read'
    refine (blind_builderAt (operand_names bare names_asBuilder read)).onwards fun _ _ _ clear =>
      (Registry.blind_registerType clear found).onwards fun _ _ _ registryClear =>
        (blind_setBuilder b fun r is => ?_).map fun _ _ => Secret.bare_of_nil rfl
    cases is
    exact registryClear
  | rootMethod =>
    refine blind_lift_bind fun b read => blind_lift_bind fun name _ =>
      blind_lift_bind fun callable _ => ?_
    refine (blind_builderAt (operand_names bare names_asBuilder read)).onwards
      fun registry _ _ clear => ?_
    cases added : registry.rootMethod name callable with
    | error cause => exact blind_fail cause
    | ok registry' =>
      refine (blind_setBuilder b fun r is => ?_).map fun _ _ => Secret.bare_of_nil rfl
      cases is
      unfold Registry.rootMethod at added
      split at added <;> cases added
      exact clear
  | build =>
    refine blind_lift_bind fun b read => ?_
    exact (blind_builderAt (operand_names bare names_asBuilder read)).onwards fun _ _ _ clear =>
      (Registry.blind_finish clear).onwards fun _ _ _ finished =>
        (blind_setBuilder b fun _ is => by cases is).map fun _ _ => Secret.bare_of_map rfl finished
  | bootstrap => exact Registry.blind_bootstrap.map fun _ clear => Secret.bare_of_map rfl clear
  | empty => exact Registry.blind_empty.map fun _ clear => Secret.bare_of_map rfl clear
  | instantiateRoot =>
    refine blind_lift_bind fun registry read => ?_
    exact (Registry.blind_instantiateRoot (operand_clear bare reads_asRegistry read)).map
      fun _ found => Secret.bare_entity found
  | instantiateChain =>
    refine blind_lift_bind fun registry read => blind_lift_bind fun types read' => ?_
    have typesFound : ∀ type ∈ types, ¬secret.lost (.node (.entity type)) := fun type place =>
      Secret.clear_singleton.1 (operandsFrom_clear bare reads_asEntity read' type place)
    have built : Blind secret s (registry.instantiateChain types)
        (fun layers => ∀ e ∈ layers, ¬secret.lost (.node (.entity e))) c :=
      (Registry.blind_instantiateRoot (operand_clear bare reads_asRegistry read)).onwards
        fun _ _ _ found => Registry.blind_buildLayers found typesFound
    exact built.map fun _ layersFound => Secret.bare_layers layersFound

theorem blind_stackCommand (command : StackCommand) :
    Blind secret s (command.act xs) secret.Bare c := by
  apply blind_of_hides
  intro hides
  cases command with
  | stack =>
    exact blind_lift_bind fun limit _ => (blind_newStack Secret.clear_nil).map fun _ made =>
      List.forall_mem_singleton.2 made
  | push =>
    refine blind_lift_bind fun target read => blind_lift_bind fun frame read' => ?_
    apply blind_get_bind fun _ => rfl
    have before := hides.stackOr (operand_target bare read)
    have frameClear := operand_clear bare reads_asFrame read'
    cases fits : (s.stackOr target).push frame with
    | error cause => exact blind_fail cause
    | ok pushed =>
      refine (blind_setStack target ?_).map fun _ _ => Secret.bare_of_nil rfl
      rw [CallStack.owned_push fits]
      exact Secret.clear_append.2 ⟨frameClear, before⟩
  | pop =>
    refine blind_lift_bind fun target read => blind_get_bind (fun _ => rfl) ?_
    have before := hides.stackOr (operand_target bare read)
    have popped := before.subset (CallStack.owned_pop_subset _)
    refine (blind_setStack target popped).map fun _ _ =>
      Secret.bare_ofOption fun frame is => Secret.bare_of_map rfl ?_
    exact before.subset (CallStack.owned_subset_of_mem (List.mem_of_mem_head? is))
  | pushInner =>
    refine blind_lift_bind fun target read => blind_lift_bind fun x read' =>
      blind_get_bind (fun _ => rfl) ?_
    have before := hides.stackOr (operand_target bare read)
    have found := operand_found bare reads_asScope read'
    have pushed := (Secret.clear_cons.2 ⟨found, before⟩).subset
      (CallStack.owned_pushInner_subset _ x)
    exact (blind_setStack target pushed).map fun _ _ => Secret.bare_of_nil rfl
  | popInner =>
    refine blind_lift_bind fun target read => blind_get_bind (fun _ => rfl) ?_
    have before := hides.stackOr (operand_target bare read)
    have popped := before.subset (CallStack.owned_popInner_subset _)
    refine (blind_setStack target popped).map fun _ _ => Secret.bare_ofOption fun x is => ?_
    obtain ⟨frame, current, first⟩ := Option.bind_eq_some_iff.1 is
    have frameClear := before.subset (CallStack.owned_subset_of_mem (List.mem_of_mem_head? current))
    exact Secret.bare_scope (Secret.clear_chain.1 (Secret.clear_append.1 frameClear).2 x
      (List.mem_of_mem_head? first))
  | suspend =>
    apply blind_get_bind fun _ => rfl
    exact (blind_setStack none Secret.clear_nil).onwards fun _ _ _ _ =>
      (blind_newStack hides.stack).map fun _ made => List.forall_mem_singleton.2 made
  | resume =>
    refine blind_lift_bind fun d read => blind_get_bind (fun _ => rfl) ?_
    have resumed := hides.sharedStacks d (operand_names bare names_asStack read)
    exact (blind_setStack none resumed).onwards fun _ _ _ _ =>
      (blind_setStack (some d) Secret.clear_nil).onwards fun _ _ _ _ =>
        (blind_newStack hides.stack).map fun _ made => List.forall_mem_singleton.2 made

variable (discreet : run.Discreet secret bodies)

include discreet

theorem blind_callCommand (command : CallCommand) :
    Blind secret s (command.act run xs) secret.Bare
      (Chronicle.callCommand run bodies command xs s) := by
  cases command with
  | invoke =>
    exact blind_given fun callable _ => blind_given fun args read =>
      (blind_invoke discreet (operandsFrom_clear bare reads_asValue read)).map
        fun _ clear => Secret.bare_value clear
  | function =>
    refine blind_lift_bind fun callable _ => blind_lift_bind fun enclosing read => ?_
    have enclosingClear := operand_clear bare (reads_orVoid reads_asScope) read
    refine Blind.map (blind_newBinding ?_) fun _ made => Secret.bare_value
      (Secret.clear_singleton.2 made)
    cases enclosing with
    | none => exact Secret.clear_nil
    | some x => exact enclosingClear
  | bound =>
    refine blind_lift_bind fun callable _ => blind_lift_bind fun owner read => ?_
    have ownerClear := operand_clear bare reads_asEntity read
    exact Blind.map (blind_newBinding ownerClear) fun _ made => Secret.bare_value
      (Secret.clear_singleton.2 made)
  | closure =>
    refine blind_lift_bind fun callable _ => blind_of_hides fun hides =>
      blind_get_bind (fun _ => rfl) ?_
    exact Blind.map (blind_newBinding hides.currentFrame) fun _ made => Secret.bare_value
      (Secret.clear_singleton.2 made)
  | callBinding =>
    refine blind_given fun b read => blind_given fun args read' => ?_
    exact (blind_call discreet (operand_found bare reads_asBinding read)
      (operandsFrom_clear bare reads_asValue read')).map fun _ clear => Secret.bare_value clear
  | lookup =>
    exact blind_given fun name _ => (blind_lookup discreet name).map
      fun _ clear => Secret.bare_value clear
  | assign =>
    refine blind_given fun name _ => blind_given fun v read => ?_
    exact (blind_assign discreet name (operand_clear bare reads_asValue read)).map
      fun _ _ => Secret.bare_of_nil rfl
  | call =>
    refine blind_given fun callee read => blind_given fun args read' => ?_
    exact (blind_callValue discreet (operand_clear bare reads_asValue read)
      (operandsFrom_clear bare reads_asValue read')).map fun _ clear => Secret.bare_value clear

theorem blind_tableCommand (command : TableCommand)
    (spares : (Operation.command (.table command)).opens secret.owner xs = false) :
    Blind secret s (command.act run xs) secret.Bare
      (Chronicle.tableCommand run bodies command xs s) := by
  apply blind_of_hides
  intro hides
  cases command with
  | get =>
    refine blind_given fun table read => blind_given fun name _ => ?_
    have found := operand_names bare names_asTable read
    cases table with
    | inl x => exact (blind_get discreet found name).map fun _ clear => Secret.bare_value clear
    | inr d =>
      exact blind_get_bind (fun _ => rfl) ((blind_chainGet discreet (hides.chains d found) name).map
        fun _ clear => Secret.bare_value clear)
  | set =>
    refine blind_given fun table read => blind_given fun name _ => blind_given fun v read' => ?_
    have found := operand_names bare names_asTable read
    have valueClear := operand_clear bare reads_asValue read'
    cases table with
    | inl x =>
      exact (blind_set discreet found name valueClear).map fun _ _ => Secret.bare_of_nil rfl
    | inr d =>
      have chainClear := hides.chains d found
      exact blind_get_bind (fun _ => rfl) ((blind_chainSet discreet chainClear name valueClear).map
        fun _ _ => Secret.bare_of_nil rfl)
  | scope =>
    exact blind_lift_bind fun policy _ => (blind_newScope Secret.clear_nil).map
      fun _ found => Secret.bare_scope found
  | child =>
    refine blind_lift_bind fun parent read => blind_lift_bind fun policy _ => ?_
    have found : ∀ x ∈ some parent, ¬secret.lost (.node (.scope x)) := fun x is => by
      cases is
      exact operand_found bare reads_asScope read
    apply blind_get_bind
    · intro _
      simp only [Session.veil, hides.heap.emptyScope_veil found]
    · exact (blind_newScope (hides.heap.clear_emptyScope found policy)).map
        fun _ found => Secret.bare_scope found
  | declare =>
    refine blind_lift_bind fun x read => blind_lift_bind fun name _ =>
      blind_lift_bind fun cell read' => ?_
    exact (blind_declare (operand_found bare reads_asScope read) name
      (operand_clear bare reads_asCell read')).map fun _ _ => Secret.bare_of_nil rfl
  | «seal» =>
    exact blind_lift_bind fun x read => (blind_close (operand_found bare reads_asScope read)).map
      fun _ _ => Secret.bare_of_nil rfl
  | chain =>
    refine blind_lift_bind fun scopes read => ?_
    have clear := Secret.clear_chain.2 fun x place =>
      Secret.clear_singleton.1 (operandsFrom_clear bare reads_asScope read x place)
    exact (blind_newChain clear).map fun _ made => List.forall_mem_singleton.2 made
  | copyChain =>
    refine blind_lift_bind fun d read => blind_get_bind (fun _ => rfl) ?_
    exact (blind_newChain (hides.chains d (operand_names bare names_asChain read))).map
      fun _ made => List.forall_mem_singleton.2 made
  | frameChain =>
    refine blind_lift_bind fun frame read => ?_
    have frameClear := operand_clear bare reads_asFrame read
    exact (blind_newChain (Secret.clear_append.1 frameClear).2).map
      fun _ made => List.forall_mem_singleton.2 made
  | currentChain =>
    exact blind_get_bind (fun _ => rfl) ((blind_newChain hides.currentChain).map
      fun _ made => List.forall_mem_singleton.2 made)
  | privateView =>
    refine blind_lift_bind fun e read => blind_get_bind (fun _ => rfl) ?_
    have found := operand_found bare reads_asEntity read
    have other : e ≠ secret.owner := fun same => by
      rw [Operation.opens, operand_eq_ok read, same] at spares
      exact absurd spares (by simp)
    have fields := hides.heap.fields found other
    have members := hides.heap.members found
    have clear : secret.Clear (Chain.owned (s.heap.privateView e)) :=
      Secret.clear_cons.2 ⟨fields, Secret.clear_singleton.2 members⟩
    exact (blind_newChain clear).map fun _ made => List.forall_mem_singleton.2 made
  | pushInner =>
    refine blind_lift_bind fun d read => blind_lift_bind fun x read' => ?_
    have found := operand_found bare reads_asScope read'
    have named := operand_names bare names_asChain read
    exact (blind_modifyChain named (f := (x :: ·)) fun clear =>
      Secret.clear_cons.2 ⟨found, clear⟩).map fun _ _ => Secret.bare_of_nil rfl
  | pushOuter =>
    refine blind_lift_bind fun d read => blind_lift_bind fun x read' => ?_
    have found := operand_found bare reads_asScope read'
    have named := operand_names bare names_asChain read
    refine (blind_modifyChain named fun clear => ?_).map fun _ _ => Secret.bare_of_nil rfl
    rw [Secret.clear_chain] at clear ⊢
    exact List.forall_mem_append.2 ⟨clear, List.forall_mem_singleton.2 found⟩
  | popInner =>
    refine blind_lift_bind fun d read => blind_get_bind (fun _ => rfl) ?_
    have named := operand_names bare names_asChain read
    have chainClear := Secret.clear_chain.1 (hides.chains d named)
    refine (blind_modifyChain named fun clear => ?_).map fun _ _ =>
      Secret.bare_ofOption fun x is => ?_
    · rw [Secret.clear_chain] at clear ⊢
      exact fun x place => clear x (List.mem_of_mem_tail place)
    · exact Secret.bare_scope (chainClear x (List.mem_of_mem_head? is))

theorem blind_entityCommand (command : EntityCommand)
    (spares : (Operation.command (.entity command)).opens secret.owner xs = false) :
    Blind secret s (command.act run xs) secret.Bare
      (Chronicle.entityCommand run bodies command xs s) := by
  cases command with
  | entity =>
    refine blind_lift_bind fun name _ => blind_lift_bind fun super read =>
      blind_lift_bind fun type read' => ?_
    have superClear := operand_clear bare (reads_orVoid reads_asEntity) read
    have typeClear := operand_clear bare (reads_orVoid reads_asEntity) read'
    exact (blind_buildEntity name (Secret.found_orVoid superClear)
      (Secret.found_orVoid typeClear)).map fun _ made => Secret.bare_entity made
  | selfScope =>
    refine blind_lift_bind fun e read => ?_
    have found := operand_found bare reads_asEntity read
    apply blind_of_hides
    intro hides
    apply blind_get_bind
    · intro _
      simp only [hides.receiver_veil]
      rfl
    · exact (blind_newScope (hides.heap.clear_identityScope found (hides.receiver found))).map
        fun _ made => Secret.bare_scope made
  | hook =>
    refine blind_lift_bind fun e read => blind_lift_bind fun name _ =>
      blind_lift_bind fun callable _ => ?_
    exact (blind_declareHook (operand_found bare reads_asEntity read) name callable).map
      fun _ _ => Secret.bare_of_nil rfl
  | method =>
    refine blind_lift_bind fun e read => blind_lift_bind fun name _ =>
      blind_lift_bind fun callable _ => ?_
    exact (blind_declareMethod (operand_found bare reads_asEntity read) name callable).map
      fun _ _ => Secret.bare_of_nil rfl
  | field =>
    refine blind_lift_bind fun e read => blind_lift_bind fun name _ =>
      blind_lift_bind fun v read' => blind_lift_bind fun cell read'' => ?_
    have other : e ≠ secret.owner := fun same => by
      rw [Operation.opens, operand_eq_ok read, same] at spares
      exact absurd spares (by simp)
    have valueClear := operand_clear bare reads_asValue read'
    have cellClear : secret.Clear cell.owned := reads_fieldCell (operand_eq_ok read'') ▸ valueClear
    exact (blind_declareField (operand_found bare reads_asEntity read) other name cellClear).map
      fun _ _ => Secret.bare_of_nil rfl
  | property =>
    refine blind_lift_bind fun e read => blind_lift_bind fun name _ =>
      blind_lift_bind fun property read' => ?_
    exact (blind_declareProperty (operand_found bare reads_asEntity read) name
      ((Secret.clear_refsAll bare).subset (readProperty_subset read'))).map
      fun _ _ => Secret.bare_of_nil rfl
  | getMember =>
    refine blind_given fun e read => blind_given fun name _ => ?_
    exact (blind_getMember discreet (operand_found bare reads_asEntity read) name).map
      fun _ clear => Secret.bare_value clear
  | setMember =>
    refine blind_given fun e read => blind_given fun name _ => blind_given fun v read' => ?_
    exact (blind_setMember discreet (operand_found bare reads_asEntity read) name
      (operand_clear bare reads_asValue read')).map fun _ _ => Secret.bare_of_nil rfl
  | send =>
    refine blind_given fun e read => blind_given fun name _ => blind_given fun args read' => ?_
    exact (blind_invokeMember discreet (operand_found bare reads_asEntity read) name
      (operandsFrom_clear bare reads_asValue read')).map fun _ clear => Secret.bare_value clear
  | sendHook =>
    refine blind_given fun e read => blind_given fun name _ => blind_given fun args read' => ?_
    exact (blind_invokeHook discreet (operand_found bare reads_asEntity read) name
      (operandsFrom_clear bare reads_asValue read')).map fun _ clear => Secret.bare_value clear
  | idMatches =>
    refine blind_given fun e read => blind_given fun other _ => ?_
    exact (blind_invokeMember discreet (operand_found bare reads_asEntity read) "id"
      (List.forall_mem_nil _)).map fun _ _ => Secret.bare_of_nil rfl

/-- No operation that spares the fields of the owner sees the secret. -/
theorem blind_act (operation : Operation) :
    Blind secret s (operation.act run xs) secret.Bare
      (Chronicle.act run bodies operation xs s) := by
  apply blind_holding (Secret.bare_list.2 bare)
  intro hides spares
  obtain ⟨open_operation, rest⟩ := Chronicle.spares_cons.1 spares
  have spared : operation.opens secret.owner xs = false := by
    simpa [Moment.spares] using open_operation
  revert hides rest
  cases operation with
  | query q =>
    apply blind_of_hides
    intro hides
    have answered := unveiled_answer hides bare q spared
    exact blind_get_bind (fun _ => congrArg liftM answered.same) (blind_lift answered.holds)
  | command command =>
    cases command with
    | table command => exact blind_tableCommand bare discreet command spared
    | entity command => exact blind_entityCommand bare discreet command spared
    | call command => exact blind_callCommand bare discreet command
    | stack command => exact blind_stackCommand bare command
    | registry command => exact blind_registryCommand bare command

end Commands

end Delegation
