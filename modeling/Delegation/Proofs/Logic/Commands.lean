import Delegation.Proofs.Logic.Calls

/-!
# Operations in a logic

Commands that run no bodies are quiet, but for those on stacks, for which a logic has a rule. So what
a logic says of bodies, it says of every operation.
-/

namespace Delegation

open Delegation.Action

/-! ## Quiet commands -/

section Quiet

variable {R : Session → Session → Prop} [Harmless R]

theorem quiet_declare (x : ScopeId) (name : String) (cell : Cell) :
    Quiet R (declare x name cell) := by
  refine fun s => .get_bind (fun _ => rfl) ?_
  split
  · next declared => exact .of_change rfl (Harmless.declare declared) fun _ => rfl
  · exact quiet_fail _ s

theorem quiet_close (x : ScopeId) :
    Quiet R (onHeap fun heap => ((), heap.modifyScope x Scope.close)) :=
  fun s => .of_change rfl (Harmless.close s x) fun _ => rfl

theorem quiet_declaredMethod (owner : EntityId) (callable : Callable) :
    Quiet R (declaredMethod owner callable) := quiet_newBinding fun _ => by simp

theorem quiet_buildEntity (super type : Option EntityId) (name : String) :
    Quiet R (buildEntity super type name) :=
  quiet_get_bind (fun _ => rfl) fun s => by
    dsimp only
    split
    · exact quiet_fail _
    · exact fun t => .of_change rfl (Harmless.addEntity t super type name) fun _ => rfl

theorem quiet_declareMethod (e : EntityId) (name : String) (callable : Callable) :
    Quiet R (declareMethod e name callable) :=
  (quiet_declaredMethod e callable).bind fun _ =>
    quiet_get_bind (fun _ => rfl) fun _ => quiet_declare _ _ _

theorem quiet_declareHook (e : EntityId) (name : String) (callable : Callable) :
    Quiet R (declareHook e name callable) :=
  (quiet_declaredMethod e callable).bind fun _ =>
    quiet_get_bind (fun _ => rfl) fun _ => quiet_declare _ _ _

theorem quiet_checkAccessor (accessor : Callable) (expected : Nat) :
    Quiet R (checkAccessor accessor expected) := by
  unfold checkAccessor
  split
  · exact quiet_pure _
  · exact quiet_fail _

theorem quiet_propertyCell (e : EntityId) (property : Property) :
    Quiet R (propertyCell e property) := by
  cases property with
  | stored v => exact quiet_pure _
  | getter get => exact (quiet_checkAccessor get 0).bind fun _ => (quiet_declaredMethod e get).map _
  | accessors get set =>
    exact (quiet_checkAccessor get 0).bind fun _ => (quiet_checkAccessor set 1).bind fun _ =>
      (quiet_declaredMethod e get).bind fun _ => (quiet_declaredMethod e set).map _

theorem quiet_declareProperty (e : EntityId) (name : String) (property : Property) :
    Quiet R (declareProperty e name property) :=
  (quiet_propertyCell e property).bind fun _ =>
    quiet_get_bind (fun _ => rfl) fun _ => quiet_declare _ _ _

theorem quiet_register (registry : Registry) (name : String) (v : Value) :
    Quiet R (registry.register name v) := quiet_declare _ _ _

theorem quiet_registerType (registry : Registry) (type : EntityId) :
    Quiet R (registry.registerType type) :=
  quiet_get_bind (fun _ => rfl) fun _ => (quiet_register registry _ _).map _

theorem quiet_finish (registry : Registry) : Quiet R registry.finish :=
  (quiet_close registry.scope).map _

theorem quiet_registerTypes (registry : Registry) (type : EntityId) (names : List String) :
    Quiet R (registry.registerTypes type names) := by
  induction names generalizing registry with
  | nil => exact quiet_pure _
  | cons name rest ih =>
    exact (quiet_buildEntity none (some type) name).bind fun made =>
      (quiet_registerType registry made).bind fun registry => ih registry

theorem quiet_start : Quiet R Registry.start := (quiet_newScope _).map _

theorem quiet_bootstrap : Quiet R Registry.bootstrap :=
  quiet_start.bind fun registry => (quiet_buildEntity none none "Type").bind fun type =>
    (quiet_registerType registry type).bind fun registry =>
      (quiet_registerTypes registry type _).bind fun _ => quiet_finish _

theorem quiet_empty : Quiet R Registry.empty :=
  quiet_start.bind fun registry => quiet_finish registry

theorem quiet_ofConfig (config : Config) : Quiet R (Registry.ofConfig config) := by
  unfold Registry.ofConfig
  split
  · exact quiet_bootstrap
  · exact quiet_empty

theorem quiet_declareMethods (e : EntityId) (methods : List (String × Callable)) :
    Quiet R (Registry.declareMethods e methods) := by
  induction methods with
  | nil => exact quiet_pure _
  | cons entry rest ih => exact (quiet_declareMethod e entry.1 entry.2).bind fun _ => ih

theorem quiet_instantiateRoot (registry : Registry) : Quiet R registry.instantiateRoot :=
  (quiet_buildEntity _ _ _).bind fun root => (quiet_declareMethods root _).map fun _ => root

theorem quiet_buildLayers (base : EntityId) (types : List EntityId) :
    Quiet R (Registry.buildLayers base types) := by
  induction types generalizing base with
  | nil => exact quiet_pure _
  | cons type rest ih =>
    exact quiet_get_bind (fun _ => rfl) fun _ =>
      (quiet_buildEntity _ _ _).bind fun layer => (ih layer).map _

theorem quiet_newChain (chain : Chain) : Quiet R (newChain chain) :=
  fun s => .of_change rfl (Harmless.chains s _) fun _ => rfl

theorem quiet_modifyChain (c : ChainId) (f : Chain → Chain) : Quiet R (modifyChain c f) :=
  fun s => .of_change rfl (Harmless.chains s _) fun _ => rfl

theorem quiet_newBuilder (registry : Registry) : Quiet R (newBuilder registry) :=
  fun s => .of_change rfl (Harmless.builders s _) fun _ => rfl

theorem quiet_setBuilder (b : BuilderId) (registry : Option Registry) :
    Quiet R (setBuilder b registry) := fun s => .of_change rfl (Harmless.builders s _) fun _ => rfl

theorem quiet_builderAt (b : BuilderId) : Quiet R (builderAt b) :=
  quiet_get_bind (fun _ => rfl) fun s => by
    split
    · exact quiet_pure _
    · exact quiet_malformed _

theorem quiet_registryCommand (command : RegistryCommand) (xs : List Object) :
    Quiet R (command.act xs) := by
  cases command with
  | builder => exact quiet_start.bind fun registry => (quiet_newBuilder registry).map _
  | register =>
    exact quiet_lift_bind fun b => quiet_lift_bind fun name => quiet_lift_bind fun v =>
      (quiet_builderAt b).bind fun registry => (quiet_register registry name v).map _
  | registerType =>
    exact quiet_lift_bind fun b => quiet_lift_bind fun type =>
      (quiet_builderAt b).bind fun registry =>
        (quiet_registerType registry type).bind fun _ => (quiet_setBuilder b _).map _
  | rootMethod =>
    refine quiet_lift_bind fun b => quiet_lift_bind fun name => quiet_lift_bind fun callable =>
      (quiet_builderAt b).bind fun registry => ?_
    dsimp only
    split
    · exact (quiet_setBuilder b _).map _
    · exact (quiet_fail _).map _
  | build =>
    exact quiet_lift_bind fun b => (quiet_builderAt b).bind fun registry =>
      (quiet_finish registry).bind fun _ => (quiet_setBuilder b none).map _
  | bootstrap => exact quiet_bootstrap.map _
  | empty => exact quiet_empty.map _
  | instantiateRoot => exact quiet_lift_bind fun registry => (quiet_instantiateRoot registry).map _
  | instantiateChain =>
    exact quiet_lift_bind fun registry => quiet_lift_bind fun types =>
      ((quiet_instantiateRoot registry).bind fun base => quiet_buildLayers base types).map _

/-- A closure captures the frame that is current. -/
theorem quiet_closure (callable : Callable) :
    Quiet R (do
      let captured := (← get).machine.currentFrame
      return .value (.binding (← newBinding ⟨callable, .closure captured⟩)) : Action Object) := by
  refine fun s => .get_bind (fun _ => rfl) ?_
  have captures : (newBinding ⟨callable, .closure s.machine.currentFrame⟩).QuietAt R s :=
    .of_change rfl (Harmless.addBinding s fun _ is => (Strategy.closure.inj is).symm) fun _ => rfl
  exact captures.bind fun _ => quiet_pure _

end Quiet

/-! ## Operations -/

namespace Logic

variable {s : Session} {run : Runner} {bodies : Body → Session → Chronicle} {raw : Bool}
  {R : Session → Session → Prop} [Harmless R]
  {P : {α : Type} → Bool → Session → Action α → Chronicle → Prop} (logic : Logic raw R P)

include logic

variable (told : run.Told P false bodies)

include told

theorem holds_tableCommand (command : TableCommand) (xs : List Object) :
    P false s (command.act run xs) (Chronicle.tableCommand run bodies command xs s) := by
  cases command with
  | get =>
    refine logic.given fun table _ => logic.given fun name _ => ?_
    cases table with
    | inl x => exact logic.map (logic.holds_get told x name) _
    | inr c => exact logic.reading (fun _ => rfl) (logic.map (logic.holds_chainGet told _ name) _)
  | set =>
    refine logic.given fun table _ => logic.given fun name _ => logic.given fun v _ => ?_
    cases table with
    | inl x => exact logic.map (logic.holds_set told x name v) _
    | inr c => exact logic.reading (fun _ => rfl) (logic.map (logic.holds_chainSet told _ name v) _)
  | scope => exact logic.quiet (quiet_lift_bind fun _ => (quiet_newScope _).map _)
  | child =>
    exact logic.quiet (quiet_lift_bind fun _ => quiet_lift_bind fun _ =>
      quiet_get_bind (fun _ => rfl) fun _ => (quiet_newScope _).map _)
  | declare =>
    exact logic.quiet (quiet_lift_bind fun _ => quiet_lift_bind fun _ => quiet_lift_bind fun _ =>
      (quiet_declare _ _ _).map _)
  | «seal» => exact logic.quiet (quiet_lift_bind fun _ => (quiet_close _).map _)
  | chain => exact logic.quiet (quiet_lift_bind fun _ => (quiet_newChain _).map _)
  | copyChain | privateView =>
    exact logic.quiet (quiet_lift_bind fun _ => quiet_get_bind (fun _ => rfl) fun _ =>
      (quiet_newChain _).map _)
  | frameChain => exact logic.quiet (quiet_lift_bind fun _ => (quiet_newChain _).map _)
  | currentChain =>
    exact logic.quiet (quiet_get_bind (fun _ => rfl) fun _ => (quiet_newChain _).map _)
  | pushInner | pushOuter =>
    exact logic.quiet (quiet_lift_bind fun _ => quiet_lift_bind fun _ =>
      (quiet_modifyChain _ _).map _)
  | popInner =>
    exact logic.quiet (quiet_lift_bind fun _ => quiet_get_bind (fun _ => rfl) fun _ =>
      (quiet_modifyChain _ _).map _)

theorem holds_entityCommand (command : EntityCommand) (xs : List Object) :
    P false s (command.act run xs) (Chronicle.entityCommand run bodies command xs s) := by
  cases command with
  | getMember =>
    exact logic.given fun e _ => logic.given fun name _ =>
      logic.map (logic.holds_getMember told e name) _
  | setMember =>
    exact logic.given fun e _ => logic.given fun name _ => logic.given fun v _ =>
      logic.map (logic.holds_setMember told e name v) _
  | send =>
    exact logic.given fun e _ => logic.given fun name _ => logic.given fun args _ =>
      logic.map (logic.holds_invokeMember told e name args) _
  | sendHook =>
    exact logic.given fun e _ => logic.given fun name _ => logic.given fun args _ =>
      logic.map (logic.holds_invokeHook told e name args) _
  | idMatches =>
    exact logic.given fun e _ => logic.given fun _ _ =>
      logic.map (logic.holds_invokeMember told e "id" []) _
  | entity =>
    exact logic.quiet (quiet_lift_bind fun _ => quiet_lift_bind fun _ => quiet_lift_bind fun _ =>
      (quiet_buildEntity _ _ _).map _)
  | selfScope =>
    exact logic.quiet (quiet_lift_bind fun e => quiet_get_bind
      (fun s => by simp only [Session.receiver_uncounted]; rfl) fun _ => (quiet_newScope _).map _)
  | hook =>
    exact logic.quiet (quiet_lift_bind fun _ => quiet_lift_bind fun _ => quiet_lift_bind fun _ =>
      (quiet_declareHook _ _ _).map _)
  | method =>
    exact logic.quiet (quiet_lift_bind fun _ => quiet_lift_bind fun _ => quiet_lift_bind fun _ =>
      (quiet_declareMethod _ _ _).map _)
  | field =>
    exact logic.quiet (quiet_lift_bind fun _ => quiet_lift_bind fun _ => quiet_lift_bind fun _ =>
      quiet_lift_bind fun _ => (quiet_get_bind (fun _ => rfl) fun _ => quiet_declare _ _ _).map _)
  | property =>
    exact logic.quiet (quiet_lift_bind fun _ => quiet_lift_bind fun _ => quiet_lift_bind fun _ =>
      (quiet_declareProperty _ _ _).map _)

theorem holds_callCommand (command : CallCommand) (xs : List Object) :
    P false s (command.act run xs) (Chronicle.callCommand run bodies command xs s) := by
  cases command with
  | invoke =>
    exact logic.given fun callable _ => logic.given fun args _ =>
      logic.map (logic.holds_invoke told callable args) _
  | callBinding =>
    exact logic.given fun b _ => logic.given fun args _ =>
      logic.map (logic.holds_call told b args) _
  | lookup => exact logic.given fun name _ => logic.map (logic.holds_lookup told name) _
  | assign =>
    exact logic.given fun name _ => logic.given fun v _ =>
      logic.map (logic.holds_assign told name v) _
  | call =>
    exact logic.given fun callee _ => logic.given fun args _ =>
      logic.map (logic.holds_callValue told callee args) _
  | function | bound =>
    exact logic.quiet (quiet_lift_bind fun _ => quiet_lift_bind fun _ =>
      (quiet_newBinding fun _ => by simp).map _)
  | closure => exact logic.quiet (quiet_lift_bind fun callable => quiet_closure callable)

theorem holds_act (operation : Operation) (xs : List Object)
    (allowed : Allowed raw (!operation.handlesStacks)) :
    P false s (operation.act run xs) (Chronicle.act run bodies operation xs s) := by
  apply logic.hold
  cases operation with
  | query q => exact logic.ask (logic.quiet (quiet_lift _))
  | command c =>
    cases c with
    | table command => exact logic.note (logic.holds_tableCommand told command xs) trivial
    | entity command => exact logic.note (logic.holds_entityCommand told command xs) trivial
    | call command => exact logic.note (logic.holds_callCommand told command xs) trivial
    | stack command => exact logic.handle _ xs allowed
    | registry command =>
      exact logic.note (logic.quiet (quiet_registryCommand command xs)) trivial

end Logic

end Delegation
