import Delegation.Evaluation
import Delegation.Proofs.Outcome

/-!
# Actions that do not look around

Around the heap of a session there are the stack, the other machines, the variables, what is held
and what has been reported. Most actions look at nothing of this and change nothing of it: put into
a session with the same heap amid other surroundings, they do the same there. Calls and look-ups are
not of this kind, for they push frames, hold objects and read the current chain.
-/

namespace Delegation

/-- What is around the heap of a session. -/
structure Surroundings where
  stack : CallStack
  running : MachineId
  machines : Array Machine
  vars : List (String × Object)
  held : List Object
  reported : List EntityId
  log : List Datum

namespace Session

def surroundings (s : Session) : Surroundings :=
  ⟨s.machine.stack, s.running, s.machines, s.vars, s.held, s.reported, s.log⟩

/-- The session amid other surroundings. -/
def amid (s : Session) (around : Surroundings) : Session :=
  { s with
    machine := { s.machine with stack := around.stack }
    running := around.running
    machines := around.machines
    vars := around.vars
    held := around.held
    reported := around.reported
    log := around.log }

@[simp] theorem amid_surroundings (s : Session) : s.amid s.surroundings = s := rfl

end Session

variable {α β : Type}

/-- The action does the same amid any surroundings, and leaves them as they are. -/
def Oblivious (action : Action α) : Prop :=
  ∀ s around, action (s.amid around) = Action.bracket s (·.amid around) action

namespace Oblivious

/-! ## Ways of putting actions together -/

theorem pure (a : α) : Oblivious (pure a) := fun _ _ => rfl

theorem throw (stop : Stop) : Oblivious (throw stop : Action α) := fun _ _ => rfl

theorem fail (cause : Cause) : Oblivious (fail cause : Action α) := throw _

theorem malformed (reason : String) : Oblivious (malformed reason : Action α) := throw _

theorem bind {action : Action α} {next : α → Action β} (first : Oblivious action)
    (second : ∀ a, Oblivious (next a)) : Oblivious (action >>= next) := by
  intro s around
  have begins := first s around
  simp only [Action.bracket, Bind.bind, EStateM.bind] at begins ⊢
  rw [begins]
  cases action s with
  | error => rfl
  | ok a t => exact second a t around

theorem map {action : Action α} (first : Oblivious action) (f : α → β) :
    Oblivious (action >>= fun a => Pure.pure (f a)) := first.bind fun a => pure (f a)

/-- Of a session that is read, nothing may be used but what does not depend on surroundings. -/
theorem get_bind {next : Session → Action α} (same : ∀ s around, next (s.amid around) = next s)
    (second : ∀ s, Oblivious (next s)) : Oblivious (get >>= next) := by
  intro s around
  show next (s.amid around) (s.amid around) = Action.bracket s (·.amid around) (next s)
  rw [same]
  exact second s s around

theorem lift (found : Except Stop α) : Oblivious (liftM found : Action α) := by
  cases found with
  | ok a => exact pure a
  | error stop => exact throw stop

theorem lift_bind {found : Except Stop α} {next : α → Action β}
    (second : ∀ a, Oblivious (next a)) : Oblivious ((liftM found : Action α) >>= next) :=
  (lift found).bind second

/-! ## The heap -/

theorem onHeap (f : Heap → α × Heap) : Oblivious (onHeap f) := fun _ _ => rfl

theorem newScope (scope : Scope) : Oblivious (newScope scope) := onHeap _

theorem newBinding (binding : Binding) : Oblivious (newBinding binding) := onHeap _

theorem declare (x : ScopeId) (name : String) (cell : Cell) : Oblivious (declare x name cell) :=
  get_bind (fun _ _ => rfl) fun s => by
    split
    · exact onHeap _
    · exact fail _

theorem buildEntity (super type : Option EntityId) (name : String) :
    Oblivious (buildEntity super type name) :=
  get_bind (fun _ _ => rfl) fun s => by
    dsimp only
    split
    · exact fail _
    · exact onHeap _

theorem declaredMethod (owner : EntityId) (callable : Callable) :
    Oblivious (declaredMethod owner callable) := newBinding _

theorem declareHook (e : EntityId) (name : String) (callable : Callable) :
    Oblivious (declareHook e name callable) :=
  (declaredMethod e callable).bind fun _ => get_bind (fun _ _ => rfl) fun _ => declare _ _ _

theorem declareMethod (e : EntityId) (name : String) (callable : Callable) :
    Oblivious (declareMethod e name callable) :=
  (declaredMethod e callable).bind fun _ => get_bind (fun _ _ => rfl) fun _ => declare _ _ _

theorem declareField (e : EntityId) (name : String) (cell : Cell) :
    Oblivious (declareField e name cell) := get_bind (fun _ _ => rfl) fun _ => declare _ _ _

theorem checkAccessor (accessor : Callable) (expected : Nat) :
    Oblivious (checkAccessor accessor expected) := by
  unfold Delegation.checkAccessor
  split
  · exact pure _
  · exact fail _

theorem propertyCell (e : EntityId) (property : Property) :
    Oblivious (propertyCell e property) := by
  cases property with
  | stored v => exact pure _
  | getter get => exact (checkAccessor get 0).bind fun _ => (declaredMethod e get).map _
  | accessors get set =>
    exact (checkAccessor get 0).bind fun _ => (checkAccessor set 1).bind fun _ =>
      (declaredMethod e get).bind fun _ => (declaredMethod e set).map _

theorem declareProperty (e : EntityId) (name : String) (property : Property) :
    Oblivious (declareProperty e name property) :=
  (propertyCell e property).bind fun _ => get_bind (fun _ _ => rfl) fun _ => declare _ _ _

/-! ## Shared things and counts -/

theorem newChain (chain : Chain) : Oblivious (newChain chain) := fun _ _ => rfl

theorem modifyChain (c : ChainId) (f : Chain → Chain) : Oblivious (modifyChain c f) :=
  fun _ _ => rfl

theorem newStack (stack : CallStack) : Oblivious (newStack stack) := fun _ _ => rfl

theorem newBuilder (registry : Registry) : Oblivious (newBuilder registry) := fun _ _ => rfl

theorem setBuilder (b : BuilderId) (registry : Option Registry) :
    Oblivious (setBuilder b registry) := fun _ _ => rfl

theorem builderAt (b : BuilderId) : Oblivious (builderAt b) :=
  get_bind (fun _ _ => rfl) fun s => by
    split
    · exact pure _
    · exact malformed _

theorem newScript (body : List Expr) : Oblivious (newScript body) := fun _ _ => rfl

theorem countCall (kind : BindingKind) : Oblivious (countCall kind) :=
  bind (fun _ _ => rfl) fun _ => get_bind (fun _ _ => rfl) fun s => by
    split
    · exact pure _
    · exact fail _

/-! ## Registries -/

theorem start : Oblivious Registry.start := (newScope _).map _

theorem register (registry : Registry) (name : String) (v : Value) :
    Oblivious (registry.register name v) := declare _ _ _

theorem registerType (registry : Registry) (type : EntityId) :
    Oblivious (registry.registerType type) :=
  get_bind (fun _ _ => rfl) fun _ => (register registry _ _).map _

theorem finish (registry : Registry) : Oblivious registry.finish := (onHeap _).map _

theorem registerTypes (registry : Registry) (type : EntityId) (names : List String) :
    Oblivious (registry.registerTypes type names) := by
  induction names generalizing registry with
  | nil => exact pure _
  | cons name rest ih =>
    exact (buildEntity none (some type) name).bind fun made =>
      (registerType registry made).bind fun registry => ih registry

theorem bootstrap : Oblivious Registry.bootstrap :=
  start.bind fun registry => (buildEntity none none "Type").bind fun type =>
    (registerType registry type).bind fun registry =>
      (registerTypes registry type _).bind fun _ => finish _

theorem ofConfig (config : Config) : Oblivious (Registry.ofConfig config) := by
  unfold Registry.ofConfig
  split
  · exact bootstrap
  · exact start.bind fun registry => finish registry

theorem declareMethods (e : EntityId) (methods : List (String × Callable)) :
    Oblivious (Registry.declareMethods e methods) := by
  induction methods with
  | nil => exact pure _
  | cons entry rest ih => exact (declareMethod e entry.1 entry.2).bind fun _ => ih

theorem instantiateRoot (registry : Registry) : Oblivious registry.instantiateRoot :=
  (buildEntity _ _ _).bind fun root => (declareMethods root _).map fun _ => root

theorem buildLayers (base : EntityId) (types : List EntityId) :
    Oblivious (Registry.buildLayers base types) := by
  induction types generalizing base with
  | nil => exact pure _
  | cons type rest ih =>
    exact get_bind (fun _ _ => rfl) fun _ => (buildEntity _ _ _).bind fun layer => (ih layer).map _

theorem instantiateChain (registry : Registry) (types : List EntityId) :
    Oblivious (registry.instantiateChain types) :=
  (instantiateRoot registry).bind fun base => buildLayers base types

theorem registryCommand (command : RegistryCommand) (xs : List Object) :
    Oblivious (command.act xs) := by
  cases command with
  | builder => exact start.bind fun registry => (newBuilder registry).map _
  | register =>
    exact lift_bind fun b => lift_bind fun name => lift_bind fun v =>
      (builderAt b).bind fun registry => (register registry name v).map _
  | registerType =>
    exact lift_bind fun b => lift_bind fun type => (builderAt b).bind fun registry =>
      (registerType registry type).bind fun _ => (setBuilder b _).map _
  | rootMethod =>
    refine lift_bind fun b => lift_bind fun name => lift_bind fun callable =>
      (builderAt b).bind fun registry => ?_
    dsimp only
    split
    · exact (setBuilder b _).map _
    · exact (fail _).map _
  | build =>
    exact lift_bind fun b => (builderAt b).bind fun registry => (finish registry).bind fun _ =>
      (setBuilder b none).map _
  | bootstrap => exact bootstrap.map _
  | empty => exact (start.bind fun registry => finish registry).map _
  | instantiateRoot => exact lift_bind fun registry => (instantiateRoot registry).map _
  | instantiateChain =>
    exact lift_bind fun registry => lift_bind fun types => (instantiateChain registry types).map _

end Oblivious

end Delegation
