import Delegation.Proofs.Accessors
import Delegation.Proofs.Course.Evaluation
import Delegation.Proofs.Declarations

/-!
# What is refused

Before a cell is declared in a table, the grammar of the table is asked, then its seal, then the
names that it declares itself. Ancestors have no say. The methods of an entity are made before they
are declared, and if they are refused, nothing leads to them: they own nothing and nothing owns
them, so who is alive stays the same.

All else that is refused is refused before its first effect as well: an entity whose base carries
another one, a name for a registry under construction, a frame on a full stack. So whatever fails to
be declared, constructed or pushed leaves no trace.
-/

namespace Delegation

variable {s t : Session} {e : EntityId}

/-! ## Methods in no table -/

namespace Session

/-- The session with more methods of an entity, in none of its tables. -/
def withMethods (s : Session) (e : EntityId) (callables : List Callable) : Session :=
  let methods : List Binding := callables.map fun callable => ⟨callable, .declared e⟩
  { s with heap := { s.heap with bindings := s.heap.bindings ++ methods.toArray } }

/-- What a session may be after it has refused something: it has at most more methods than before,
in none of its tables. -/
def Untouched (s t : Session) : Prop := ∃ e callables, t = s.withMethods e callables

@[simp] theorem withMethods_nil : s.withMethods e [] = s := by simp [withMethods]

theorem withMethods_cons (s : Session) (e : EntityId) (callable : Callable)
    (rest : List Callable) : s.withMethods e (callable :: rest) =
      ({ s with heap := (s.heap.addBinding ⟨callable, .declared e⟩).2 } : Session).withMethods e
        rest := by
  simp [withMethods, Heap.addBinding]

theorem Untouched.refl (s : Session) : s.Untouched s := ⟨⟨0⟩, [], withMethods_nil.symm⟩

theorem inert_withMethods (s : Session) (e : EntityId) (callables : List Callable) :
    s.Inert (s.withMethods e callables) := by
  induction callables generalizing s with
  | nil => rw [withMethods_nil]; exact .refl s
  | cons callable rest ih =>
    rw [withMethods_cons]
    exact (inert_of_heap (Heap.inert_addBinding s.heap callable e)).trans (ih _)

theorem owned_withMethods (callables : List Callable) (y : Node) :
    (s.withMethods e callables).heap.owned y ⊆ s.heap.owned y := by
  cases y with
  | scope | entity => exact List.Subset.refl _
  | binding b => exact (inert_withMethods s e callables).owned_binding b

/-- What has been refused neither keeps anything alive nor lets go of it. -/
theorem Untouched.released_iff (untouched : s.Untouched t) (sound : s.Sound) (y : Node) :
    t.Released y ↔ s.Released y := by
  obtain ⟨e, callables, rfl⟩ := untouched
  have inert := inert_withMethods s e callables
  refine ⟨inert.retains.released sound, fun released => ?_⟩
  induction released with
  | intro y unrooted _ ih =>
    exact .intro y (fun rooted => unrooted (inert.roots.2 rooted)) fun z owned =>
      ih z (owned_withMethods callables z owned)

end Session

/-! ## Declaring in a table -/

section Table

variable {x : ScopeId} {name : String} {cell : Cell}

theorem Scope.declare_eq_error_iff {scope : Scope} {cause : Cause} :
    scope.declare name cell = .error cause ↔
      scope.policy.accepts name = false ∧ cause = .invalidSymbol name scope.policy ∨
      scope.policy.accepts name = true ∧ scope.isSealed = true ∧ cause = .sealedScope name ∨
      scope.policy.accepts name = true ∧ scope.isSealed = false ∧ scope.declares name = true ∧
        cause = .duplicateSymbol name := by
  unfold Scope.declare
  cases scope.policy.accepts name <;> cases scope.isSealed <;> cases scope.declares name <;>
    simp [eq_comm]

/-- An action fails, and for the given reason. -/
def Action.Raises {α : Type} (action : Action α) (s : Session) (cause : Cause) : Prop :=
  ∃ t, action s = .error (.failure (.ofCause cause)) t

/-- What comes of declaring a cell in a table. The first objection is what is reported: the name is
outside the grammar of the table, the table is sealed, or it declares the name itself. Without any
the cell comes behind the others of the table. Whether it is declared or refused, the session is
otherwise `t`. -/
structure Session.Enlists (s t : Session) (x : ScopeId) (name : String) (cell : Cell)
    (action : Action Unit) : Prop where
  invalidSymbol : action.Raises s (.invalidSymbol name (s.heap.scope x).policy) ↔
    (s.heap.scope x).policy.accepts name = false
  sealedScope : action.Raises s (.sealedScope name) ↔
    (s.heap.scope x).policy.accepts name = true ∧ (s.heap.scope x).isSealed = true
  duplicateSymbol : action.Raises s (.duplicateSymbol name) ↔
    (s.heap.scope x).policy.accepts name = true ∧ (s.heap.scope x).isSealed = false ∧
      name ∈ (s.heap.scope x).symbols
  succeeds : (∃ u, action s = .ok () u) ↔
    (s.heap.scope x).policy.accepts name = true ∧ (s.heap.scope x).isSealed = false ∧
      name ∉ (s.heap.scope x).symbols
  refused : ∀ stop u, action s = .error stop u → u = t
  appended : ∀ u, action s = .ok () u →
    u.heap.scope x = { s.heap.scope x with cells := (s.heap.scope x).cells ++ [(name, cell)] } ∧
      u = { t with heap := t.heap.setScope x (u.heap.scope x) }

theorem raises_declare_iff {cause : Cause} : (declare x name cell).Raises s cause ↔
    (s.heap.scope x).declare name cell = .error cause := by
  cases declared : (s.heap.scope x).declare name cell with
  | ok => simp [Action.Raises, declare_of_ok declared]
  | error other => simp [Action.Raises, declare_of_error declared, Failure.ofCause]

theorem declare_succeeds_iff : (∃ u, declare x name cell s = .ok () u) ↔
    ∃ after, (s.heap.scope x).declare name cell = .ok after := by
  cases declared : (s.heap.scope x).declare name cell with
  | ok => simp [declare_of_ok declared]
  | error => simp [declare_of_error declared]

theorem Session.enlists_of_declare {action : Action Unit} (has : s.heap.Has (.scope x))
    (scopes : t.heap.scopes = s.heap.scopes) (is : action s = declare x name cell t) :
    s.Enlists t x name cell action := by
  have same : t.heap.scope x = s.heap.scope x := by rw [Heap.scope, scopes, Heap.scope]
  have hasAfter : t.heap.Has (.scope x) := by simpa only [Heap.Has, scopes] using has
  have raises (cause : Cause) : action.Raises s cause ↔
      (s.heap.scope x).declare name cell = .error cause := by
    rw [Action.Raises, is, ← same]
    exact raises_declare_iff
  refine ⟨?_, ?_, ?_, ?_, fun stop u fails => ?_, fun u ok => ?_⟩
  · simp [raises, Scope.declare_eq_error_iff]
  · simp [raises, Scope.declare_eq_error_iff]
  · simp [raises, Scope.declare_eq_error_iff, Scope.declares_iff]
  · rw [is, declare_succeeds_iff, same]
    simp [Scope.declare_eq_ok_iff, ← Scope.declares_iff]
  · rw [is] at fails
    rcases declare_cases t x name cell with ⟨scope, -, ends⟩ | ⟨cause, ends⟩
    · cases ends.symm.trans fails
    · cases ends.symm.trans fails
      rfl
  · rw [is] at ok
    rcases declare_cases t x name cell with ⟨scope, declared, ends⟩ | ⟨cause, ends⟩
    · cases ends.symm.trans ok
      obtain ⟨-, -, -, rfl⟩ := Scope.declare_eq_ok_iff.1 declared
      rw [Heap.scope_setScope hasAfter, if_pos rfl, same]
      exact ⟨rfl, rfl⟩
    · cases ends.symm.trans ok

end Table

/-! ## Declaring on an entity -/

namespace Declaration

variable {declaration : Declaration}

def name : Declaration → String
  | .hook name _ | .method name _ | .property name _ | .field name _ => name

/-- The table of an entity that is declared in. -/
def table (record : Entity) : Declaration → ScopeId
  | .hook .. => record.hooks
  | .method .. | .property .. => record.members
  | .field .. => record.fields

/-- What becomes a method of the entity. -/
def callables : Declaration → List Callable
  | .hook _ callable | .method _ callable => [callable]
  | .property _ (.stored _) | .field .. => []
  | .property _ (.getter get) => [get]
  | .property _ (.accessors get set) => [get, set]

/-- The cell that is declared, if there are as many bindings before its methods are made. -/
def cell (bindings : Nat) : Declaration → Cell
  | .hook .. | .method .. => .constant (.binding ⟨bindings⟩)
  | .property _ (.stored v) => .mutable v
  | .property _ (.getter _) => .computed ⟨bindings⟩ none
  | .property _ (.accessors _ _) => .computed ⟨bindings⟩ (some ⟨bindings + 1⟩)
  | .field _ cell => cell

/-- Accessors take the arguments that they will be given. -/
def Fits : Declaration → Prop
  | .property _ (.getter get) => get.arity = 0
  | .property _ (.accessors get set) => get.arity = 0 ∧ set.arity = 1
  | .hook .. | .method .. | .property _ (.stored _) | .field .. => True

theorem declare_eq (fits : declaration.Fits) (e : EntityId) (s : Session) :
    declaration.declare e s =
      Delegation.declare (declaration.table (s.heap.entity e)) declaration.name
        (declaration.cell s.heap.bindings.size) (s.withMethods e declaration.callables) := by
  cases declaration with
  | hook name callable | method name callable =>
    rw [callables, Session.withMethods_cons, Session.withMethods_nil]
    rfl
  | field name cell =>
    rw [callables, Session.withMethods_nil]
    rfl
  | property name kind =>
    cases kind with
    | stored v =>
      rw [callables, Session.withMethods_nil]
      rfl
    | getter get =>
      rw [callables, Session.withMethods_cons, Session.withMethods_nil]
      exact declareProperty_getter fits e name s
    | accessors get set =>
      rw [callables, Session.withMethods_cons, Session.withMethods_cons, Session.withMethods_nil]
      rw [cell, ← Array.size_push]
      exact declareProperty_accessors fits.1 fits.2 e name s

theorem declare_of_not_fits (misfit : ¬declaration.Fits) (e : EntityId) (s : Session) :
    ∃ stop, declaration.declare e s = .error stop s := by
  cases declaration with
  | hook | method | field => exact absurd trivial misfit
  | property name kind =>
    cases kind with
    | stored => exact absurd trivial misfit
    | getter get => exact ⟨_, declareProperty_of_getter_arity misfit none e name s⟩
    | accessors get set =>
      by_cases nullary : get.arity = 0
      · have other : set.arity ≠ 1 := fun unary => misfit ⟨nullary, unary⟩
        exact ⟨_, declareProperty_of_setter_arity nullary other e name s⟩
      · exact ⟨_, declareProperty_of_getter_arity nullary (some set) e name s⟩

end Declaration

/-! ## Actions that leave no trace when they fail -/

/-- An action that leaves no trace when it fails. -/
def Action.Clean {α : Type} (action : Action α) : Prop :=
  ∀ s stop t, action s = .error stop t → s.Untouched t

section Rules

variable {α β : Type} {action : Action α} {next : α → Action β}

theorem Action.Careful.clean (careful : action.Careful) : action.Clean := by
  intro s stop t fails
  rw [careful s stop t fails]
  exact .refl s

theorem clean_lift_bind {found : Except Stop α} (second : ∀ a, (next a).Clean) :
    ((liftM found : Action α) >>= next).Clean := by
  intro s stop t fails
  cases found with
  | error =>
    cases fails
    exact .refl s
  | ok a => exact second a s stop t fails

theorem clean_get_bind {next : Session → Action α} (second : ∀ s, (next s).Clean) :
    (get >>= next : Action α).Clean :=
  fun s => second s s

/-- Nothing fails any more after what leaves no trace. -/
theorem Action.Clean.bind (first : action.Clean) (second : ∀ a s, ∃ b t, next a s = .ok b t) :
    (action >>= next).Clean := by
  intro s stop t fails
  simp only [Bind.bind, EStateM.bind] at fails
  split at fails
  · next a u _ =>
    obtain ⟨b, v, ends⟩ := second a u
    cases ends.symm.trans fails
  · next other u ends =>
    cases fails
    exact first s stop t ends

theorem clean_builderAt_bind {b : BuilderId} {next : Registry → Action α}
    (second : ∀ registry, (next registry).Clean) : (builderAt b >>= next).Clean := by
  intro s stop t fails
  cases is : s.builders.getD b.index none with
  | none =>
    simp only [builderAt, Bind.bind, EStateM.bind, Action.get_eq_ok, is] at fails
    cases fails
    exact .refl s
  | some registry =>
    simp only [builderAt, Bind.bind, EStateM.bind, Action.get_eq_ok, is] at fails
    exact second registry s stop t fails

end Rules

theorem careful_declare (x : ScopeId) (name : String) (cell : Cell) :
    (declare x name cell).Careful := by
  intro s stop t fails
  rcases declare_cases s x name cell with ⟨_, _, ends⟩ | ⟨_, ends⟩
  · cases ends.symm.trans fails
  · cases ends.symm.trans fails
    rfl

theorem Declaration.clean_declare (declaration : Declaration) (e : EntityId) :
    (declaration.declare e).Clean := by
  intro s stop t fails
  by_cases fits : declaration.Fits
  · rw [declare_eq fits e s] at fails
    exact ⟨e, declaration.callables, careful_declare _ _ _ _ _ _ fails⟩
  · obtain ⟨_, ends⟩ := declare_of_not_fits fits e s
    cases ends.symm.trans fails
    exact .refl s

theorem careful_buildEntity (super type : Option EntityId) (name : String) :
    (buildEntity super type name).Careful := by
  intro s stop t fails
  by_cases free : ∀ base ∈ super, (s.heap.entity base).derived = none
  · cases (buildEntity_of_free free type name).symm.trans fails
  · push Not at free
    obtain ⟨base, rfl, derived⟩ := free
    obtain ⟨d, taken⟩ := Option.ne_none_iff_exists'.1 derived
    cases (buildEntity_of_taken taken type name).symm.trans fails
    rfl

/-! ## Commands -/

/-- The commands that declare, construct or push something unless it is refused. -/
inductive Command.Adds : Command → Prop
  | table : Adds (.table .declare)
  | entity : Adds (.entity .entity)
  | hook : Adds (.entity .hook)
  | method : Adds (.entity .method)
  | field : Adds (.entity .field)
  | property : Adds (.entity .property)
  | register : Adds (.registry .register)
  | registerType : Adds (.registry .registerType)
  | rootMethod : Adds (.registry .rootMethod)
  | push : Adds (.stack .push)

theorem Command.Adds.clean {command : Command} (adds : command.Adds) (run : Runner)
    (xs : List Object) : (command.act run xs).Clean := by
  cases adds with
  | table =>
    refine clean_lift_bind fun x => clean_lift_bind fun name => clean_lift_bind fun cell => ?_
    exact (careful_declare x name cell).clean.bind fun _ s => ⟨_, s, rfl⟩
  | entity =>
    refine clean_lift_bind fun name => clean_lift_bind fun super => clean_lift_bind fun type => ?_
    exact (careful_buildEntity super type name).clean.bind fun _ s => ⟨_, s, rfl⟩
  | hook =>
    refine clean_lift_bind fun e => clean_lift_bind fun name => clean_lift_bind fun callable => ?_
    exact ((Declaration.hook name callable).clean_declare e).bind fun _ s => ⟨_, s, rfl⟩
  | method =>
    refine clean_lift_bind fun e => clean_lift_bind fun name => clean_lift_bind fun callable => ?_
    exact ((Declaration.method name callable).clean_declare e).bind fun _ s => ⟨_, s, rfl⟩
  | field =>
    refine clean_lift_bind fun e => clean_lift_bind fun name => clean_lift_bind fun v =>
      clean_lift_bind fun cell => ?_
    exact ((Declaration.field name cell).clean_declare e).bind fun _ s => ⟨_, s, rfl⟩
  | property =>
    refine clean_lift_bind fun e => clean_lift_bind fun name => clean_lift_bind fun kind => ?_
    exact ((Declaration.property name kind).clean_declare e).bind fun _ s => ⟨_, s, rfl⟩
  | register =>
    refine clean_lift_bind fun b => clean_lift_bind fun name => clean_lift_bind fun v =>
      clean_builderAt_bind fun registry => ?_
    exact (careful_declare registry.scope name (.constant v)).clean.bind fun _ s => ⟨_, s, rfl⟩
  | registerType =>
    refine clean_lift_bind fun b => clean_lift_bind fun type =>
      clean_builderAt_bind fun registry => ?_
    have registers : (registry.registerType type).Clean := clean_get_bind fun s =>
      (careful_declare registry.scope _ _).clean.bind fun _ s => ⟨_, s, rfl⟩
    exact registers.bind fun _ s => ⟨_, _, rfl⟩
  | rootMethod =>
    refine clean_lift_bind fun b => clean_lift_bind fun name => clean_lift_bind fun callable =>
      clean_builderAt_bind fun registry => ?_
    cases registry.rootMethod name callable with
    | ok extended => exact (careful_of_eq_ok fun s => ⟨_, _, rfl⟩).clean
    | error cause =>
      intro s stop t fails
      cases fails
      exact .refl s
  | push => exact (StackCommand.push.careful_act xs).clean

namespace Session

/-- What is refused leaves no trace. Commands that declare, construct or push something fail only
with all tables, entities, registries under construction and stacks as they were; nothing else is
released or kept alive, and what has been made for nothing is released at once. A call that finds
the stack full changes nothing either. What is declared in a table, or on an entity in one of its
tables, is refused for the reasons that the table gives, which do not depend on its ancestors, and
otherwise added to it. -/
theorem refusals (reachable : s.Reachable) :
    (∀ command run xs stop t, Command.Adds command → command.act run xs s = .error stop t →
      s.Untouched t ∧ (∀ y, t.Released y ↔ s.Released y) ∧
        ∀ y, ¬s.heap.Has y → t.Released y) ∧
    (∀ frame stop t, pushFrame frame s = .error stop t → t = s) ∧
    (∀ x name cell, s.heap.Has (.scope x) → s.Enlists s x name cell (declare x name cell)) ∧
    ∀ e (declaration : Declaration), s.heap.Has (.entity e) → declaration.Fits →
      s.Enlists (s.withMethods e declaration.callables) (declaration.table (s.heap.entity e))
        declaration.name (declaration.cell s.heap.bindings.size) (declaration.declare e) := by
  refine ⟨fun command run xs stop t adds fails => ?_, fun frame stop t fails => ?_,
    fun x name cell has => enlists_of_declare has rfl rfl, fun e declaration has fits => ?_⟩
  · have untouched := adds.clean run xs s stop t fails
    have released := untouched.released_iff reachable.sound
    exact ⟨untouched, released, fun y absent =>
      (released y).2 (reachable.sound.released_of_not_has absent)⟩
  · simp only [pushFrame] at fails
    split at fails
    · cases fails
    · cases fails
      rfl
  · refine enlists_of_declare ?_ rfl (declaration.declare_eq fits e s)
    obtain ⟨fields, hooks, members⟩ := reachable.sound.heap.has_tables has
    cases declaration with
    | hook => exact hooks
    | method | property => exact members
    | field => exact fields

/-- A name that a scope declares already can be declared in a scope that stands on it. -/
theorem refusals_beside_ancestor :
    let s := (Program.runSteps
      [.bind "p" (.apply (.command (.table .scope)) [.str "identifier"]),
        .apply (.command (.table .declare))
          [.var "p", .str "n", .apply (.query (.table .mutable)) [.int 1]],
        .bind "c" (.apply (.command (.table .child)) [.var "p", .str "identifier"])]).after
          (Program.ready {})
    s.Reachable ∧ s.heap.contains ⟨2⟩ "n" = true ∧
      (declare ⟨1⟩ "n" (.constant .void)).Raises s (.duplicateSymbol "n") ∧
      ∃ t, declare ⟨2⟩ "n" (.constant .void) s = .ok () t ∧ (t.heap.scope ⟨2⟩).symbols = ["n"] := by
  intro s
  have reachable : s.Reachable := Program.reachable_runSteps {} _
  have facts : s.heap.contains ⟨2⟩ "n" = true ∧ 2 < s.heap.scopes.size ∧
      ∀ x ∈ [(⟨1⟩ : ScopeId), ⟨2⟩], (s.heap.scope x).policy.accepts "n" = true ∧
        (s.heap.scope x).isSealed = false ∧
          (s.heap.scope x).symbols = if x = ⟨1⟩ then ["n"] else [] := by
    decide +kernel
  obtain ⟨contains, has, tables⟩ := facts
  obtain ⟨-, -, enlists, -⟩ := refusals reachable
  have lower := enlists ⟨1⟩ "n" (.constant .void) (Nat.lt_of_succ_lt has)
  have upper := enlists ⟨2⟩ "n" (.constant .void) has
  obtain ⟨accepts, isOpen, symbols⟩ := tables ⟨1⟩ (by simp)
  obtain ⟨accepts', isOpen', symbols'⟩ := tables ⟨2⟩ (by simp)
  have taken : "n" ∈ (s.heap.scope ⟨1⟩).symbols := by simp [symbols]
  have fresh : "n" ∉ (s.heap.scope ⟨2⟩).symbols := by simp [symbols']
  obtain ⟨t, ends⟩ := upper.succeeds.2 ⟨accepts', isOpen', fresh⟩
  obtain ⟨declared, -⟩ := upper.appended t ends
  refine ⟨reachable, contains, lower.duplicateSymbol.2 ⟨accepts, isOpen, taken⟩, t, ends, ?_⟩
  rw [declared, Scope.symbols, List.map_append]
  exact congrArg (· ++ ["n"]) symbols'

end Session

end Delegation
