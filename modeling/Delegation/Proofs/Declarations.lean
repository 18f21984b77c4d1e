import Delegation.Proofs.Construction
import Delegation.Proofs.Encapsulation
import Delegation.Proofs.Liveness.Holding

/-!
# Declarations

The methods in the tables of an entity know whose they are without owning it, and plain values own
nothing. So whatever is declared on an entity, the tables own more than before only in methods that
own nothing themselves. Declaring changes neither who is alive nor who receives.
-/

namespace Delegation

variable {s t u : Session} {e d : EntityId} {x : ScopeId} {b : BindingId}

/-! ## Heaps that declarations change -/

theorem Value.owned_of_isPlain {v : Value} (plain : v.isPlain = true) : v.owned = [] := by
  cases v with
  | void | bool | int | str => rfl
  | entity | binding => cases plain

theorem Scope.mem_owned_of_declare {scope after : Scope} {name : String} {cell : Cell}
    (declared : scope.declare name cell = .ok after) {y : Node} :
    y ∈ after.owned ↔ y ∈ scope.owned ∨ y ∈ cell.owned := by
  obtain ⟨_, _, _, rfl⟩ := declare_eq_ok_iff.1 declared
  have cells : y ∈ Cell.ownedByAll (scope.cells ++ [(name, cell)]) ↔
      y ∈ Cell.ownedByAll scope.cells ∨ y ∈ cell.owned := by
    simp [Cell.mem_ownedByAll, or_and_right, exists_or]
  unfold Scope.owned Scope.parent
  cases scope.lineage.head? with
  | none => exact cells
  | some parent => simp only [List.mem_cons, cells, or_assoc]

namespace Heap

variable {heap after last : Heap}

/-- A method as declarations make it; it owns nothing. -/
def IsDeclared (heap : Heap) (b : BindingId) : Prop :=
  heap.Has (.binding b) ∧ ∃ callable owner, heap.binding b = ⟨callable, .declared owner⟩

theorem IsDeclared.owned (declared : heap.IsDeclared b) : heap.owned (.binding b) = [] := by
  obtain ⟨_, callable, owner, is⟩ := declared
  rw [Heap.owned, is]
  rfl

/-- A heap with more declared methods, and with scopes that own some of them beside what they have
owned before. -/
structure Inert (heap after : Heap) : Prop where
  entities : after.entities = heap.entities
  scopes : after.scopes.size = heap.scopes.size
  kept : ∀ b, heap.Has (.binding b) →
    after.Has (.binding b) ∧ after.binding b = heap.binding b
  made : ∀ b, after.Has (.binding b) → heap.Has (.binding b) ∨ after.IsDeclared b
  owned : ∀ x, heap.owned (.scope x) ⊆ after.owned (.scope x)
  added : ∀ x, ∀ y ∈ after.owned (.scope x),
    y ∈ heap.owned (.scope x) ∨ ∃ b, y = .binding b ∧ after.IsDeclared b

theorem Inert.refl (heap : Heap) : heap.Inert heap where
  entities := rfl
  scopes := rfl
  kept _ has := ⟨has, rfl⟩
  made _ has := .inl has
  owned _ := List.Subset.refl _
  added _ _ place := .inl place

theorem Inert.isDeclared (inert : heap.Inert after) (declared : heap.IsDeclared b) :
    after.IsDeclared b := by
  obtain ⟨has, callable, owner, is⟩ := declared
  obtain ⟨still, same⟩ := inert.kept b has
  exact ⟨still, callable, owner, same.trans is⟩

theorem Inert.trans (first : heap.Inert after) (second : after.Inert last) : heap.Inert last where
  entities := second.entities.trans first.entities
  scopes := second.scopes.trans first.scopes
  kept b has :=
    have ⟨there, same⟩ := first.kept b has
    have ⟨still, again⟩ := second.kept b there
    ⟨still, again.trans same⟩
  made b has := (second.made b has).elim
    (fun there => (first.made b there).imp_right second.isDeclared) .inr
  owned x := List.Subset.trans (first.owned x) (second.owned x)
  added x y place := (second.added x y place).elim
    (fun there => (first.added x y there).imp_right fun ⟨b, is, declared⟩ =>
      ⟨b, is, second.isDeclared declared⟩) .inr

theorem inert_addBinding (heap : Heap) (callable : Callable) (owner : EntityId) :
    heap.Inert (heap.addBinding ⟨callable, .declared owner⟩).2 where
  entities := rfl
  scopes := rfl
  kept b has := ⟨(grows_addBinding _ _).has _ has, binding_addBinding_of_lt _ has⟩
  made b has := by
    by_cases old : heap.Has (.binding b)
    · exact .inl old
    · refine .inr ⟨has, callable, owner, ?_⟩
      rw [eq_addBinding has old, binding_addBinding]
  owned _ := List.Subset.refl _
  added _ _ place := .inl place

theorem inert_setScope {scope : Scope} {name : String} {cell : Cell}
    (declared : (heap.scope x).declare name cell = .ok scope)
    (inside : ∀ y ∈ cell.owned, ∃ b, y = .binding b ∧ heap.IsDeclared b) :
    heap.Inert (heap.setScope x scope) := by
  by_cases has : heap.Has (.scope x)
  · refine ⟨rfl, by simp [setScope], fun b has => ⟨has, rfl⟩, fun b has => .inl has,
      fun z => ?_, fun z y place => ?_⟩
    · rw [Heap.owned, Heap.owned, scope_setScope has]
      split
      · next same =>
        exact fun y place => (Scope.mem_owned_of_declare declared).2 (.inl (same ▸ place))
      · exact List.Subset.refl _
    · rw [Heap.owned, scope_setScope has] at place
      split at place
      · next same =>
        subst same
        exact ((Scope.mem_owned_of_declare declared).1 place).imp_right (inside y)
      · exact .inl place
  · have same : heap.setScope x scope = heap := by
      have beyond : heap.scopes.size ≤ x.index := Nat.le_of_not_lt has
      simp [setScope, Array.setIfInBounds, Nat.not_lt.2 beyond]
    rw [same]
    exact .refl heap

end Heap

/-! ## What is declared -/

/-- What can be declared on an entity. -/
inductive Declaration where
  | hook (name : String) (callable : Callable)
  | method (name : String) (callable : Callable)
  | property (name : String) (property : Property)
  | field (name : String) (cell : Cell)

namespace Declaration

def declare (e : EntityId) : Declaration → Action Unit
  | .hook name callable => declareHook e name callable
  | .method name callable => declareMethod e name callable
  | .property name kind => declareProperty e name kind
  | .field name cell => declareField e name cell

/-- Whether all values that are declared are plain. -/
def isPlain : Declaration → Bool
  | .hook .. | .method .. => true
  | .property _ (.stored v) => v.isPlain
  | .property _ (.getter _) | .property _ (.accessors _ _) => true
  | .field _ cell => cell.isPlain

end Declaration

namespace Session

/-- A session in which nothing has happened but that something has been declared. -/
structure Inert (s t : Session) : Prop extends Beside s t where
  machine : t.machine = s.machine
  held : t.held = s.held
  heap : s.heap.Inert t.heap

theorem inert_of_heap {heap : Heap} (inert : s.heap.Inert heap) : s.Inert { s with heap } :=
  ⟨⟨rfl, rfl, rfl, rfl, rfl, rfl⟩, rfl, rfl, inert⟩

theorem Inert.refl (s : Session) : s.Inert s := inert_of_heap (.refl _)

theorem Inert.trans (first : s.Inert t) (second : t.Inert u) : s.Inert u where
  vars := second.vars.trans first.vars
  running := second.running.trans first.running
  machines := second.machines.trans first.machines
  sharedChains := second.sharedChains.trans first.sharedChains
  sharedStacks := second.sharedStacks.trans first.sharedStacks
  builders := second.builders.trans first.builders
  machine := second.machine.trans first.machine
  held := second.held.trans first.held
  heap := first.heap.trans second.heap

end Session

section Declaring

open Delegation.Action

theorem inert_declaredMethod (s : Session) (e : EntityId) (callable : Callable) :
    (declaredMethod e callable).Leads Session.Inert s fun t b => t.heap.IsDeclared b :=
  ⟨Session.inert_of_heap (Heap.inert_addBinding s.heap callable e),
    by simp [Heap.Has], callable, e, Heap.binding_addBinding _ _⟩

theorem inert_declare {name : String} {cell : Cell}
    (inside : ∀ y ∈ cell.owned, ∃ b, y = .binding b ∧ s.heap.IsDeclared b) :
    (declare x name cell).Leads Session.Inert s fun _ _ => True := by
  rcases declare_cases s x name cell with ⟨scope, declared, ends⟩ | ⟨cause, ends⟩
  · unfold Leads
    rw [ends]
    exact ⟨Session.inert_of_heap (Heap.inert_setScope declared inside), trivial⟩
  · unfold Leads
    rw [ends]
    exact .refl s

theorem inert_checkAccessor (s : Session) (accessor : Callable) (expected : Nat) :
    (checkAccessor accessor expected).Leads Session.Inert s fun _ _ => True := by
  unfold checkAccessor
  split
  · exact leads_pure (.refl s) trivial
  · exact leads_fail (.refl s) _

/-- The cell of a property leads to methods that have been declared for it, or to nothing. -/
theorem inert_propertyCell (s : Session) (e : EntityId) {name : String} {property : Property}
    (plain : (Declaration.property name property).isPlain = true) :
    (propertyCell e property).Leads Session.Inert s fun t cell =>
      ∀ y ∈ cell.owned, ∃ b, y = .binding b ∧ t.heap.IsDeclared b := by
  cases property with
  | stored v =>
    refine leads_pure (.refl s) fun y place => ?_
    rw [Cell.owned, Value.owned_of_isPlain plain] at place
    cases place
  | getter get =>
    refine (inert_checkAccessor s get 0).bind .trans fun t _ _ _ => ?_
    refine (inert_declaredMethod t e get).bind .trans fun u b _ made => ?_
    exact leads_pure (.refl u) (List.forall_mem_singleton.2 ⟨b, rfl, made⟩)
  | accessors get set =>
    refine (inert_checkAccessor s get 0).bind .trans fun t _ _ _ => ?_
    refine (inert_checkAccessor t set 1).bind .trans fun u _ _ _ => ?_
    refine (inert_declaredMethod u e get).bind .trans fun v b _ made => ?_
    refine (inert_declaredMethod v e set).bind .trans fun w c inert madeToo => ?_
    exact leads_pure (.refl w) (List.forall_mem_cons.2
      ⟨⟨b, rfl, inert.heap.isDeclared made⟩, List.forall_mem_singleton.2 ⟨c, rfl, madeToo⟩⟩)

theorem Declaration.inert (s : Session) (e : EntityId) {declaration : Declaration}
    (plain : declaration.isPlain = true) :
    (declaration.declare e).Leads Session.Inert s fun _ _ => True := by
  have method (t : Session) (b : BindingId) (made : t.heap.IsDeclared b) :
      ∀ y ∈ (Cell.constant (.binding b)).owned, ∃ b, y = .binding b ∧ t.heap.IsDeclared b :=
    List.forall_mem_singleton.2 ⟨b, rfl, made⟩
  cases declaration with
  | hook name callable =>
    refine (inert_declaredMethod s e callable).bind .trans fun t b _ made => ?_
    exact leads_get_bind (inert_declare (method t b made))
  | method name callable =>
    refine (inert_declaredMethod s e callable).bind .trans fun t b _ made => ?_
    exact leads_get_bind (inert_declare (method t b made))
  | property name kind =>
    refine (inert_propertyCell s e plain).bind .trans fun t cell _ inside => ?_
    exact leads_get_bind (inert_declare inside)
  | field name cell =>
    refine leads_get_bind (inert_declare fun y place => ?_)
    rw [Cell.owned_of_isPlain plain] at place
    cases place

end Declaring

/-! ## Who is alive after declarations -/

namespace Session

/-- Declarations give bindings nothing to own. -/
theorem Inert.owned_binding (inert : s.Inert t) (b : BindingId) :
    t.heap.owned (.binding b) ⊆ s.heap.owned (.binding b) := by
  by_cases has : t.heap.Has (.binding b)
  · rcases inert.heap.made b has with old | declared
    · rw [Heap.owned, Heap.owned, (inert.heap.kept b old).2]
      exact List.Subset.refl _
    · rw [declared.owned]
      exact List.nil_subset _
  · rw [Heap.owned, show t.heap.binding b = default from dif_neg has]
    exact List.nil_subset _

/-- Whoever owns something other than a declared method after declarations owned it before. -/
theorem Inert.owned_of_owned (inert : s.Inert t) {y z : Node} (owned : y ∈ t.heap.owned z)
    (other : ∀ b, y = .binding b → ¬t.heap.IsDeclared b) : y ∈ s.heap.owned z := by
  cases z with
  | scope x =>
    refine (inert.heap.added x y owned).resolve_right ?_
    rintro ⟨b, is, declared⟩
    exact other b is declared
  | entity d =>
    simpa only [Heap.owned, Heap.entity, inert.heap.entities] using owned
  | binding b => exact inert.owned_binding b owned

theorem Inert.roots (inert : s.Inert t) : s.roots ⊆ t.roots ∧ t.roots ⊆ s.roots :=
  ⟨inert.toBeside.roots_subset (inert.machine ▸ List.Subset.refl _)
      (inert.held ▸ List.Subset.refl _),
    inert.toBeside.symm.roots_subset (inert.machine ▸ List.Subset.refl _)
      (inert.held ▸ List.Subset.refl _)⟩

theorem Inert.retains (inert : s.Inert t) : s.Retains t where
  roots := inert.roots.1
  owned z has := by
    cases z with
    | scope x => exact inert.heap.owned x
    | entity d =>
      simp only [Heap.owned, Heap.entity, inert.heap.entities]
      exact List.Subset.refl _
    | binding b =>
      rw [Heap.owned, Heap.owned, (inert.heap.kept b has).2]
      exact List.Subset.refl _

/-- Declarations release nothing, and keep nothing but what has been declared. -/
theorem Inert.released_iff (inert : s.Inert t) (sound : s.Sound) {y : Node}
    (other : ∀ b, y = .binding b → ¬t.heap.IsDeclared b) : t.Released y ↔ s.Released y := by
  refine ⟨inert.retains.released sound, fun released => ?_⟩
  induction released with
  | intro y unrooted _ ih =>
    refine .intro y (fun rooted => unrooted (inert.roots.2 rooted)) fun z owned => ?_
    refine ih z (inert.owned_of_owned owned other) ?_
    rintro b rfl declared
    rw [declared.owned] at owned
    cases owned

/-- Declarations change neither who is alive nor who receives. -/
theorem Inert.same_receivers (inert : s.Inert t) (sound : s.Sound) (soundAfter : t.Sound)
    (has : s.heap.Has (.entity e)) :
    t.isLive e = s.isLive e ∧ t.receiver e = s.receiver e := by
  have live (d : EntityId) : t.isLive d = s.isLive d := by
    rw [Bool.eq_iff_iff, soundAfter.isLive_iff, sound.isLive_iff,
      inert.released_iff sound (by simp)]
  exact ⟨live e, sound.receiver_congr soundAfter inert.heap.entities (fun d _ => live d) has⟩

/-! ## Any number of declarations -/

/-- The session after declarations on entities, whether they succeed or fail. -/
def declaring (s : Session) (declarations : List (EntityId × Declaration)) : Session :=
  declarations.foldl (fun s (e, declaration) => (declaration.declare e).after s) s

theorem later_declare (reachable : s.Reachable) (has : s.heap.Has (.entity e))
    {declaration : Declaration} (plain : declaration.isPlain = true) :
    s.Later ((declaration.declare e).after s) := by
  have fit := reachable.sound.fit
  cases declaration with
  | hook name callable => exact (runs_declareHook fit has name callable).after.steps fit
  | method name callable => exact (runs_declareMethod fit has name callable).after.steps fit
  | property name kind =>
    have known : s.heap.HasAll kind.refs := by
      cases kind with
      | stored v =>
        rw [Property.refs, Value.owned_of_isPlain plain]
        exact Heap.hasAll_nil _
      | getter | accessors => exact Heap.hasAll_nil _
    exact (runs_declareProperty fit has name known).after.steps fit
  | field name cell =>
    have known : s.heap.HasAll cell.owned := Cell.owned_of_isPlain plain ▸ Heap.hasAll_nil _
    exact (runs_declareField fit has name known).after.steps fit

theorem inert_declaring {declarations : List (EntityId × Declaration)} (reachable : s.Reachable)
    (known : ∀ entry ∈ declarations, s.heap.Has (.entity entry.1))
    (plain : ∀ entry ∈ declarations, entry.2.isPlain = true) :
    s.Later (s.declaring declarations) ∧ s.Inert (s.declaring declarations) := by
  induction declarations generalizing s with
  | nil => exact ⟨.refl, .refl s⟩
  | cons entry rest ih =>
    obtain ⟨has, others⟩ := List.forall_mem_cons.1 known
    obtain ⟨plainFirst, plainRest⟩ := List.forall_mem_cons.1 plain
    have later := later_declare reachable has plainFirst
    have inert := (entry.2.inert s entry.1 plainFirst).after
    obtain ⟨laterRest, inertRest⟩ := ih (reachable.later later)
      (fun other place => later.heap.grows.has _ (others other place)) plainRest
    exact ⟨later.trans laterRest, inert.trans inertRest⟩

end Session

end Delegation
