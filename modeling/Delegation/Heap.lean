import Delegation.Scope
import Delegation.Binding
import Delegation.Entity

/-!
# The heap

Scopes, entities and bindings live in a heap and are named by their place in it. Nothing is ever
taken out: what a program has released stays behind, unreachable, and whether it has been released
is read off the rest of the session. So a name that was good once stays good, and every change to
the heap either adds an object at the end, or changes one scope or one link in place.
-/

namespace Delegation

/-- All scopes, entities and bindings made so far. -/
structure Heap where
  scopes : Array Scope := #[]
  entities : Array Entity := #[]
  bindings : Array Binding := #[]

namespace Heap

def scope (heap : Heap) (s : ScopeId) : Scope := heap.scopes.getD s.index default

def entity (heap : Heap) (e : EntityId) : Entity := heap.entities.getD e.index default

def binding (heap : Heap) (b : BindingId) : Binding := heap.bindings.getD b.index default

/-! ## Looking names up -/

/-- A scope and its ancestors, nearest first. -/
def path (heap : Heap) (s : ScopeId) : List ScopeId := s :: (heap.scope s).lineage

/-- Whether a name is declared in a scope or an ancestor of it. -/
def contains (heap : Heap) (s : ScopeId) (name : String) : Bool :=
  (heap.path s).any fun t => (heap.scope t).declares name

/-- The nearest scope on the path that declares the name, with the cell it declares. -/
def resolve (heap : Heap) (s : ScopeId) (name : String) : Option (ScopeId × Cell) :=
  (heap.path s).findSome? fun t => ((heap.scope t).cell? name).map (t, ·)

/-- The kind of the cell that a name resolves to. -/
def cellKind? (heap : Heap) (s : ScopeId) (name : String) : Option CellKind :=
  (heap.path s).findSome? fun t => ((heap.scope t).cell? name).map Cell.kind

/-- The first scope of a chain that contains the name. -/
def findScope (heap : Heap) (chain : Chain) (name : String) : Option ScopeId :=
  chain.find? fun s => heap.contains s name

/-- A scope contains exactly the names that resolve. -/
theorem contains_eq_isSome_resolve (heap : Heap) (s : ScopeId) (name : String) :
    heap.contains s name = (heap.resolve s name).isSome := by
  simp only [contains, resolve, Scope.declares, List.isSome_findSome?, Option.isSome_map]

/-- A name has a kind exactly where it resolves, that of the cell it resolves to. -/
theorem cellKind?_eq_map_resolve (heap : Heap) (s : ScopeId) (name : String) :
    heap.cellKind? s name = (heap.resolve s name).map fun found => found.2.kind := by
  simp only [cellKind?, resolve, List.map_findSome?]
  congr 1
  funext t
  rw [Function.comp_apply, Option.map_map]
  rfl

/-! ## Changing scopes -/

def setScope (heap : Heap) (s : ScopeId) (scope : Scope) : Heap :=
  { heap with scopes := heap.scopes.setIfInBounds s.index scope }

def modifyScope (heap : Heap) (s : ScopeId) (f : Scope → Scope) : Heap :=
  { heap with scopes := heap.scopes.modify s.index f }

def addScope (heap : Heap) (scope : Scope) : ScopeId × Heap :=
  (⟨heap.scopes.size⟩, { heap with scopes := heap.scopes.push scope })

/-- An empty scope, standing on a parent if one is given. -/
def emptyScope (heap : Heap) (parent : Option ScopeId) (policy : Policy) : Scope :=
  { Scope.root policy with lineage := (parent.map heap.path).getD [] }

@[simp] theorem scope_addScope (heap : Heap) (scope : Scope) :
    (heap.addScope scope).2.scope (heap.addScope scope).1 = scope := by
  simp [addScope, Heap.scope]

theorem scope_addScope_of_lt {heap : Heap} (scope : Scope) {s : ScopeId}
    (old : s.index < heap.scopes.size) : (heap.addScope scope).2.scope s = heap.scope s := by
  simp [addScope, Heap.scope, Array.getD_eq_getD_getElem?, Array.getElem?_push, old,
    Nat.ne_of_lt old]

theorem scope_modifyScope_of_ne (heap : Heap) {s t : ScopeId} (f : Scope → Scope) (other : t ≠ s) :
    (heap.modifyScope s f).scope t = heap.scope t := by
  have apart : s.index ≠ t.index := fun same => other (by cases s; cases t; simp_all)
  simp [modifyScope, Heap.scope, Array.getD_eq_getD_getElem?, Array.getElem?_modify, apart]

/-! ## Adding bindings and entities -/

def addBinding (heap : Heap) (binding : Binding) : BindingId × Heap :=
  (⟨heap.bindings.size⟩, { heap with bindings := heap.bindings.push binding })

/-- Links an entity to the one that was built on it. -/
def linkDerived (heap : Heap) (base derived : EntityId) : Heap :=
  { heap with
    entities := heap.entities.modify base.index fun record =>
      { record with derived := some derived } }

/-- Adds an entity with fresh tables, those for hooks and members standing on its super-entity's,
and links its super-entity to it. -/
def addEntity (heap : Heap) (super type : Option EntityId) (name : String) : EntityId × Heap :=
  let (hooks, heap) :=
    heap.addScope (heap.emptyScope (super.map fun b => (heap.entity b).hooks) .hook)
  let (members, heap) :=
    heap.addScope (heap.emptyScope (super.map fun b => (heap.entity b).members) .identifier)
  let (fields, heap) := heap.addScope (.root .identifier)
  let made : EntityId := ⟨heap.entities.size⟩
  let heap :=
    { heap with entities := heap.entities.push ⟨name, type, super, fields, hooks, members, none⟩ }
  match super with
  | none => (made, heap)
  | some base => (made, heap.linkDerived base made)

/-! ## What entities see -/

/-- The private view of an entity: its own fields, then its members. -/
def privateView (heap : Heap) (e : EntityId) : Chain :=
  [(heap.entity e).fields, (heap.entity e).members]

/-- Whether an entity has a member, of its own or inherited. -/
def hasMember (heap : Heap) (e : EntityId) (name : String) : Bool :=
  heap.contains (heap.entity e).members name

/-- Whether an entity has a hook, of its own or inherited. -/
def supportsHook (heap : Heap) (e : EntityId) (name : String) : Bool :=
  heap.contains (heap.entity e).hooks name

/-! ## Text -/

/-- The name of the type of an entity, or its own name if it has no type. -/
def typeName (heap : Heap) (e : EntityId) : String :=
  match (heap.entity e).type with
  | some type => (heap.entity type).name
  | none => (heap.entity e).name

def display (heap : Heap) : Value → String
  | .void => "void"
  | .bool b => if b then "true" else "false"
  | .int n => toString n.toInt
  | .str s => s
  | .entity e => "<" ++ (heap.entity e).name ++ ">"
  | .binding b =>
      "<" ++ (heap.binding b).strategy.kind.text ++ " " ++ (heap.binding b).callable.name ++ ">"

/-- The activations of a stack, most recent first. -/
def trace (heap : Heap) (stack : CallStack) : Trace :=
  stack.frames.map fun frame => ⟨frame.name, heap.display frame.owner⟩

/-- Gives a failure the trace of a stack, unless it has one already or the stack is empty. -/
def attachTrace (heap : Heap) (stack : CallStack) (failure : Failure) : Failure :=
  if failure.trace.isSome || stack.frames.isEmpty then failure
  else failure.withTrace (heap.trace stack)

@[simp] theorem cause_attachTrace (heap : Heap) (stack : CallStack) (failure : Failure) :
    (heap.attachTrace stack failure).cause = failure.cause := by
  unfold attachTrace
  split <;> rfl

@[simp] theorem notes_attachTrace (heap : Heap) (stack : CallStack) (failure : Failure) :
    (heap.attachTrace stack failure).notes = failure.notes := by
  unfold attachTrace
  split <;> rfl

theorem attachTrace_of_isSome (heap : Heap) (stack : CallStack) {failure : Failure}
    (traced : failure.trace.isSome = true) : heap.attachTrace stack failure = failure := by
  simp [attachTrace, traced]

end Heap

end Delegation
