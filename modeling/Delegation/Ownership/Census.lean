import Delegation.Ownership

/-!
# The census

Which objects have been released is decided by a census. It counts the owners of every object, lets
go of those without any, and repeats this with whatever they alone owned until nothing changes. The
objects whose count is then zero are the released ones.

Most questions need no census: an entity is alive if a root owns it or an entity derived from it.
-/

namespace Delegation

/-- A count for every object of a heap. -/
structure Census where
  scopes : Array Nat
  entities : Array Nat
  bindings : Array Nat

namespace Census

def count (census : Census) : Node → Nat
  | .scope s => census.scopes.getD s.index 0
  | .entity e => census.entities.getD e.index 0
  | .binding b => census.bindings.getD b.index 0

def modify (census : Census) (f : Nat → Nat) : Node → Census
  | .scope s => { census with scopes := census.scopes.modify s.index f }
  | .entity e => { census with entities := census.entities.modify e.index f }
  | .binding b => { census with bindings := census.bindings.modify b.index f }

def zero (heap : Heap) : Census :=
  ⟨.replicate heap.scopes.size 0, .replicate heap.entities.size 0, .replicate heap.bindings.size 0⟩

/-- Counts the objects of a list, each as often as it occurs. -/
def addAll (census : Census) (xs : List Node) : Census :=
  xs.foldl (fun census x => census.modify (· + 1) x) census

/-- The owners of every object, roots included. -/
def owners (session : Session) : Census :=
  session.heap.nodes.foldl (fun census x => census.addAll (session.heap.owned x))
    ((zero session.heap).addAll session.roots)

/-- Takes one owner away from each object of a list; those left without any join the others that
are to be let go. -/
def disown (census : Census) (pending : List Node) : List Node → Census × List Node
  | [] => (census, pending)
  | x :: xs =>
      let census := census.modify (· - 1) x
      census.disown (if census.count x = 0 then x :: pending else pending) xs

/-- Lets go of the pending objects and of all that loses its last owner with them. -/
def release (heap : Heap) : Nat → List Node → Census → Census
  | 0, _, census => census
  | _, [], census => census
  | fuel + 1, x :: pending, census =>
      let (census, pending) := census.disown pending (heap.owned x)
      release heap fuel pending census

end Census

namespace Heap

/-- The entities derived from an entity, up to `fuel` of them, nearest first. -/
def layersAbove (heap : Heap) : Nat → EntityId → List EntityId
  | 0, _ => []
  | fuel + 1, e =>
      match (heap.entity e).derived with
      | none => []
      | some d => d :: heap.layersAbove fuel d

end Heap

namespace Session

/-- Whether an object is owned from outside the heap. -/
def isRooted (session : Session) (x : Node) : Bool :=
  session.vars.any (fun (_, object) => (session.ownedBy object).contains x) ||
    session.held.any (fun object => (session.ownedBy object).contains x) ||
    session.machine.owned.contains x

theorem isRooted_iff {session : Session} {x : Node} :
    session.isRooted x = true ↔ x ∈ session.roots := by
  simp [isRooted, roots, or_assoc]

/-- The owners that every object has once all released objects are gone. -/
def census (session : Session) : Census :=
  let census := Census.owners session
  let nodes := session.heap.nodes
  Census.release session.heap nodes.length (nodes.filter fun x => census.count x = 0) census

/-- The entities derived from an entity, nearest first, whether they are alive or not. -/
def layersAbove (session : Session) (e : EntityId) : List EntityId :=
  session.heap.layersAbove session.heap.entities.size e

/-- Whether an entity has not been released. -/
def isLive (session : Session) (e : EntityId) : Bool :=
  session.isRooted (.entity e) ||
    (session.layersAbove e).any (fun d => session.isRooted (.entity d)) ||
    session.census.count (.entity e) != 0

/-- The most derived entity alive on top of an entity; the entity itself if there is none. -/
def receiver (session : Session) (e : EntityId) : EntityId :=
  match (session.layersAbove e).reverse with
  | [] => e
  | top :: below =>
      if session.isRooted (.entity top) then top
      else
        let census := session.census
        ((top :: below).find? fun d => census.count (.entity d) != 0).getD e

end Session

end Delegation
