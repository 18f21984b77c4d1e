import Mathlib.Data.List.Find
import Delegation.Proofs.Liveness.Census

/-!
# Receivers

The layers alive on top of an entity are an unbroken run, since every layer keeps the one below
alive and no layer carries two. The receiver is the last of them: it is found by following the link
from an entity to the one built on it for as long as that one is alive.
-/

namespace Delegation

/-- An entity is built on another, directly or through others, or is the same. -/
def Heap.BuiltOn (heap : Heap) : EntityId → EntityId → Prop :=
  Relation.ReflTransGen fun d base => (heap.entity d).super = some base

namespace Session

variable {session : Session}

/-- The entity built on an entity, if it is alive. -/
def upgrade? (session : Session) (e : EntityId) : Option EntityId :=
  (session.heap.entity e).derived.filter session.isLive

theorem upgrade?_eq_some_iff {e d : EntityId} : session.upgrade? e = some d ↔
    (session.heap.entity e).derived = some d ∧ session.isLive d = true := by
  unfold upgrade?
  exact Option.filter_eq_some_iff

variable (sound : session.Sound)
include sound

theorem Sound.upgrade_of_super {d base : EntityId} (alive : session.isLive d = true)
    (is : (session.heap.entity d).super = some base) :
    session.isLive base = true ∧ session.upgrade? base = some d := by
  have has := sound.has_of_isLive alive
  refine ⟨sound.isLive_iff.2 fun released => sound.isLive_iff.1 alive (released.of_super is), ?_⟩
  exact upgrade?_eq_some_iff.2 ⟨sound.heap.derivedOfSuper d base has is, alive⟩

theorem Sound.super_of_upgrade {base d : EntityId} (is : session.upgrade? base = some d) :
    (session.heap.entity d).super = some base := by
  obtain ⟨derived, _⟩ := upgrade?_eq_some_iff.1 is
  have has : session.heap.Has (.entity base) := Classical.byContradiction fun absent => by
    have missing : session.heap.entity base = default := dif_neg absent
    rw [missing] at derived
    cases derived
  exact (sound.heap.superOfDerived base d has derived).1

/-- All layers on top of an entity that is not alive are gone. -/
theorem Sound.gone_above {e d : EntityId} (has : session.heap.Has (.entity e))
    (gone : session.isLive e = false) (above : d ∈ session.layersAbove e) :
    session.isLive d = false := by
  have released : session.Released (.entity e) := Classical.byContradiction fun kept => by
    rw [sound.isLive_iff.2 kept] at gone
    cases gone
  apply Bool.eq_false_iff.2
  intro alive
  apply sound.isLive_iff.1 alive
  exact released.of_mem_layersAbove sound.heap has above

/-- The receiver of an entity is the last layer alive on top of it, or the entity itself. -/
theorem Sound.receiver_eq {e : EntityId} (has : session.heap.Has (.entity e)) :
    session.receiver e = ((session.layersAbove e).reverse.find? session.isLive).getD e := by
  unfold receiver
  cases layers : (session.layersAbove e).reverse with
  | nil => rfl
  | cons top below =>
    have known : ∀ d ∈ top :: below, session.heap.Has (.entity d) := by
      intro d place
      rw [← layers, List.mem_reverse] at place
      exact has_of_mem_layersAbove sound.heap has place
    dsimp only
    split
    · next rooted =>
      rw [List.find?_cons_of_pos (isLive_of_isRooted rooted)]
      rfl
    · congr 1
      refine List.find?_congr fun d place => ?_
      have counted := sound.count_census_eq_zero_iff (known d place)
      rw [Bool.eq_iff_iff, bne_iff_ne, sound.isLive_iff, Ne, counted]

theorem Sound.receiver_of_upgrade {e d : EntityId} (is : session.upgrade? e = some d) :
    session.receiver e = session.receiver d := by
  obtain ⟨derived, alive⟩ := upgrade?_eq_some_iff.1 is
  have has := sound.heap.has_super (sound.has_of_isLive alive) (sound.super_of_upgrade is)
  rw [sound.receiver_eq has, sound.receiver_eq (sound.has_of_isLive alive),
    layersAbove_of_some sound.heap has derived, List.reverse_cons, List.find?_append,
    List.find?_singleton, if_pos alive]
  cases (session.layersAbove d).reverse.find? session.isLive <;> rfl

theorem Sound.receiver_of_none {e : EntityId} (has : session.heap.Has (.entity e))
    (is : session.upgrade? e = none) : session.receiver e = e := by
  have none : (session.layersAbove e).reverse.find? session.isLive = none := by
    rw [List.find?_eq_none]
    intro d place
    rw [List.mem_reverse] at place
    obtain ⟨next, derived, above⟩ := (mem_layersAbove sound.heap has).1 place
    have gone : session.isLive next = false := by
      simpa [upgrade?, derived, Option.filter] using is
    rcases above with rfl | above
    · simp [gone]
    · simp [sound.gone_above (sound.heap.has_derived has derived) gone above]
  rw [sound.receiver_eq has, none]
  rfl

theorem Sound.upgrade?_congr {other : Session} {e : EntityId}
    (has : session.heap.Has (.entity e))
    (link : (other.heap.entity e).derived = (session.heap.entity e).derived)
    (live : ∀ d, session.heap.Has (.entity d) → other.isLive d = session.isLive d) :
    other.upgrade? e = session.upgrade? e := by
  rw [upgrade?, upgrade?, link]
  cases is : (session.heap.entity e).derived with
  | none => rfl
  | some d => rw [Option.filter_some, Option.filter_some, live d (sound.heap.has_derived has is)]

/-- Who receives depends on nothing but the links and on who is alive. -/
theorem Sound.receiver_congr {other : Session} (soundOther : other.Sound)
    (entities : other.heap.entities = session.heap.entities)
    (live : ∀ e, session.heap.Has (.entity e) → other.isLive e = session.isLive e) {e : EntityId}
    (has : session.heap.Has (.entity e)) : other.receiver e = session.receiver e := by
  refine sound.heap.layers_induction (motive := fun e => other.receiver e = session.receiver e)
    (fun e has ih => ?_) has
  have hasOther : other.heap.Has (.entity e) := by simpa only [Heap.Has, entities] using has
  have same : other.upgrade? e = session.upgrade? e :=
    sound.upgrade?_congr has (by simp only [Heap.entity, entities]) live
  cases is : session.upgrade? e with
  | some d =>
    rw [soundOther.receiver_of_upgrade (same.trans is), sound.receiver_of_upgrade is,
      ih d (upgrade?_eq_some_iff.1 is).1]
  | none =>
    rw [soundOther.receiver_of_none hasOther (same.trans is), sound.receiver_of_none has is]

/-- Following links from an entity for as long as they lead to one alive ends at the receiver. -/
theorem Sound.reaches_receiver {e : EntityId} (has : session.heap.Has (.entity e)) :
    Relation.ReflTransGen (fun base d => session.upgrade? base = some d) e (session.receiver e) ∧
      session.upgrade? (session.receiver e) = none := by
  refine sound.heap.layers_induction (motive := fun e =>
    Relation.ReflTransGen (fun base d => session.upgrade? base = some d) e (session.receiver e) ∧
      session.upgrade? (session.receiver e) = none) (fun e has ih => ?_) has
  cases is : session.upgrade? e with
  | none =>
    rw [sound.receiver_of_none has is]
    exact ⟨.refl, is⟩
  | some d =>
    obtain ⟨path, last⟩ := ih d (upgrade?_eq_some_iff.1 is).1
    rw [sound.receiver_of_upgrade is]
    exact ⟨.head is path, last⟩

theorem Sound.builtOn_of_upgrades {e top : EntityId}
    (path : Relation.ReflTransGen (fun base d => session.upgrade? base = some d) e top) :
    session.heap.BuiltOn top e := by
  induction path with
  | refl => exact .refl
  | tail _ is ih => exact .head (sound.super_of_upgrade is) ih

theorem Sound.receiver_builtOn {e : EntityId} (has : session.heap.Has (.entity e)) :
    session.heap.BuiltOn (session.receiver e) e :=
  sound.builtOn_of_upgrades (sound.reaches_receiver has).1

theorem Sound.isLive_receiver {e : EntityId} (alive : session.isLive e = true) :
    session.isLive (session.receiver e) = true := by
  obtain ⟨path, _⟩ := sound.reaches_receiver (sound.has_of_isLive alive)
  rcases path.cases_tail with same | ⟨_, _, is⟩
  · rw [same]
    exact alive
  · exact (upgrade?_eq_some_iff.1 is).2

theorem Sound.receiver_of_builtOn {d base : EntityId} (on : session.heap.BuiltOn d base)
    (alive : session.isLive d = true) : session.receiver base = session.receiver d := by
  induction on using Relation.ReflTransGen.head_induction_on with
  | refl => rfl
  | head is _ ih =>
    obtain ⟨below, up⟩ := sound.upgrade_of_super alive is
    rw [ih below, sound.receiver_of_upgrade up]

theorem Sound.isLive_of_builtOn {d base : EntityId} (on : session.heap.BuiltOn d base)
    (alive : session.isLive d = true) : session.isLive base = true := by
  induction on using Relation.ReflTransGen.head_induction_on with
  | refl => exact alive
  | head is _ ih => exact ih (sound.upgrade_of_super alive is).1

/-! ## Whole chains -/

omit sound in
theorem exists_root {heap : Heap} (sound : heap.Sound) {e : EntityId} (has : heap.Has (.entity e)) :
    ∃ root, (heap.entity root).super = none ∧ heap.BuiltOn e root := by
  refine sound.super_induction
    (motive := fun e => ∃ root, (heap.entity root).super = none ∧ heap.BuiltOn e root)
    (fun e _ ih => ?_) has
  cases is : (heap.entity e).super with
  | none => exact ⟨e, is, .refl⟩
  | some base =>
    obtain ⟨root, last, on⟩ := ih base is
    exact ⟨root, last, .head is on⟩

theorem Sound.mem_layers_of_derived {e base d : EntityId} (has : session.heap.Has (.entity e))
    (place : base ∈ e :: session.layersAbove e)
    (is : (session.heap.entity base).derived = some d) : d ∈ session.layersAbove e := by
  revert place
  refine sound.heap.layers_induction (motive := fun e =>
    base ∈ e :: session.layersAbove e → d ∈ session.layersAbove e) (fun e has ih place => ?_) has
  rcases List.mem_cons.1 place with rfl | above
  · rw [layersAbove_of_some sound.heap has is]
    exact List.mem_cons_self
  · obtain ⟨next, derived, there⟩ := (mem_layersAbove sound.heap has).1 above
    rw [layersAbove_of_some sound.heap has derived]
    exact List.mem_cons_of_mem _ (ih next derived (List.mem_cons.2 there))

theorem Sound.mem_layers_iff {e d : EntityId} (has : session.heap.Has (.entity e))
    (dHas : session.heap.Has (.entity d)) :
    d ∈ e :: session.layersAbove e ↔ session.heap.BuiltOn d e := by
  constructor
  · refine sound.heap.layers_induction (motive := fun e =>
      d ∈ e :: session.layersAbove e → session.heap.BuiltOn d e) (fun e has ih place => ?_) has
    rcases List.mem_cons.1 place with rfl | above
    · exact .refl
    · obtain ⟨next, derived, there⟩ := (mem_layersAbove sound.heap has).1 above
      exact (ih next derived (List.mem_cons.2 there)).tail
        (sound.heap.superOfDerived e next has derived).1
  · intro on
    induction on using Relation.ReflTransGen.head_induction_on with
    | refl => exact List.mem_cons_self
    | head is _ ih =>
      have below := ih (sound.heap.has_super dHas is)
      exact List.mem_cons_of_mem _
        (sound.mem_layers_of_derived has below (sound.heap.derivedOfSuper _ _ dHas is))

/-- The layers alive are the first ones, and those above them are gone. -/
theorem Sound.layers_split {e : EntityId} (has : session.heap.Has (.entity e)) :
    ∃ alive gone, e :: session.layersAbove e = alive ++ gone ∧
      (∀ d ∈ alive, session.isLive d = true) ∧ ∀ d ∈ gone, session.isLive d = false := by
  refine sound.heap.layers_induction (motive := fun e =>
    ∃ alive gone, e :: session.layersAbove e = alive ++ gone ∧
      (∀ d ∈ alive, session.isLive d = true) ∧ ∀ d ∈ gone, session.isLive d = false)
    (fun e has ih => ?_) has
  cases here : session.isLive e with
  | false =>
    refine ⟨[], e :: session.layersAbove e, rfl, List.forall_mem_nil _, ?_⟩
    exact List.forall_mem_cons.2 ⟨here, fun d above => sound.gone_above has here above⟩
  | true =>
    cases is : (session.heap.entity e).derived with
    | none =>
      refine ⟨[e], [], ?_, List.forall_mem_singleton.2 here, List.forall_mem_nil _⟩
      rw [layersAbove_of_none is]
      rfl
    | some d =>
      obtain ⟨alive, gone, split, all, none⟩ := ih d is
      refine ⟨e :: alive, gone, ?_, List.forall_mem_cons.2 ⟨here, all⟩, none⟩
      rw [layersAbove_of_some sound.heap has is, split]
      rfl

end Session

end Delegation
