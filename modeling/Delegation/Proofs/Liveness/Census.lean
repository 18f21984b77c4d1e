import Mathlib.Data.List.Nodup
import Delegation.Proofs.Liveness

/-!
# The census is right

The census takes owners away from objects one by one, and an object whose last owner goes waits
until what it owns itself is let go. At any moment a ledger tells what the counts have to be: the
roots count, and so do the objects that have not been let go. Waiting are exactly those among them
that nothing counts for. When nobody waits any more, whoever has been let go is released, and
whoever has not is owned by a root or by another that has not; so the objects without a count are
the released ones.
-/

namespace Delegation

namespace Census

/-! ## Counting -/

/-- The census has a count for every object of the heap. -/
structure Fits (census : Census) (heap : Heap) : Prop where
  scopes : census.scopes.size = heap.scopes.size
  entities : census.entities.size = heap.entities.size
  bindings : census.bindings.size = heap.bindings.size

variable {heap : Heap} {census : Census}

theorem fits_zero (heap : Heap) : (zero heap).Fits heap := by
  refine ⟨?_, ?_, ?_⟩ <;> exact Array.size_replicate

theorem Fits.modify (fits : census.Fits heap) (f : Nat → Nat) (x : Node) :
    (census.modify f x).Fits heap := by
  obtain ⟨scopes, entities, bindings⟩ := fits
  cases x with
  | scope => exact ⟨Array.size_modify.trans scopes, entities, bindings⟩
  | entity => exact ⟨scopes, Array.size_modify.trans entities, bindings⟩
  | binding => exact ⟨scopes, entities, Array.size_modify.trans bindings⟩

theorem getD_modify {counts : Array Nat} {i : Nat} (f : Nat → Nat) (j : Nat)
    (below : j < counts.size) :
    (counts.modify i f).getD j 0 = if i = j then f (counts.getD j 0) else counts.getD j 0 := by
  simp only [Array.getD_eq_getD_getElem?, Array.getElem?_modify]
  split <;> simp [below]

theorem count_modify (fits : census.Fits heap) {y : Node} (has : heap.Has y) (f : Nat → Nat)
    (x : Node) :
    (census.modify f x).count y = if x = y then f (census.count y) else census.count y := by
  obtain ⟨scopes, entities, bindings⟩ := fits
  cases x with
  | scope s =>
    cases y with
    | scope t =>
      obtain ⟨i⟩ := s
      obtain ⟨j⟩ := t
      have counts := getD_modify (i := i) f j (Nat.lt_of_lt_of_eq has scopes.symm)
      simp only [Node.scope.injEq, ScopeId.mk.injEq]
      exact counts
    | entity | binding => rfl
  | entity s =>
    cases y with
    | entity t =>
      obtain ⟨i⟩ := s
      obtain ⟨j⟩ := t
      have counts := getD_modify (i := i) f j (Nat.lt_of_lt_of_eq has entities.symm)
      simp only [Node.entity.injEq, EntityId.mk.injEq]
      exact counts
    | scope | binding => rfl
  | binding s =>
    cases y with
    | binding t =>
      obtain ⟨i⟩ := s
      obtain ⟨j⟩ := t
      have counts := getD_modify (i := i) f j (Nat.lt_of_lt_of_eq has bindings.symm)
      simp only [Node.binding.injEq, BindingId.mk.injEq]
      exact counts
    | scope | entity => rfl

theorem count_zero (heap : Heap) (x : Node) : (zero heap).count x = 0 := by
  cases x <;> simp [zero, count, Array.getD_eq_getD_getElem?, Array.getElem?_replicate] <;>
    split <;> rfl

theorem Fits.addAll (fits : census.Fits heap) (xs : List Node) : (census.addAll xs).Fits heap := by
  induction xs generalizing census with
  | nil => exact fits
  | cons x xs ih => exact ih (fits.modify (· + 1) x)

theorem count_addAll (fits : census.Fits heap) {y : Node} (has : heap.Has y) (xs : List Node) :
    (census.addAll xs).count y = census.count y + xs.count y := by
  induction xs generalizing census with
  | nil => rfl
  | cons x xs ih =>
    have rest := ih (fits.modify (· + 1) x)
    rw [count_modify fits has] at rest
    rw [List.count_cons]
    apply rest.trans
    by_cases same : x = y
    · rw [if_pos same, if_pos (beq_iff_eq.2 same)]
      omega
    · rw [if_neg same, if_neg (by simpa using same)]
      omega

theorem count_foldl_addAll (fits : census.Fits heap) {y : Node} (has : heap.Has y)
    (owned : Node → List Node) (xs : List Node) :
    (xs.foldl (fun census x => census.addAll (owned x)) census).count y =
      census.count y + (xs.flatMap owned).count y := by
  induction xs generalizing census with
  | nil => rfl
  | cons x xs ih =>
    have rest := ih (fits.addAll (owned x))
    rw [count_addAll fits has] at rest
    rw [List.flatMap_cons, List.count_append, ← Nat.add_assoc]
    exact rest

theorem fits_foldl_addAll (fits : census.Fits heap) (owned : Node → List Node) (xs : List Node) :
    (xs.foldl (fun census x => census.addAll (owned x)) census).Fits heap := by
  induction xs generalizing census with
  | nil => exact fits
  | cons x xs ih => exact ih (fits.addAll (owned x))

end Census

namespace Session

/-- How often an object is owned, by roots and by the objects that have not been let go. -/
def tally (session : Session) (live : List Node) (x : Node) : Nat :=
  session.roots.count x + (live.flatMap session.heap.owned).count x

/-- The first counts are those in which nothing has been let go. -/
theorem count_owners (session : Session) {x : Node} (has : session.heap.Has x) :
    (Census.owners session).count x = session.tally session.heap.nodes x := by
  have zero := Census.fits_zero session.heap
  rw [Census.owners, Census.count_foldl_addAll (zero.addAll _) has, Census.count_addAll zero has,
    Census.count_zero, Nat.zero_add]
  rfl

theorem fits_owners (session : Session) : (Census.owners session).Fits session.heap :=
  Census.fits_foldl_addAll ((Census.fits_zero session.heap).addAll _) _ _

theorem tally_erase (session : Session) {live : List Node} {x : Node} (place : x ∈ live)
    (y : Node) :
    session.tally live y = session.tally (live.erase x) y + (session.heap.owned x).count y := by
  have counts := ((List.perm_cons_erase place).flatMap_right session.heap.owned).count_eq y
  rw [List.flatMap_cons, List.count_append] at counts
  unfold tally
  omega

/-- Who is owned by nothing but released objects is released. -/
theorem Released.of_tally {session : Session} {live : List Node} {x : Node}
    (others : ∀ y, y ∉ live → session.Released y) (none : session.tally live x = 0) :
    session.Released x := by
  obtain ⟨unrooted, unowned⟩ := Nat.add_eq_zero_iff.1 none
  refine .intro x (List.count_eq_zero.1 unrooted) fun y owned => others y fun place => ?_
  exact List.count_eq_zero.1 unowned (List.mem_flatMap.2 ⟨y, place, owned⟩)

end Session

/-! ## Letting go -/

/-- What the counts have to be, and who waits: those that have not been let go and that nothing
counts for. -/
structure Ledger (heap : Heap) (live : List Node) (tally : Node → Nat) (pending : List Node)
    (census : Census) : Prop where
  fits : census.Fits heap
  counts : ∀ x, heap.Has x → census.count x = tally x
  distinct : pending.Nodup
  waiting : ∀ x, x ∈ pending ↔ x ∈ live ∧ tally x = 0
  gone : ∀ x, heap.Has x → x ∉ live → tally x = 0

namespace Ledger

variable {heap : Heap} {live : List Node} {pending : List Node} {census : Census}

theorem disown_one {tally tally' : Node → Nat} (ledger : Ledger heap live tally pending census)
    {x : Node} (has : heap.Has x) (one : tally x = tally' x + 1)
    (others : ∀ y, y ≠ x → tally y = tally' y) :
    Ledger heap live tally'
      (if (census.modify (· - 1) x).count x = 0 then x :: pending else pending)
      (census.modify (· - 1) x) := by
  have listed : x ∈ live := by
    apply Classical.byContradiction
    intro absent
    have none := ledger.gone x has absent
    omega
  have idle : x ∉ pending := fun place => by
    have none := ((ledger.waiting x).1 place).2
    omega
  have counts : ∀ y, heap.Has y → (census.modify (· - 1) x).count y = tally' y := by
    intro y hasY
    rw [Census.count_modify ledger.fits hasY, ledger.counts y hasY]
    by_cases same : x = y
    · subst same
      rw [if_pos rfl, one]
      rfl
    · rw [if_neg same, others y (Ne.symm same)]
  have waiting : ∀ y, y ≠ x → (y ∈ pending ↔ y ∈ live ∧ tally' y = 0) := by
    intro y apart
    rw [ledger.waiting y, others y apart]
  refine ⟨ledger.fits.modify _ x, counts, ?_, fun y => ?_, fun y hasY absent => ?_⟩
  · split
    · exact List.nodup_cons.2 ⟨idle, ledger.distinct⟩
    · exact ledger.distinct
  · rw [counts x has]
    by_cases same : y = x
    · subst same
      by_cases last : tally' y = 0
      · simp [last, listed]
      · simp [last, idle]
    · split
      · rw [List.mem_cons, or_iff_right same]
        exact waiting y same
      · exact waiting y same
  · have none := ledger.gone y hasY absent
    by_cases same : y = x
    · exact absurd listed (same ▸ absent)
    · rw [← others y same]
      exact none

theorem disown {tally : Node → Nat} {xs : List Node} (known : heap.HasAll xs)
    (ledger : Ledger heap live (fun y => tally y + xs.count y) pending census) :
    Ledger heap live tally (census.disown pending xs).2 (census.disown pending xs).1 := by
  induction xs generalizing pending census with
  | nil => exact ledger
  | cons x xs ih =>
    rw [Heap.hasAll_cons] at known
    refine ih known.2 (ledger.disown_one known.1 ?_ fun y apart => ?_)
    · rw [List.count_cons_self, Nat.add_assoc]
    · rw [List.count_cons_of_ne (Ne.symm apart)]

theorem erase {tally : Node → Nat} {x : Node} (distinct : live.Nodup)
    (ledger : Ledger heap live tally (x :: pending) census) :
    Ledger heap (live.erase x) tally pending census where
  fits := ledger.fits
  counts := ledger.counts
  distinct := (List.nodup_cons.1 ledger.distinct).2
  waiting y := by
    have idle := (List.nodup_cons.1 ledger.distinct).1
    have before := ledger.waiting y
    rw [List.mem_cons] at before
    rw [distinct.mem_erase_iff]
    by_cases same : y = x
    · subst same
      simp [idle]
    · simpa [same] using before
  gone y has absent := by
    by_cases same : y = x
    · subst same
      exact ((ledger.waiting y).1 List.mem_cons_self).2
    · exact ledger.gone y has fun place => absent ((List.mem_erase_of_ne same).2 place)

end Ledger

namespace Session

variable {session : Session}

/-- Letting go comes to an end at which nobody waits, and whoever has been let go is released. -/
theorem Sound.release_ends (sound : session.Sound) {fuel : Nat} {live pending : List Node}
    {census : Census} (distinct : live.Nodup) (known : session.heap.HasAll live)
    (enough : live.length ≤ fuel) (released : ∀ y, y ∉ live → session.Released y)
    (ledger : Ledger session.heap live (session.tally live) pending census) :
    ∃ live', (∀ y, y ∉ live' → session.Released y) ∧
      Ledger session.heap live' (session.tally live') []
        (Census.release session.heap fuel pending census) := by
  induction fuel generalizing live pending census with
  | zero =>
    have none : live = [] := List.eq_nil_of_length_eq_zero (Nat.le_zero.1 enough)
    subst none
    have idle : pending = [] := List.eq_nil_iff_forall_not_mem.2 fun x place =>
      List.not_mem_nil ((ledger.waiting x).1 place).1
    subst idle
    exact ⟨[], released, ledger⟩
  | succ fuel ih =>
    cases pending with
    | nil => exact ⟨live, released, ledger⟩
    | cons x pending =>
      obtain ⟨place, none⟩ := (ledger.waiting x).1 List.mem_cons_self
      have owns : session.heap.HasAll (session.heap.owned x) := fun y owned =>
        sound.has_owned (known x place) owned
      have after : Ledger session.heap (live.erase x)
          (fun y => session.tally (live.erase x) y + (session.heap.owned x).count y) pending
          census := by
        rw [← funext (session.tally_erase place)]
        exact ledger.erase distinct
      refine ih (distinct.erase x) (fun y listed => known y (List.mem_of_mem_erase listed)) ?_ ?_
        (after.disown owns)
      · rw [List.length_erase_of_mem place]
        omega
      · intro y absent
        by_cases same : y = x
        · subst same
          exact .of_tally released none
        · exact released y fun listed => absent ((List.mem_erase_of_ne same).2 listed)

theorem mem_nodes {heap : Heap} {x : Node} : x ∈ heap.nodes ↔ heap.Has x := by
  cases x with
  | scope s =>
    obtain ⟨i⟩ := s
    simp [Heap.nodes, Heap.Has]
  | entity e =>
    obtain ⟨i⟩ := e
    simp [Heap.nodes, Heap.Has]
  | binding b =>
    obtain ⟨i⟩ := b
    simp [Heap.nodes, Heap.Has]

theorem nodup_nodes (heap : Heap) : heap.nodes.Nodup := by
  have scopes : ((List.range heap.scopes.size).map fun i => Node.scope ⟨i⟩).Nodup :=
    List.nodup_range.map fun i j same => by simpa using same
  have entities : ((List.range heap.entities.size).map fun i => Node.entity ⟨i⟩).Nodup :=
    List.nodup_range.map fun i j same => by simpa using same
  have bindings : ((List.range heap.bindings.size).map fun i => Node.binding ⟨i⟩).Nodup :=
    List.nodup_range.map fun i j same => by simpa using same
  refine List.nodup_append.2 ⟨List.nodup_append.2 ⟨scopes, entities, ?_⟩, bindings, ?_⟩
  · simp
  · rintro x place _ bound rfl
    obtain ⟨i, _, rfl⟩ := List.mem_map.1 bound
    simp at place

theorem Sound.census_ends (sound : session.Sound) :
    ∃ live, (∀ y, y ∉ live → session.Released y) ∧
      Ledger session.heap live (session.tally live) [] session.census := by
  refine sound.release_ends (nodup_nodes _) (fun y => mem_nodes.1) (Nat.le_refl _)
    (fun y absent => sound.released_of_not_has fun has => absent (mem_nodes.2 has)) ?_
  refine ⟨session.fits_owners, fun y => session.count_owners, (nodup_nodes _).filter _, ?_, ?_⟩
  · intro y
    rw [List.mem_filter, decide_eq_true_iff]
    exact and_congr_right fun place => by rw [session.count_owners (mem_nodes.1 place)]
  · exact fun y has absent => absurd (mem_nodes.2 has) absent

/-- An object of the heap has no count in the census exactly if it is released. -/
theorem Sound.count_census_eq_zero_iff (sound : session.Sound) {x : Node}
    (has : session.heap.Has x) : session.census.count x = 0 ↔ session.Released x := by
  obtain ⟨live, released, ledger⟩ := sound.census_ends
  rw [ledger.counts x has]
  constructor
  · intro none
    apply released x
    intro place
    exact List.not_mem_nil ((ledger.waiting x).2 ⟨place, none⟩)
  · intro gone
    apply ledger.gone x has
    clear has
    -- Whoever has not been let go has an owner that has not; a released object has none left.
    induction gone with
    | intro x unrooted _ ih =>
      intro place
      refine List.not_mem_nil ((ledger.waiting x).2 ⟨place, ?_⟩)
      refine Nat.add_eq_zero_iff.2 ⟨List.count_eq_zero.2 unrooted, ?_⟩
      apply List.count_eq_zero.2
      intro listed
      obtain ⟨y, there, owned⟩ := List.mem_flatMap.1 listed
      exact ih y owned there

theorem isLive_of_isRooted {e : EntityId} (rooted : session.isRooted (.entity e) = true) :
    session.isLive e = true := by rw [isLive, rooted, Bool.true_or, Bool.true_or]

theorem Sound.has_of_isLive (sound : session.Sound) {e : EntityId}
    (alive : session.isLive e = true) :
    session.heap.Has (.entity e) := by
  apply Classical.byContradiction
  intro absent
  obtain ⟨live, _, ledger⟩ := sound.census_ends
  have missing : session.heap.entity e = default := dif_neg absent
  have alone : session.layersAbove e = [] := Session.layersAbove_of_none (by rw [missing]; rfl)
  have uncounted : session.census.count (.entity e) = 0 :=
    dif_neg fun below => absent (Nat.lt_of_lt_of_eq below ledger.fits.entities)
  unfold isLive at alive
  simp only [alone, uncounted, List.any_nil, Bool.or_false, bne_self_eq_false, isRooted_iff]
    at alive
  exact absent (sound.toGrounded.roots _ alive)

/-- An entity is alive exactly if it has not been released. -/
theorem Sound.isLive_iff (sound : session.Sound) {e : EntityId} :
    session.isLive e = true ↔ ¬session.Released (.entity e) := by
  constructor
  · intro alive released
    have has := sound.has_of_isLive alive
    have counted := sound.count_census_eq_zero_iff has
    simp only [isLive, Bool.or_eq_true, isRooted_iff, List.any_eq_true, bne_iff_ne] at alive
    rcases alive with (rooted | ⟨d, above, rooted⟩) | count
    · exact released.not_rooted rooted
    · exact (released.of_mem_layersAbove sound.heap has above).not_rooted rooted
    · exact count (counted.2 released)
  · intro alive
    have has : session.heap.Has (.entity e) := Classical.byContradiction fun absent =>
      alive (sound.released_of_not_has absent)
    have count := mt (sound.count_census_eq_zero_iff has).1 alive
    simp only [isLive, Bool.or_eq_true, bne_iff_ne]
    exact .inr count

end Session

end Delegation
