import Delegation.Proofs.Answering
import Delegation.Proofs.Declarations

/-!
# Letting go of layers

An entity lives for as long as a layer built on it is held by something else: by a variable or a
frame, by a cell of a scope that is alive, by a method that has been fetched, or as the type of an
entity outside. Once nothing of this kind is left for an entity and the layers on top of it, all of
them are gone, and the layer below is the last one again.

Declarations are nothing of this kind. So whoever holds a table of an entity, or a method as it
stands there, does not hold the entity.
-/

namespace Delegation

variable {s : Session} {e d : EntityId} {b : BindingId}

theorem Heap.BuiltOn.has_above {heap : Heap} (on : heap.BuiltOn d e) (has : heap.Has (.entity e)) :
    heap.Has (.entity d) := by
  rcases Relation.ReflTransGen.cases_head on with rfl | ⟨base, super, _⟩
  · exact has
  · apply Classical.byContradiction
    intro absent
    rw [show heap.entity d = default from dif_neg absent] at super
    cases super

theorem Scope.holds_of_entity_mem_owned {scope : Scope} (owned : .entity d ∈ scope.owned) :
    ∃ entry ∈ scope.cells, .entity d ∈ entry.2.owned := by
  rw [← Cell.mem_ownedByAll]
  unfold Scope.owned at owned
  split at owned
  · exact (List.mem_cons.1 owned).resolve_left (by simp)
  · exact owned

theorem Scope.mem_owned_of_cell {scope : Scope} {entry : String × Cell} {y : Node}
    (listed : entry ∈ scope.cells) (holds : y ∈ entry.2.owned) : y ∈ scope.owned := by
  have cells : y ∈ Cell.ownedByAll scope.cells := Cell.mem_ownedByAll.2 ⟨entry, listed, holds⟩
  unfold Scope.owned
  split
  · exact List.mem_cons_of_mem _ cells
  · exact cells

theorem Entity.mem_owned_of_type {record : Entity} (typed : record.type = some d) :
    .entity d ∈ record.owned := by
  simp [Entity.owned, typed]

theorem Entity.super_or_type_of_mem_owned {record : Entity} (owned : .entity d ∈ record.owned) :
    record.super = some d ∨ record.type = some d := by
  simpa [Entity.owned] using owned

namespace Session

/-! ## What holds an entity -/

/-- A binding came into the heap when something was declared. -/
def MadeByDeclaring (s : Session) (b : BindingId) : Prop :=
  ∃ (before : Session) (e : EntityId) (declaration : Declaration),
    declaration.isPlain = true ∧ ¬before.heap.Has (.binding b) ∧
      ((declaration.declare e).after before).heap.Has (.binding b) ∧
        ((declaration.declare e).after before).Later s

theorem MadeByDeclaring.owned (made : s.MadeByDeclaring b) : s.heap.owned (.binding b) = [] := by
  obtain ⟨before, e, declaration, plain, new, has, later⟩ := made
  have inert := (declaration.inert before e plain).after
  have declared := (inert.heap.made b has).resolve_left new
  rw [Heap.owned, later.heap.grows.binding b has]
  exact declared.owned

/-- An entity is held by something that is neither a declaration nor a layer on top of `e`: by what
is outside the heap, by a cell of a scope that is alive, by a method that has been fetched, or as a
type. -/
inductive HeldOutside (s : Session) (e d : EntityId) : Prop
  | root (owned : .entity d ∈ s.roots)
  | cell {x : ScopeId} {entry : String × Cell} (alive : ¬s.Released (.scope x))
      (listed : entry ∈ (s.heap.scope x).cells) (holds : .entity d ∈ entry.2.owned)
  | binding {b : BindingId} (alive : ¬s.Released (.binding b)) (other : ¬s.MadeByDeclaring b)
      (holds : .entity d ∈ s.heap.owned (.binding b))
  | type {c : EntityId} (alive : ¬s.Released (.entity c)) (outside : ¬s.heap.BuiltOn c e)
      (typed : (s.heap.entity c).type = some d)

theorem HeldOutside.not_released (held : s.HeldOutside e d) : ¬s.Released (.entity d) := by
  intro released
  cases held with
  | root owned => exact released.not_rooted owned
  | @cell x entry alive listed holds =>
    exact alive (released.owned (y := .scope x) (Scope.mem_owned_of_cell listed holds))
  | binding alive _ holds => exact alive (released.owned holds)
  | @type c alive _ typed =>
    exact alive (released.owned (y := .entity c) (Entity.mem_owned_of_type typed))

/-- An entity whose only owners are layers on top of another is not held outside. -/
theorem Sound.not_heldOutside (sound : s.Sound) (unrooted : s.isRooted (.entity d) = false)
    (owners : ∀ y ∈ s.heap.nodes, .entity d ∈ s.heap.owned y →
      ∃ c, y = .entity c ∧ s.heap.BuiltOn c e) : ¬s.HeldOutside e d := by
  have present {y : Node} (alive : ¬s.Released y) : y ∈ s.heap.nodes :=
    mem_nodes.2 (Classical.byContradiction fun absent => alive (sound.released_of_not_has absent))
  intro held
  cases held with
  | root owned =>
    rw [isRooted_iff.2 owned] at unrooted
    cases unrooted
  | cell alive listed holds =>
    obtain ⟨_, is, _⟩ := owners _ (present alive) (Scope.mem_owned_of_cell listed holds)
    cases is
  | binding alive _ holds =>
    obtain ⟨_, is, _⟩ := owners _ (present alive) holds
    cases is
  | type alive outside typed =>
    obtain ⟨_, is, inside⟩ := owners _ (present alive) (Entity.mem_owned_of_type typed)
    cases is
    exact outside inside

theorem Reached.type_older {built : List EntityId} (reached : Reached built s) {c type : EntityId}
    (has : s.heap.Has (.entity c)) (typed : (s.heap.entity c).type = some type) :
    type.index < c.index := by
  induction reached with
  | start => cases typed
  | @build built s t super sort name made _ superKnown typeKnown builds ih =>
    obtain ⟨_, rfl⟩ := buildEntity_eq_ok builds
    dsimp only at has typed
    rw [Heap.entity_addEntity superKnown] at typed
    simp only [Heap.Has, Heap.size_entities_addEntity] at has
    by_cases new : c.index = s.heap.entities.size
    · rw [if_pos new] at typed
      exact new ▸ typeKnown type typed
    · rw [if_neg new] at typed
      refine ih (show c.index < s.heap.entities.size by omega) ?_
      split at typed <;> exact typed
  | @other built s t _ _ same ih =>
    simp only [Heap.Has, Heap.entity, same] at has typed
    exact ih has typed

/-- What nothing holds but layers on top of it is released, if the same is true of those. -/
theorem Reached.released_of_unheld {built : List EntityId} (reached : Reached built s)
    (unheld : ∀ d, s.heap.BuiltOn d e → ¬s.HeldOutside e d) (on : s.heap.BuiltOn d e) :
    s.Released (.entity d) := by
  have sound := reached.sound
  -- Whoever owns a layer from inside the chain is younger, and there is a youngest entity.
  generalize age : s.heap.entities.size - d.index = n
  induction n using Nat.strongRecOn generalizing d with
  | ind n ih =>
    have younger {c : EntityId} (has : s.heap.Has (.entity c)) (above : d.index < c.index)
        (on : s.heap.BuiltOn c e) : s.Released (.entity c) :=
      ih _ (by simp only [Heap.Has] at has; omega) on rfl
    refine .intro _ (fun rooted => unheld d on (.root rooted)) fun y owned => ?_
    by_cases has : s.heap.Has y
    · apply Classical.byContradiction
      intro alive
      cases y with
      | scope x =>
        obtain ⟨entry, listed, holds⟩ := Scope.holds_of_entity_mem_owned owned
        exact unheld d on (.cell alive listed holds)
      | entity c =>
        rcases Entity.super_or_type_of_mem_owned owned with super | typed
        · obtain ⟨_, above⟩ :=
            sound.heap.superOfDerived d c (sound.heap.has_super has super)
              (sound.heap.derivedOfSuper c d has super)
          exact alive (younger has above (.head super on))
        · refine unheld d on (.type alive (fun inside => ?_) typed)
          exact alive (younger has (reached.type_older has typed) inside)
      | binding b =>
        refine unheld d on (.binding alive (fun made => ?_) owned)
        rw [made.owned] at owned
        cases owned
    · cases owned_of_not_has has owned

/-- Declarations never keep anybody alive, nor do they change who receives. When nothing but
declarations and layers on top of it holds an entity, nor any of these layers, they are all gone,
weak references to them lead nowhere, and what the entity was built on is the last layer again. And
whatever is held is alive, as is all it is built on. -/
theorem detachment (reachable : s.Reachable) :
    (∀ declarations : List (EntityId × Declaration),
      (∀ entry ∈ declarations, s.heap.Has (.entity entry.1) ∧ entry.2.isPlain = true) →
        s.Later (s.declaring declarations) ∧
          ∀ e, s.heap.Has (.entity e) → (s.declaring declarations).isLive e = s.isLive e ∧
            (s.declaring declarations).receiver e = s.receiver e) ∧
    (∀ e, s.heap.Has (.entity e) → (∀ d, s.heap.BuiltOn d e → ¬s.HeldOutside e d) →
      (∀ d, s.heap.BuiltOn d e → s.isLive d = false ∧
        EntityQuery.upgrade.answer s [.weak d] = .ok (.value .void)) ∧
      ∀ base, (s.heap.entity e).super = some base → s.isLive base = true →
        s.receiver base = base ∧
          EntityQuery.isMostDerived.answer s [.value (.entity base)] = .ok (.ofBool true)) ∧
    ∀ e d, s.HeldOutside e d → ∀ base, s.heap.BuiltOn d base → s.isLive base = true := by
  have sound := reachable.sound
  refine ⟨fun declarations all => ?_, fun e has unheld => ?_, fun e d held base on => ?_⟩
  · obtain ⟨later, inert⟩ := inert_declaring reachable (fun entry place => (all entry place).1)
      fun entry place => (all entry place).2
    exact ⟨later, fun e has => inert.same_receivers sound (reachable.later later).sound has⟩
  · obtain ⟨_, reached⟩ := reachable
    have gone (d : EntityId) (on : s.heap.BuiltOn d e) : s.isLive d = false := by
      rw [Bool.eq_false_iff]
      exact fun alive => sound.isLive_iff.1 alive (reached.released_of_unheld unheld on)
    refine ⟨fun d on => ⟨gone d on, ?_⟩, fun base super live => ?_⟩
    · simp only [EntityQuery.answer, bind, Except.bind, operand, List.getD_cons_zero, Object.asWeak?,
        gone d on]
      rfl
    · have none : s.upgrade? base = none := by
        rw [upgrade?, sound.heap.derivedOfSuper e base has super, Option.filter, gone e .refl]
        rfl
      have last := sound.receiver_of_none (sound.has_of_isLive live) none
      refine ⟨last, ?_⟩
      simp only [EntityQuery.answer, bind, Except.bind, operand, List.getD_cons_zero,
        Object.asEntity?, last, decide_true]
      rfl
  · exact sound.isLive_of_builtOn on (sound.isLive_iff.2 held.not_released)

/-- Three layers, declarations of all sorts on the middle one, and its tables and one of its methods
in variables when the variables of the two upper layers are dropped. -/
theorem detachment_of_held_tables :
    let entity (name : String) (super : Expr) : Expr :=
      .apply (.command (.entity .entity)) [.str name, super]
    let on (command : EntityCommand) (xs : List Expr) : Expr :=
      .apply (.command (.entity command)) (.var "x" :: xs)
    let table (query : EntityQuery) : Expr := .apply (.query (.entity query)) [.var "x"]
    let s := (Program.runSteps
      [.bind "base" (entity "base" .void), .bind "x" (entity "x" (.var "base")),
        .bind "top" (entity "top" (.var "x")),
        on .method [.str "m", .nullary "m" [.int 1]], on .hook [.str "()", .nullary "()" [.int 2]],
        on .property [.str "p", .str "get", .nullary "p" [.int 3]],
        on .field [.str "f", .str "a", .str "mut"],
        .bind "members" (table .members), .bind "hooks" (table .hooks),
        .bind "fields" (table .fields),
        .bind "m" (.apply (.command (.table .get)) [.var "members", .str "m"]),
        .drop "x", .drop "top"]).after (Program.ready {})
    (∀ y ∈ [.scope (s.heap.entity ⟨1⟩).members, .scope (s.heap.entity ⟨1⟩).hooks,
      .scope (s.heap.entity ⟨1⟩).fields, .binding ⟨0⟩], y ∈ s.roots) ∧
      (s.heap.scope (s.heap.entity ⟨1⟩).members).cell? "m" = some (.constant (.binding ⟨0⟩)) ∧
      s.isLive ⟨1⟩ = false ∧ s.isLive ⟨2⟩ = false ∧ s.isLive ⟨0⟩ = true ∧ s.receiver ⟨0⟩ = ⟨0⟩ := by
  intro entity on table s
  have reachable : s.Reachable := Program.reachable_runSteps {} _
  have sound := reachable.sound
  have layers : s.layersAbove ⟨1⟩ = [⟨2⟩] ∧ (s.heap.entity ⟨1⟩).super = some ⟨0⟩ ∧
      (s.heap.entity ⟨2⟩).super = some ⟨1⟩ ∧ s.heap.entities.size = 3 := by decide +kernel
  have owners : ∀ d ∈ [⟨1⟩, ⟨2⟩], s.isRooted (.entity d) = false ∧
      ∀ y ∈ s.heap.nodes, .entity d ∈ s.heap.owned y → y = .entity ⟨2⟩ := by decide +kernel
  have tables : ∀ y ∈ [.scope (s.heap.entity ⟨1⟩).members, .scope (s.heap.entity ⟨1⟩).hooks,
      .scope (s.heap.entity ⟨1⟩).fields, .binding ⟨0⟩], s.isRooted y = true := by decide +kernel
  have method : (s.heap.scope (s.heap.entity ⟨1⟩).members).cell? "m" =
      some (.constant (.binding ⟨0⟩)) := by decide +kernel
  have base : s.isRooted (.entity ⟨0⟩) = true := by decide +kernel
  obtain ⟨above, onBase, onX, size⟩ := layers
  have has (i : Nat) (below : i < 3) : s.heap.Has (.entity ⟨i⟩) := Nat.lt_of_lt_of_eq below size.symm
  have topOn : s.heap.BuiltOn ⟨2⟩ ⟨1⟩ := .single onX
  obtain ⟨_, apart, held⟩ := detachment reachable
  obtain ⟨gone, last⟩ := apart ⟨1⟩ (has 1 (by decide)) fun d built => by
    have place : d ∈ [⟨1⟩, ⟨2⟩] :=
      above ▸ (sound.mem_layers_iff (has 1 (by decide)) (built.has_above (has 1 (by decide)))).2 built
    obtain ⟨unrooted, alone⟩ := owners d place
    exact sound.not_heldOutside unrooted fun y listed owned => ⟨_, alone y listed owned, topOn⟩
  have live := held ⟨0⟩ ⟨0⟩ (.root (isRooted_iff.1 base)) ⟨0⟩ .refl
  exact ⟨fun y place => isRooted_iff.1 (tables y place), method, (gone ⟨1⟩ .refl).1,
    (gone ⟨2⟩ topOn).1, live, (last ⟨0⟩ onBase live).1⟩

end Session

end Delegation
