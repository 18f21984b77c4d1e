import Mathlib.Data.List.Chain
import Delegation.Proofs.Liveness.Receiver
import Delegation.Proofs.Reachability

/-!
# Redirection

Building an entity links the one it is built on to it, once and for all. Whatever is built, dropped
and run after that, the links from an entity to what it is built on and back agree wherever both
ends are alive. So what is alive of a chain of entities is an unbroken run from the root, and its
last layer receives the messages for all of them.
-/

namespace Delegation

namespace Session

/-- What is alive of the chain of entities on a root: a run of layers, each built on the one before,
with one receiver, which is the only layer that is its own receiver. -/
structure Standing (session : Session) (root : EntityId) (alive : List EntityId)
    (top : EntityId) : Prop where
  bottom : (session.heap.entity root).super = none
  first : alive.head? = some root
  unbroken : alive.IsChain fun base d => (session.heap.entity d).super = some base
  members : ∀ d, d ∈ alive ↔ session.isLive d = true ∧ session.heap.BuiltOn d root
  last : top ∈ alive
  receiver : ∀ d ∈ alive, session.receiver d = top
  mostDerived : ∀ d ∈ alive, session.receiver d = d ↔ d = top

variable {s : Session}

theorem isChain_layers {e : EntityId} (sound : s.heap.Sound) (has : s.heap.Has (.entity e)) :
    (e :: s.layersAbove e).IsChain fun base d => (s.heap.entity d).super = some base := by
  refine sound.layers_induction (motive := fun e =>
    (e :: s.layersAbove e).IsChain fun base d => (s.heap.entity d).super = some base)
    (fun e has ih => ?_) has
  cases is : (s.heap.entity e).derived with
  | none =>
    rw [layersAbove_of_none is]
    exact .singleton e
  | some d =>
    rw [layersAbove_of_some sound has is]
    exact .cons_cons (sound.superOfDerived e d has is).1 (ih d is)

theorem Sound.exists_standing (sound : s.Sound) {e : EntityId} (live : s.isLive e = true) :
    ∃ root alive top, s.Standing root alive top ∧ e ∈ alive := by
  obtain ⟨root, bottom, on⟩ := exists_root sound.heap (sound.has_of_isLive live)
  have rootLive := sound.isLive_of_builtOn on live
  have rootHas := sound.has_of_isLive rootLive
  obtain ⟨alive, gone, split, all, none⟩ := sound.layers_split rootHas
  have members (d : EntityId) : d ∈ alive ↔ s.isLive d = true ∧ s.heap.BuiltOn d root := by
    constructor
    · intro place
      have dLive := all d place
      have listed : d ∈ root :: s.layersAbove root := split ▸ List.mem_append_left gone place
      exact ⟨dLive, (sound.mem_layers_iff rootHas (sound.has_of_isLive dLive)).1 listed⟩
    · rintro ⟨dLive, dOn⟩
      have listed := (sound.mem_layers_iff rootHas (sound.has_of_isLive dLive)).2 dOn
      rw [split, List.mem_append] at listed
      apply listed.resolve_right
      intro above
      rw [none d above] at dLive
      cases dLive
  have receiver (d : EntityId) (place : d ∈ alive) : s.receiver d = s.receiver root :=
    (sound.receiver_of_builtOn ((members d).1 place).2 ((members d).1 place).1).symm
  have top : s.receiver root ∈ alive :=
    (members _).2 ⟨sound.isLive_receiver rootLive, sound.receiver_builtOn rootHas⟩
  refine ⟨root, alive, s.receiver root, ⟨bottom, ?_, ?_, members, top, receiver, ?_⟩,
    (members e).2 ⟨live, on⟩⟩
  · have place := (members root).2 ⟨rootLive, .refl⟩
    cases alive with
    | nil => cases place
    | cons d rest =>
      rw [List.cons_append, List.cons.injEq] at split
      rw [split.1]
      rfl
  · have chain := isChain_layers sound.heap rootHas
    rw [split] at chain
    exact chain.left_of_append
  · intro d place
    rw [receiver d place]
    exact eq_comm

theorem Reached.derived_isSome_iff {built : List EntityId} (reached : Reached built s)
    (base : EntityId) : (s.heap.entity base).derived.isSome = true ↔ base ∈ built := by
  induction reached generalizing base with
  | start =>
    have missing : Program.founded.heap.entity base = default := rfl
    simp [missing, default]
  | @build built s t super type name e before superKnown typeKnown builds ih =>
    obtain ⟨free, rfl⟩ := buildEntity_eq_ok builds
    have known (b : EntityId) (is : super = some b) : b.index ≠ s.heap.entities.size :=
      Nat.ne_of_lt (superKnown b is)
    dsimp only
    rw [Heap.entity_addEntity superKnown, List.mem_append, ← ih base, Option.mem_toList]
    by_cases new : base.index = s.heap.entities.size
    · have missing : s.heap.entity base = default := dif_neg (by omega)
      have apart : super ≠ some base := fun is => known base is new
      simp [new, missing, apart, Heap.freshEntity, default]
    · by_cases is : super = some base
      · simp [new, is]
      · simp [new, is]
  | @other built s t _ _ same ih =>
    have entity : t.heap.entity base = s.heap.entity base := by simp only [Heap.entity, same]
    rw [entity]
    exact ih base

/-- Links between entities that are alive agree in both directions; what is alive of a chain has one
receiver, which following the links ends at; and an entity can be built on exactly if none has been
before. -/
theorem redirection {built : List EntityId} (reached : Reached built s) :
    (∀ d base, s.isLive d = true → (s.heap.entity d).super = some base →
      s.isLive base = true ∧ s.upgrade? base = some d) ∧
    (∀ base d, s.upgrade? base = some d → (s.heap.entity d).super = some base) ∧
    (∀ base d d', s.isLive d = true → (s.heap.entity d).super = some base →
      s.isLive d' = true → (s.heap.entity d').super = some base → d = d') ∧
    (∀ e, s.isLive e = true → ∃ root alive top, s.Standing root alive top ∧ e ∈ alive) ∧
    (∀ e, s.isLive e = true →
      Relation.ReflTransGen (fun base d => s.upgrade? base = some d) e (s.receiver e) ∧
        s.upgrade? (s.receiver e) = none) ∧
    ∀ base type name,
      (base ∈ built → buildEntity (some base) type name s =
        .error (.failure (.ofCause (.alreadyDerived (s.heap.entity base).name))) s) ∧
      (base ∉ built → ∃ d t, buildEntity (some base) type name s = .ok d t) := by
  have sound := reached.sound
  refine ⟨fun d base => sound.upgrade_of_super, fun base d => sound.super_of_upgrade, ?_,
    fun e => sound.exists_standing, fun e live => sound.reaches_receiver (sound.has_of_isLive live),
    fun base type name => ⟨fun before => ?_, fun never => ?_⟩⟩
  · intro base d d' live is live' is'
    have up := (sound.upgrade_of_super live is).2
    rw [(sound.upgrade_of_super live' is').2, Option.some.injEq] at up
    exact up.symm
  · obtain ⟨d, taken⟩ := Option.isSome_iff_exists.1 ((reached.derived_isSome_iff base).2 before)
    exact buildEntity_of_taken taken type name
  · have free : ∀ b ∈ some base, (s.heap.entity b).derived = none := by
      rintro _ ⟨⟩
      exact Option.not_isSome_iff_eq_none.1 (mt (reached.derived_isSome_iff base).1 never)
    exact ⟨_, _, buildEntity_of_free free type name⟩

/-- Two layers of which a program only holds the upper one. -/
theorem redirection_of_two_layers :
    let s := (Program.runSteps
      [.bind "a" (.apply (.command (.entity .entity)) [.str "A"]),
        .bind "b" (.apply (.command (.entity .entity)) [.str "B", .var "a"]),
        .drop "a"]).after (Program.ready {})
    ∃ built, Reached built s ∧ s.isLive ⟨0⟩ = true ∧
      ∃ root alive top, s.Standing root alive top ∧ ⟨0⟩ ∈ alive := by
  obtain ⟨built, reached⟩ := Program.reachable_runSteps {}
    [.bind "a" (.apply (.command (.entity .entity)) [.str "A"]),
      .bind "b" (.apply (.command (.entity .entity)) [.str "B", .var "a"]),
      .drop "a"]
  have live : ((Program.runSteps
      [.bind "a" (.apply (.command (.entity .entity)) [.str "A"]),
        .bind "b" (.apply (.command (.entity .entity)) [.str "B", .var "a"]),
        .drop "a"]).after (Program.ready {})).isLive ⟨0⟩ = true := by decide +kernel
  exact ⟨built, reached, live, (redirection reached).2.2.2.1 ⟨0⟩ live⟩

end Session

end Delegation
