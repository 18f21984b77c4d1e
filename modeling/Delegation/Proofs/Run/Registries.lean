import Delegation.Registry.Construction
import Delegation.Proofs.Run.Calls

/-!
# Registries run

Registries are built from scopes and entities, and objects are made from them, in runs; so are the
methods of the root protocol answered.
-/

namespace Delegation

open Delegation.Action

variable {raw : Bool} {s : Session} {run : Runner}

theorem has_none {heap : Heap} : ∀ e ∈ (none : Option EntityId), heap.Has (.entity e) := by simp

theorem has_some {heap : Heap} {e : EntityId} (has : heap.Has (.entity e)) :
    ∀ d ∈ some e, heap.Has (.entity d) := by simpa using has

namespace Registry

theorem owned_eq (registry : Registry) :
    registry.owned = .scope registry.scope :: registry.types.map fun entry => .entity entry.2 := rfl

theorem runs_start : Runs raw s start Registry.owned := by
  have admitted : s.heap.Admits (.root .identifier) := ⟨⟨none, rfl⟩, nofun, .nil, nofun⟩
  exact (runs_newScope admitted).map fun _ => List.Subset.refl _

theorem runs_register (registry : Registry) (known : s.heap.HasAll registry.owned) (name : String)
    {v : Value} (valueKnown : s.heap.HasAll v.owned) :
    Runs raw s (registry.register name v) fun _ => [] :=
  runs_declare (Heap.hasAll_cons.1 known).1 valueKnown

theorem runs_registerType (fit : s.Fit raw) (registry : Registry)
    (known : s.heap.HasAll registry.owned) {type : EntityId} (has : s.heap.Has (.entity type)) :
    Runs raw s (registry.registerType type) Registry.owned := by
  have typeKnown : s.heap.HasAll (Value.entity type).owned :=
    Heap.hasAll_cons.2 ⟨has, Heap.hasAll_nil _⟩
  refine runs_get_bind ((registry.runs_register known _ typeKnown).bind fit fun t _ ran _ _ => ?_)
  refine runs_pure (ran.known fit ?_)
  rw [owned_eq] at known ⊢
  rw [List.map_append, ← List.cons_append, Heap.hasAll_append]
  exact ⟨known, typeKnown⟩

theorem runs_finish (registry : Registry) (fit : s.Fit raw) (known : s.heap.HasAll registry.owned) :
    Runs raw s registry.finish Registry.owned :=
  (runs_close (Heap.hasAll_cons.1 known).1).bind fit fun _ _ ran _ _ =>
    runs_pure (ran.known fit known)

theorem runs_empty (fit : s.Fit raw) : Runs raw s empty Registry.owned :=
  runs_start.bind fit fun _ registry _ fit known => registry.runs_finish fit known

theorem runs_registerTypes (fit : s.Fit raw) (registry : Registry)
    (known : s.heap.HasAll registry.owned) {type : EntityId} (has : s.heap.Has (.entity type))
    (names : List String) : Runs raw s (registry.registerTypes type names) Registry.owned := by
  induction names generalizing s registry with
  | nil => exact runs_pure known
  | cons name rest ih =>
    refine (runs_buildEntity name has_none (has_some has)).bind fit
      fun t made ran fitT madeKnown => ?_
    have knownT := ran.known fit known
    refine (registry.runs_registerType fitT knownT (Heap.hasAll_cons.1 madeKnown).1).bind fitT
      fun u registry' ran' fitU known' => ?_
    exact ih fitU registry' known' (ran'.has fitT (ran.has fit has))

theorem runs_finishCore (registry : Registry) (fit : s.Fit raw)
    (known : s.heap.HasAll registry.owned) :
    Runs raw s registry.finishCore Registry.owned := by
  apply (runs_buildEntity "Type" has_none has_none).bind fit
  intro u type ran fitU typeKnown
  have has := (Heap.hasAll_cons.1 typeKnown).1
  refine (registry.runs_registerType fitU (ran.known fit known) has).bind fitU
    fun v registry' ranV fitV known' => ?_
  refine (runs_registerTypes fitV registry' known' (ranV.has fitU has) _).bind fitV
    fun w registry'' _ fitW known'' => ?_
  exact runs_finish _ fitW known''

theorem runs_bootstrap (fit : s.Fit raw) : Runs raw s bootstrap Registry.owned :=
  runs_start.bind fit fun _ registry _ fitT known => registry.runs_finishCore fitT known

theorem runs_ofConfig (fit : s.Fit raw) (config : Config) :
    Runs raw s (ofConfig config) Registry.owned := by
  unfold ofConfig
  split
  · exact runs_bootstrap fit
  · exact runs_empty fit

theorem runs_declareMethods (fit : s.Fit raw) {e : EntityId} (has : s.heap.Has (.entity e))
    (methods : List (String × Callable)) : Runs raw s (declareMethods e methods) fun _ => [] := by
  induction methods generalizing s with
  | nil => exact runs_pure (Heap.hasAll_nil _)
  | cons entry rest ih =>
    exact (runs_declareMethod fit has entry.1 entry.2).bind fit fun _ _ ran fitT _ =>
      ih fitT (ran.has fit has)

theorem runs_instantiateRoot (fit : s.Fit raw) (registry : Registry)
    (known : s.heap.HasAll registry.owned) :
    Runs raw s registry.instantiateRoot fun e => [.entity e] := by
  have typeKnown : ∀ t ∈ registry.type? "Object", s.heap.Has (.entity t) :=
    fun _ is => Registry.has_type known is
  apply (runs_buildEntity "Object" has_none typeKnown).bind fit
  intro t root _ fitT rootKnown
  refine (runs_declareMethods fitT (Heap.hasAll_cons.1 rootKnown).1 _).bind fitT
    fun _ _ ran _ _ => ?_
  exact runs_pure (ran.known fitT rootKnown)

theorem runs_buildLayers (fit : s.Fit raw) {base : EntityId} (has : s.heap.Has (.entity base))
    {types : List EntityId} (known : ∀ type ∈ types, s.heap.Has (.entity type)) :
    Runs raw s (buildLayers base types) fun layers => layers.map .entity := by
  induction types generalizing s base with
  | nil => exact runs_pure (Heap.hasAll_nil _)
  | cons type rest ih =>
    rw [List.forall_mem_cons] at known
    refine runs_get_bind ((runs_buildEntity _ (has_some has) (has_some known.1)).bind fit
      fun t layer ran fitT layerKnown => ?_)
    have layerHas := (Heap.hasAll_cons.1 layerKnown).1
    refine (ih fitT layerHas fun type place => ran.has fit (known.2 type place)).bind fitT
      fun u layers ran' _ layersKnown => ?_
    exact runs_pure (Heap.hasAll_cons.2 ⟨ran'.has fitT layerHas, layersKnown⟩)

theorem runs_instantiateChain (fit : s.Fit raw) (registry : Registry)
    (known : s.heap.HasAll registry.owned) {types : List EntityId}
    (typesKnown : ∀ type ∈ types, s.heap.Has (.entity type)) :
    Runs raw s (registry.instantiateChain types) fun layers => layers.map .entity :=
  (registry.runs_instantiateRoot fit known).bind fit fun _ _ ran fitT rootKnown =>
    runs_buildLayers fitT (Heap.hasAll_cons.1 rootKnown).1 fun type place =>
      ran.has fit (typesKnown type place)

end Registry

/-! ## The root protocol -/

theorem runs_selfEntity (runs : run.Runs raw) (fit : s.Fit raw) :
    Runs raw s (selfEntity run) fun e => [.entity e] := by
  apply (runs_lookup runs fit "self").bind fit
  intro t v _ _ known
  split
  · exact runs_pure known
  · exact runs_fail _

theorem hasAll_ofEntity {heap : Heap} {e : Option EntityId}
    (known : ∀ d ∈ e, heap.Has (.entity d)) :
    heap.HasAll (Value.ofEntity? e).owned := by
  cases e with
  | none => exact Heap.hasAll_nil _
  | some d => exact Heap.hasAll_cons.2 ⟨known d rfl, Heap.hasAll_nil _⟩

theorem runs_answer (runs : run.Runs raw) (fit : s.Fit raw) (method : RootMethod) :
    Runs raw s (method.answer run) Value.owned := by
  apply (runs_selfEntity runs fit).bind fit
  intro t self _ fitT known
  have has := (Heap.hasAll_cons.1 known).1
  cases method with
  | id => exact runs_pure (Heap.hasAll_nil _)
  | type =>
    exact runs_get_bind (runs_pure (hasAll_ofEntity fun _ is => fitT.heap.has_type has is))
  | super =>
    exact runs_get_bind (runs_pure (hasAll_ofEntity fun _ is => fitT.heap.has_super has is))
  | text => exact runs_get_bind (runs_pure (Heap.hasAll_nil _))
  | hasMember =>
    apply (runs_lookup runs fitT "name").bind fitT
    intro u v _ _ _
    split
    · exact runs_get_bind (runs_pure (Heap.hasAll_nil _))
    · exact runs_fail _

end Delegation
