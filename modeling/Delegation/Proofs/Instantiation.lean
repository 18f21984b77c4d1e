import Mathlib.Data.List.Forall2
import Delegation.Proofs.Sealing

/-!
# Making objects from a registry

A root object gets the methods of its registry one after another. A name that is no identifier never
came into the registry, but a name may have come into it more than once, for nothing compares the
methods of a registry with each other before a root object is made. Then the second method of that
name finds the name taken, and no object can be made from the registry at all.

Nothing else stands in the way: a root object is fresh, so whatever it carries it has got from the
registry, and whatever stands on it is fresh as well.
-/

namespace Delegation

variable {s t u : Session} {e base : EntityId} {name : String} {callable : Callable}

/-! ## Declaring methods one after another -/

namespace Heap

/-- A cell holds a method of an entity under the name of the method. -/
def IsMethod (heap : Heap) (e : EntityId) (method : String × Callable) (entry : String × Cell) :
    Prop :=
  entry.1 = method.1 ∧ ∃ b, entry.2 = .constant (.binding b) ∧ heap.Has (.binding b) ∧
    heap.binding b = ⟨method.2, .declared e⟩

/-- The members of an entity are these methods, in order, and nothing else. -/
structure Carries (heap : Heap) (e : EntityId) (methods : List (String × Callable)) : Prop where
  has : heap.Has (.scope (heap.entity e).members)
  table : ∃ cells, heap.scope (heap.entity e).members = ⟨.identifier, [], cells, false⟩ ∧
    List.Forall₂ (heap.IsMethod e) methods cells

theorem IsMethod.later {heap after : Heap} (bindings : ∀ b, heap.Has (.binding b) →
    after.Has (.binding b) ∧ after.binding b = heap.binding b) {method : String × Callable}
    {entry : String × Cell} (is : heap.IsMethod e method entry) : after.IsMethod e method entry := by
  obtain ⟨named, b, cell, has, binding⟩ := is
  obtain ⟨still, same⟩ := bindings b has
  exact ⟨named, b, cell, still, same.trans binding⟩

theorem names_of_isMethod {heap : Heap} {methods : List (String × Callable)}
    {cells : List (String × Cell)} (all : List.Forall₂ (heap.IsMethod e) methods cells) :
    cells.map Prod.fst = methods.map Prod.fst := by
  induction all with
  | nil => rfl
  | cons is _ ih => rw [List.map_cons, List.map_cons, ih, is.1]

end Heap

theorem declareMethod_of_new (callable : Callable) {methods : List (String × Callable)}
    (carries : s.heap.Carries e methods) (spelled : isIdentifier name = true)
    (new : name ∉ methods.map Prod.fst) :
    ∃ t, declareMethod e name callable s = .ok () t ∧ t.heap.entities = s.heap.entities ∧
      t.heap.Carries e (methods ++ [(name, callable)]) := by
  obtain ⟨cells, table, all⟩ := carries.table
  let made := s.heap.addBinding ⟨callable, .declared e⟩
  let x := (s.heap.entity e).members
  let after : Scope :=
    ⟨.identifier, [], cells ++ [(name, .constant (.binding made.1))], false⟩
  have has : made.2.Has (.scope x) := carries.has
  have free : (made.2.scope x).declares name = false := by
    rw [← Bool.not_eq_true, Scope.declares_iff, show made.2.scope x = _ from table, Scope.symbols,
      Heap.names_of_isMethod all]
    exact new
  have declared : (made.2.scope x).declare name (.constant (.binding made.1)) = .ok after := by
    rw [Scope.declare_eq_ok_iff]
    rw [show made.2.scope x = _ from table] at free ⊢
    exact ⟨spelled, rfl, free, rfl⟩
  have scope : (made.2.setScope x after).scope x = after := by
    rw [Heap.scope_setScope has, if_pos rfl]
  have binding : (made.2.setScope x after).IsMethod e (name, callable)
      (name, .constant (.binding made.1)) :=
    ⟨rfl, made.1, rfl, by simp [Heap.Has, Heap.setScope, made, Heap.addBinding],
      Heap.binding_addBinding _ _⟩
  have older (b : BindingId) (known : s.heap.Has (.binding b)) :
      (made.2.setScope x after).Has (.binding b) ∧
        (made.2.setScope x after).binding b = s.heap.binding b :=
    ⟨(Heap.grows_addBinding _ _).has _ known, (Heap.grows_addBinding _ _).binding b known⟩
  refine ⟨{ s with heap := made.2.setScope x after },
    declare_of_ok (s := { s with heap := made.2 }) declared, rfl, ?_, _, scope, ?_⟩
  · exact Nat.lt_of_lt_of_eq has Array.size_setIfInBounds.symm
  · exact List.rel_append (all.imp fun _ _ => Heap.IsMethod.later older) (.cons binding .nil)

theorem declareMethod_of_taken (callable : Callable) {methods : List (String × Callable)}
    (carries : s.heap.Carries e methods) (spelled : isIdentifier name = true)
    (taken : name ∈ methods.map Prod.fst) :
    ∃ t, declareMethod e name callable s =
      .error (.failure (.ofCause (.duplicateSymbol name))) t := by
  obtain ⟨cells, table, all⟩ := carries.table
  have declares : Scope.declares ⟨.identifier, [], cells, false⟩ name = true := by
    rw [Scope.declares_iff, Scope.symbols, Heap.names_of_isMethod all]
    exact taken
  refine ⟨_, declare_of_error (s := { s with heap := (s.heap.addBinding _).2 }) ?_⟩
  show (s.heap.scope (s.heap.entity e).members).declare name _ = _
  simp [table, Scope.declare, Policy.accepts, spelled, declares]

namespace Registry

variable {before protocol : List (String × Callable)}

theorem declareMethods_of_ok (rest : List (String × Callable))
    (declares : declareMethod e name callable s = .ok () t) :
    declareMethods e ((name, callable) :: rest) s = declareMethods e rest t := by
  simp only [declareMethods, bind, EStateM.bind, declares]

theorem declareMethods_of_distinct (carries : s.heap.Carries e before)
    (spelled : ∀ method ∈ protocol, isIdentifier method.1 = true)
    (distinct : ((before ++ protocol).map Prod.fst).Nodup) :
    ∃ t, declareMethods e protocol s = .ok () t ∧ t.heap.entities = s.heap.entities ∧
      t.heap.Carries e (before ++ protocol) := by
  induction protocol generalizing before s with
  | nil => exact ⟨s, rfl, rfl, by rwa [List.append_nil]⟩
  | cons method rest ih =>
    obtain ⟨name, callable⟩ := method
    obtain ⟨good, others⟩ := List.forall_mem_cons.1 spelled
    rw [List.append_cons] at distinct ⊢
    have new : name ∉ before.map Prod.fst := by
      rw [List.map_append, List.map_append] at distinct
      exact fun taken => List.disjoint_of_nodup_append (List.Nodup.of_append_left distinct) taken
        List.mem_cons_self
    obtain ⟨t, declares, entities, more⟩ := declareMethod_of_new callable carries
      good new
    obtain ⟨u, declaresAll, same, all⟩ := ih more others distinct
    exact ⟨u, (declareMethods_of_ok rest declares).trans declaresAll, same.trans entities, all⟩

/-- The first name that comes again stops the declaring. -/
theorem declareMethods_of_repeated (carries : s.heap.Carries e before)
    (spelled : ∀ method ∈ protocol, isIdentifier method.1 = true)
    (distinct : (before.map Prod.fst).Nodup)
    (repeated : ¬((before ++ protocol).map Prod.fst).Nodup) :
    ∃ more name callable rest t, protocol = more ++ (name, callable) :: rest ∧
      ((before ++ more).map Prod.fst).Nodup ∧ name ∈ (before ++ more).map Prod.fst ∧
        declareMethods e protocol s = .error (.failure (.ofCause (.duplicateSymbol name))) t := by
  induction protocol generalizing before s with
  | nil => exact absurd (by rwa [List.append_nil]) repeated
  | cons method rest ih =>
    obtain ⟨name, callable⟩ := method
    obtain ⟨good, others⟩ := List.forall_mem_cons.1 spelled
    by_cases taken : name ∈ before.map Prod.fst
    · obtain ⟨t, stops⟩ := declareMethod_of_taken callable carries good taken
      refine ⟨[], name, callable, rest, t, rfl, ?_, ?_, ?_⟩
      · rwa [List.append_nil]
      · rwa [List.append_nil]
      · simp only [declareMethods, bind, EStateM.bind, stops]
    · obtain ⟨t, declares, _, one⟩ := declareMethod_of_new callable carries good taken
      have still : ((before ++ [(name, callable)]).map Prod.fst).Nodup := by
        rw [List.map_append]
        exact List.Nodup.append distinct (List.nodup_singleton _) (by simpa using taken)
      rw [List.append_cons] at repeated
      obtain ⟨more, again, other, rest', u, is, unique, place, stops⟩ := ih one others still repeated
      refine ⟨(name, callable) :: more, again, other, rest', u, by rw [is, List.cons_append], ?_, ?_,
        (declareMethods_of_ok rest declares).trans stops⟩
      · rwa [List.append_cons]
      · rwa [List.append_cons]

/-! ## Root objects -/

/-- The session in which a root object has been made that does not carry anything yet. -/
def founding (registry : Registry) (s : Session) : Session :=
  { s with heap := (s.heap.addEntity none (registry.type? "Object") "Object").2 }

theorem instantiateRoot_eq (registry : Registry) (s : Session) :
    registry.instantiateRoot s =
      (do declareMethods ⟨s.heap.entities.size⟩ registry.protocol
          return ⟨s.heap.entities.size⟩ : Action EntityId) (registry.founding s) := by
  have free : ∀ base ∈ none, (s.heap.entity base).derived = none := nofun
  have builds := buildEntity_of_free free (registry.type? "Object") "Object"
  simp only [instantiateRoot, bind, EStateM.bind, builds, Heap.fst_addEntity]
  rfl

theorem entity_founding (registry : Registry) (s : Session) :
    (registry.founding s).heap.entity ⟨s.heap.entities.size⟩ =
      s.heap.freshEntity none (registry.type? "Object") "Object" := by
  rw [founding, Heap.entity_addEntity has_none, if_pos rfl]

theorem carries_founding (registry : Registry) (s : Session) :
    (registry.founding s).heap.Carries ⟨s.heap.entities.size⟩ [] := by
  have members : ((registry.founding s).heap.entity ⟨s.heap.entities.size⟩).members =
      ⟨s.heap.scopes.size + 1⟩ := by rw [entity_founding]; rfl
  refine ⟨?_, [], ?_, .nil⟩
  · rw [members]
    simp [Heap.Has, founding, Heap.size_scopes_addEntity]
  · have old : ∀ base ∈ none, (s.heap.entity base).members.index < s.heap.scopes.size := by simp
    rw [members, founding, Heap.scope_addEntity old, if_neg (Nat.succ_ne_self _), if_pos rfl]
    rfl

/-- What a root object is that has just been made from a registry. -/
structure Root (registry : Registry) (s : Session) (root : EntityId) (t : Session) : Prop where
  fresh : ¬s.heap.Has (.entity root)
  has : t.heap.Has (.entity root)
  name : (t.heap.entity root).name = "Object"
  type : (t.heap.entity root).type = registry.type? "Object"
  super : (t.heap.entity root).super = none
  derived : (t.heap.entity root).derived = none
  methods : t.heap.Carries root registry.protocol

variable {registry : Registry}

theorem instantiateRoot_of_distinct
    (spelled : ∀ method ∈ registry.protocol, isIdentifier method.1 = true)
    (distinct : (registry.protocol.map Prod.fst).Nodup) :
    ∃ root t, registry.instantiateRoot s = .ok root t ∧ registry.Root s root t ∧
      t.heap.entities = (registry.founding s).heap.entities := by
  let root : EntityId := ⟨s.heap.entities.size⟩
  obtain ⟨t, declares, same, carries⟩ :=
    declareMethods_of_distinct (carries_founding registry s) spelled distinct
  have entity : t.heap.entity root = s.heap.freshEntity none (registry.type? "Object") "Object" := by
    rw [← entity_founding, Heap.entity, same, Heap.entity]
  refine ⟨root, t, ?_, ⟨Nat.lt_irrefl _, ?_, ?_, ?_, ?_, ?_, carries⟩, same⟩
  · rw [instantiateRoot_eq]
    simp only [bind, EStateM.bind, declares]
    rfl
  · simp [Heap.Has, same, root, founding, Heap.size_entities_addEntity]
  all_goals rw [entity]; rfl

theorem instantiateRoot_of_repeated
    (spelled : ∀ method ∈ registry.protocol, isIdentifier method.1 = true)
    (repeated : ¬(registry.protocol.map Prod.fst).Nodup) :
    ∃ more name callable rest t, registry.protocol = more ++ (name, callable) :: rest ∧
      (more.map Prod.fst).Nodup ∧ name ∈ more.map Prod.fst ∧
        registry.instantiateRoot s = .error (.failure (.ofCause (.duplicateSymbol name))) t := by
  obtain ⟨more, name, callable, rest, t, is, unique, place, stops⟩ :=
    declareMethods_of_repeated (carries_founding registry s) spelled .nil repeated
  refine ⟨more, name, callable, rest, t, is, unique, place, ?_⟩
  rw [instantiateRoot_eq]
  simp only [bind, EStateM.bind, stops]

/-! ## Layers on a root object -/

/-- Layers on an entity, one for each type and named after it, each on the one before. -/
inductive Layers (heap : Heap) : EntityId → List EntityId → List EntityId → Prop
  | nil (base : EntityId) : Layers heap base [] []
  | cons {base type layer : EntityId} {types layers : List EntityId}
      (super : (heap.entity layer).super = some base) (typed : (heap.entity layer).type = some type)
      (name : (heap.entity layer).name = (heap.entity type).name)
      (rest : Layers heap layer types layers) : Layers heap base (type :: types) (layer :: layers)

theorem buildLayers_eq_ok {types : List EntityId} (has : s.heap.Has (.entity base))
    (free : (s.heap.entity base).derived = none)
    (known : ∀ type ∈ types, s.heap.Has (.entity type)) :
    ∃ layers t, buildLayers base types s = .ok layers t ∧ s.heap.Grows t.heap ∧
      Layers t.heap base types layers := by
  induction types generalizing base s with
  | nil => exact ⟨[], s, rfl, .refl _, .nil base⟩
  | cons type rest ih =>
    obtain ⟨typeHas, others⟩ := List.forall_mem_cons.1 known
    let name := (s.heap.entity type).name
    let layer : EntityId := ⟨s.heap.entities.size⟩
    let heap := (s.heap.addEntity (some base) (some type) name).2
    have baseHas := has_some has
    have grows : s.heap.Grows heap :=
      Heap.grows_addEntity baseHas (fun _ is => by cases is; exact free) (some type) name
    have entity : heap.entity layer = s.heap.freshEntity (some base) (some type) name := by
      have is := Heap.entity_addEntity baseHas (some type) name layer
      rwa [if_pos rfl] at is
    have layerHas : heap.Has (.entity layer) := by
      simp [Heap.Has, heap, layer, Heap.size_entities_addEntity]
    obtain ⟨layers, t, builds, growsMore, all⟩ := ih (s := { s with heap }) layerHas
      (by rw [entity]; rfl) fun known place => grows.has _ (others known place)
    have kept := growsMore.entity layer layerHas
    have growsAll := grows.trans growsMore
    refine ⟨layer :: layers, t, ?_, growsAll, .cons ?_ ?_ ?_ all⟩
    · have one : buildEntity (some base) (some type) (s.heap.entity type).name s =
          .ok layer { s with heap } := by
        rw [buildEntity_of_free (fun _ is => by cases is; exact free), Heap.fst_addEntity]
      simp only [buildLayers, bind, EStateM.bind, Action.get_eq_ok, one, builds]
      rfl
    · rw [kept.super, entity]
      rfl
    · rw [kept.type, entity]
      rfl
    · rw [kept.name, entity, (growsAll.entity type typeHas).name]
      rfl

/-! ## What can be made from a registry -/

variable {registry' : Registry} {added refused : List Entry} {types : List EntityId}

/-- From a finished registry root objects and chains of layers can be made at any time if the names
of its methods differ, and they carry exactly these methods. If a name is repeated none can be made
at any time, although nothing that was added to the registry has been refused for it. -/
theorem instantiation (constructed : Constructed added refused registry s)
    (finishes : registry.finish s = .ok registry' t) (later : t.Later u)
    (known : ∀ type ∈ types, u.heap.Has (.entity type)) :
    registry'.protocol = methods added ∧
    (∀ name callable, (Entry.method name callable).add registry s =
      if isIdentifier name = true then
        .ok { registry with protocol := registry.protocol ++ [(name, callable)] } s
      else .error (.failure (.ofCause (.invalidSymbol name .identifier))) s) ∧
    (((methods added).map Prod.fst).Nodup → ∃ root v layers w,
      registry'.instantiateRoot u = .ok root v ∧ registry'.Root u root v ∧
        registry'.instantiateChain types u = .ok layers w ∧ Layers w.heap root types layers) ∧
    (¬((methods added).map Prod.fst).Nodup → ∃ more name callable rest v,
      methods added = more ++ (name, callable) :: rest ∧
        (more.map Prod.fst).Nodup ∧ name ∈ more.map Prod.fst ∧
          registry'.instantiateRoot u =
            .error (.failure (.ofCause (.duplicateSymbol name))) v ∧
          registry'.instantiateChain types u =
            .error (.failure (.ofCause (.duplicateSymbol name))) v) := by
  cases finishes
  have tells := constructed.tells
  refine ⟨tells.protocol, fun name callable => Entry.add_method registry name callable s,
    fun distinct => ?_, fun repeated => ?_⟩
  · rw [← tells.protocol] at distinct
    obtain ⟨root, v, makes, is, same⟩ :=
      instantiateRoot_of_distinct (s := u) tells.spelled distinct
    have still : ∀ type ∈ types, v.heap.Has (.entity type) := fun type place => by
      have old := known type place
      simp only [Heap.Has, same, founding, Heap.size_entities_addEntity] at old ⊢
      omega
    obtain ⟨layers, w, builds, _, all⟩ := buildLayers_eq_ok is.has is.derived still
    refine ⟨root, v, layers, w, makes, is, ?_, all⟩
    simp only [instantiateChain, bind, EStateM.bind, makes, builds]
  · rw [← tells.protocol] at repeated ⊢
    obtain ⟨more, name, callable, rest, v, is, unique, place, stops⟩ :=
      instantiateRoot_of_repeated (s := u) tells.spelled repeated
    refine ⟨more, name, callable, rest, v, is, unique, place, stops, ?_⟩
    simp only [instantiateChain, bind, EStateM.bind, stops]

/-- A registry with two methods, and a layer of a type that is in no registry. -/
theorem instantiation_of_two_methods :
    let m := Entry.method "m" (.nullary "m" (.root .id))
    let n := Entry.method "n" (.nullary "n" (.root .text))
    ∃ (registry : Registry) (s t : Session),
      Constructed [m, n] [] registry s ∧ registry.finish s = .ok registry t ∧
        ∃ root v layers w, registry.instantiateRoot t = .ok root v ∧ registry.Root t root v ∧
          registry.instantiateChain [⟨0⟩] t = .ok layers w ∧ Layers w.heap root [⟨0⟩] layers := by
  intro m n
  have started : Constructed [] [] ⟨⟨0⟩, [], []⟩ Program.founded :=
    .start (s := Program.blank) rfl ⟨[], .start⟩
  have free : ∀ base ∈ none, (Program.founded.heap.entity base).derived = none := nofun
  obtain ⟨built, has, _⟩ := started.build has_none has_none (buildEntity_of_free free none "T")
  have constructed : Constructed [m, n] [] _ _ :=
    built.addMethods [("m", _), ("n", _)] (by decide +kernel)
  obtain ⟨_, _, distinct, _⟩ := instantiation constructed (finish_eq _ _) .refl
    (List.forall_mem_singleton.2 has)
  exact ⟨_, _, _, constructed, finish_eq _ _, distinct (by decide)⟩

/-- Two methods of one name. Both are added, and then no root object can be made. -/
theorem instantiation_of_repeated_method :
    let one := Entry.method "m" (.nullary "m" (.root .id))
    let two := Entry.method "m" (.nullary "m" (.root .text))
    ∃ (registry : Registry) (s t : Session),
      Constructed [one, two] [] registry s ∧ registry.finish s = .ok registry t ∧
        registry.instantiateRoot.succeeds t = false ∧
          (registry.instantiateChain []).succeeds t = false := by
  intro one two
  have started : Constructed [] [] ⟨⟨0⟩, [], []⟩ Program.founded :=
    .start (s := Program.blank) rfl ⟨[], .start⟩
  have constructed : Constructed [one, two] [] _ _ :=
    started.addMethods [("m", _), ("m", _)] (by decide +kernel)
  refine ⟨_, _, _, constructed, finish_eq _ _, ?_, ?_⟩
  · decide +kernel
  · decide +kernel

end Registry

end Delegation
