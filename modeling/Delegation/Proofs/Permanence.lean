import Delegation.Proofs.Answering
import Delegation.Proofs.Routes

/-!
# What never changes

The heap of a session only grows, whatever programs do and whatever bodies run on the way: tables
gain names at the end, closed ones gain none, links that are set stay, and of all that has been
declared only mutable cells take other values. So a constant that stands in a table stands there for
good, and assigning to it fails by every route.

Parameters, `self` and `super`, declared methods and registered globals are such constants from the
moment they are made.
-/

namespace Delegation

variable {s t u : Session} {x : ScopeId} {name : String} {v : Value} {callable : Callable}
  {args : List Value} {e owner receiver : EntityId} {request : Request}

/-- A cell that becomes another keeps its kind, and unless it is mutable it stays as it is. -/
theorem Cell.Becomes.kind {before after : Cell} (became : before.Becomes after) :
    after.kind = before.kind ∧ (before.kind ≠ .mutable → after = before) := by
  cases became with
  | same => exact ⟨rfl, fun _ => rfl⟩
  | stored v w => exact ⟨rfl, fun other => absurd rfl other⟩

theorem Scope.Grows.parent {before after : Scope} (grows : before.Grows after) :
    after.parent = before.parent := congrArg List.head? grows.lineage

namespace Session

/-- A name in a scope stands for a value for good: it does in every later session, and assigning to
it by whatever route fails there and changes nothing. -/
structure Fixed (s : Session) (x : ScopeId) (name : String) (v : Value) : Prop where
  stays : ∀ t, s.Later t → (t.heap.scope x).cell? name = some (.constant v)
  assign : ∀ t, s.Later t → ∀ (route : Route) cell, route.resolve t name = some (x, cell) →
    ∀ run w, route.set run name w t =
      .error (.failure (.ofCause (.constantAssignment name))) t
  setMember : ∀ t, s.Later t → ∀ e cell,
    t.heap.resolve (t.heap.entity e).members name = some (x, cell) →
    ∀ run w, setMember run e name w t =
      .error (.failure (.ofCause (.constantAssignment name))) t

theorem setMember_eq {cell : Cell}
    (leads : s.heap.resolve (s.heap.entity e).members name = some (x, cell)) (run : Runner)
    (w : Value) : setMember run e name w s = (s.heap.entity e).members.set run name w s := by
  have known := Heap.hasMember_of_resolve leads
  simp only [Delegation.setMember, bind, EStateM.bind, Action.get_eq_ok, known, if_true]

theorem fixed_of_constant (has : s.heap.Has (.scope x))
    (found : (s.heap.scope x).cell? name = some (.constant v)) : s.Fixed x name v := by
  have stays (t : Session) (later : s.Later t) :
      (t.heap.scope x).cell? name = some (.constant v) := by
    obtain ⟨cell, there, became⟩ := (later.heap.grows.scope x has).cells name _ found
    rw [there, became.constant]
  refine ⟨stays, fun t later route cell leads run w => ?_, fun t later e cell leads run w => ?_⟩
  · have is := route.cell?_of_resolve leads
    rw [stays t later, Option.some.injEq] at is
    subst is
    exact route.set_of_constant leads run w
  · have is := Heap.cell?_of_resolve leads
    rw [stays t later, Option.some.injEq] at is
    subst is
    rw [setMember_eq leads]
    exact ScopeId.set_of_constant leads run w

/-! ## What is made constant -/

theorem fixed_of_declare (has : s.heap.Has (.scope x))
    (declares : declare x name (.constant v) s = .ok () t) : t.Fixed x name v := by
  obtain ⟨found, has, _⟩ := declare_eq_ok has declares
  exact fixed_of_constant has found

theorem later_newScope {scope : Scope} (sound : s.Sound) (admitted : s.heap.Admits scope) :
    s.Later { s with heap := (s.heap.addScope scope).2 } := by
  have step : Heap.Step (fun frame => frame = s.machine.currentFrame) s.heap
      (s.heap.addScope scope).2 := .addScope admitted
  exact .single ⟨.inr step, (sound.fit.step step).toGrounded⟩

theorem fixed_addScope {scope : Scope} (found : scope.cell? name = some (.constant v)) :
    Fixed { s with heap := (s.heap.addScope scope).2 } (s.heap.addScope scope).1 name v :=
  fixed_of_constant (by simp [Heap.Has, Heap.addScope]) ((Heap.scope_addScope _ _).symm ▸ found)

end Session

theorem Callable.cell?_parameters {i : Nat} (param : callable.params[i]? = some name)
    (arg : args[i]? = some v) : (callable.parameters args).cell? name = some (.constant v) := by
  have distinct := callable.distinct
  simp only [parameters, Scope.cell?]
  generalize callable.params = params at param distinct
  induction params generalizing args i with
  | nil => cases param
  | cons first rest ih =>
    cases args with
    | nil => cases arg
    | cons w args =>
      rw [List.nodup_cons] at distinct
      rw [List.map_cons, List.zip_cons_cons, List.lookup_cons]
      cases i with
      | zero =>
        cases param
        cases arg
        rw [beq_self_eq_true]
      | succ i =>
        have apart : (name == first) = false := by
          rw [beq_eq_false_iff_ne]
          rintro rfl
          exact distinct.1 (List.mem_of_getElem? param)
        rw [apart]
        exact ih arg param distinct.2

theorem cell?_self (heap : Heap) (owner receiver : EntityId) :
    (identityScope heap owner receiver).cell? "self" = some (.constant (.entity receiver)) := rfl

theorem cell?_super (heap : Heap) (owner receiver : EntityId) :
    (identityScope heap owner receiver).cell? "super" =
      some (.constant (.ofEntity? (heap.entity owner).super)) := by
  unfold identityScope
  cases (heap.entity owner).super <;> rfl

namespace Session

/-- In front of the chain in which the body of a method begins, behind its parameters, is a scope in
which `self` and `super` are fixed. -/
theorem fixed_serving (s : Session) (callable : Callable) (owner receiver : EntityId)
    (args : List Value) : ∃ parameters identity rest,
      (s.serving callable owner receiver args).machine.currentChain =
        parameters :: identity :: rest ∧
      (s.serving callable owner receiver args).Fixed identity "self" (.entity receiver) ∧
      (s.serving callable owner receiver args).Fixed identity "super"
        (.ofEntity? (s.heap.entity owner).super) := by
  let identity := s.heap.addScope (identityScope s.heap owner receiver)
  have identityHas : identity.2.Has (.scope identity.1) := by
    simp [identity, Heap.Has, Heap.addScope]
  have identityIs : (s.serving callable owner receiver args).heap.scope identity.1 =
      identityScope s.heap owner receiver := by
    rw [heap_serving, Heap.scope_addScope_of_lt _ identityHas, Heap.scope_addScope]
  have has : (s.serving callable owner receiver args).heap.Has (.scope identity.1) :=
    (Heap.grows_addScope _ _).has _ identityHas
  exact ⟨_, identity.1, _, rfl,
    fixed_of_constant has (identityIs.symm ▸ cell?_self _ _ _),
    fixed_of_constant has (identityIs.symm ▸ cell?_super _ _ _)⟩

theorem fixed_of_call {b : BindingId} (sound : s.Sound) (has : s.heap.Has (.binding b))
    (method : s.heap.binding b = ⟨callable, .method owner⟩ ∨
      s.heap.binding b = ⟨callable, .declared owner⟩ ∧
        { s with
          machine := s.machine.countCall .method
          held := .value (.binding b) :: s.held }.isLive owner = true)
    (affords : s.Affords) (known : ∀ v ∈ args, s.heap.HasAll v.owned)
    (enough : args.length = callable.arity) :
    ∃ u self parameters identity rest, s.Later u ∧
      Enters (fun run => b.call run args) s callable.body u ∧
      u.machine.currentChain = parameters :: identity :: rest ∧
      u.Fixed identity "self" (.entity self) ∧
      u.Fixed identity "super" (.ofEntity? (s.heap.entity owner).super) := by
  have ownerHas : s.heap.Has (.entity owner) := by
    have refs := sound.heap.has_binding has
    rcases method with is | ⟨is, _⟩ <;> exact (is ▸ refs) _ List.mem_cons_self
  have fit : (s.calling b owner).Fit true := { sound.fit with
    held := List.forall_mem_cons.2 ⟨List.forall_mem_singleton.2 ownerHas,
      List.forall_mem_cons.2 ⟨List.forall_mem_singleton.2 has, sound.held⟩⟩ }
  have receiverHas : s.heap.Has (.entity ((s.calling b owner).receiver owner)) :=
    has_receiver sound.heap ownerHas
  obtain ⟨parameters, identity, rest, chain, self, super⟩ :=
    fixed_serving (s.calling b owner) callable owner ((s.calling b owner).receiver owner) args
  have later : s.Later (s.calling b owner) := .single ⟨.inl rfl, fit.toGrounded⟩
  exact ⟨_, _, parameters, identity, rest,
    later.trans (fit.toSound.later_serving ownerHas receiverHas known enough),
    BindingId.enters_call method affords enough, chain, self, super⟩

theorem fixed_of_declared (declared : s.Declared request e callable)
    (has : s.heap.Has (.scope (request.table (s.heap.entity e)))) :
    ∃ b, s.heap.binding b = ⟨callable, .declared e⟩ ∧
      s.Fixed (request.table (s.heap.entity e)) request.name (.binding b) := by
  obtain ⟨b, own, binding⟩ := declared.own
  exact ⟨b, binding, fixed_of_constant has own⟩

theorem fixed_selfScope (s : Session) (run : Runner) (e : EntityId) :
    ∃ x t, EntityCommand.selfScope.act run [.value (.entity e)] s = .ok (.scope x) t ∧
      t.Fixed x "self" (.entity (s.receiver e)) ∧
      t.Fixed x "super" (.ofEntity? (s.heap.entity e).super) :=
  ⟨_, _, rfl, fixed_addScope (cell?_self _ _ _), fixed_addScope (cell?_super _ _ _)⟩

theorem fixed_registered {registry : Registry} (known : s.heap.HasAll registry.owned) :
    (∀ name v t, registry.register name v s = .ok () t → t.Fixed registry.scope name v) ∧
    ∀ type after t, registry.registerType type s = .ok after t →
      t.Fixed registry.scope (s.heap.entity type).name (.entity type) := by
  have has := (Heap.hasAll_cons.1 known).1
  refine ⟨fun name v t => fixed_of_declare has, fun type after t registers => ?_⟩
  simp only [Registry.registerType, bind, EStateM.bind, Action.get_eq_ok] at registers
  cases ends : registry.register (s.heap.entity type).name (.entity type) s with
  | error stop u =>
    rw [ends] at registers
    cases registers
  | ok _ u =>
    rw [ends] at registers
    cases registers
    exact fixed_of_declare has ends

/-- Nothing that programs do takes back what the heap says: scopes keep where they stand and what
they declare, and all but the values of mutable cells; entities keep all they have. What is constant
in a table stays so and cannot be assigned to, and this is how parameters, `self` and `super`,
declared methods and registered globals are made. -/
theorem permanence (reachable : s.Reachable) :
    (∀ nesting e, s.Later ((eval (runBody nesting) e).after s)) ∧
    (∀ t, s.Later t → t.Reachable ∧ s.heap.Grows t.heap ∧
      ∀ x, s.heap.Has (.scope x) → (t.heap.scope x).parent = (s.heap.scope x).parent ∧
        ∀ name cell, (s.heap.scope x).cell? name = some cell →
          ∃ after, (t.heap.scope x).cell? name = some after ∧ after.kind = cell.kind ∧
            (cell.kind ≠ .mutable → after = cell)) ∧
    (∀ x name v, s.heap.Has (.scope x) → (s.heap.scope x).cell? name = some (.constant v) →
      s.Fixed x name v) ∧
    (∀ (callable : Callable) (args : List Value), args.length = callable.arity →
      (∀ v ∈ args, s.heap.HasAll v.owned) → ∃ u x, s.Later u ∧
        (∀ run, callable.invoke run args s = withScope x (run callable.body) u) ∧
        ∀ (i : Nat) name v, callable.params[i]? = some name → args[i]? = some v →
          u.Fixed x name v) ∧
    (∀ b callable owner args, s.heap.Has (.binding b) →
      (s.heap.binding b = ⟨callable, .method owner⟩ ∨
        s.heap.binding b = ⟨callable, .declared owner⟩ ∧
          { s with
            machine := s.machine.countCall .method
            held := .value (.binding b) :: s.held }.isLive owner = true) →
      s.Affords → (∀ v ∈ args, s.heap.HasAll v.owned) → args.length = callable.arity →
      ∃ u self parameters identity rest, s.Later u ∧
        Enters (fun run => b.call run args) s callable.body u ∧
        u.machine.currentChain = parameters :: identity :: rest ∧
        u.Fixed identity "self" (.entity self) ∧
        u.Fixed identity "super" (.ofEntity? (s.heap.entity owner).super)) ∧
    (∀ run e, ∃ x t, EntityCommand.selfScope.act run [.value (.entity e)] s = .ok (.scope x) t ∧
      t.Fixed x "self" (.entity (s.receiver e)) ∧
      t.Fixed x "super" (.ofEntity? (s.heap.entity e).super)) ∧
    (∀ (request : Request) e callable t, s.heap.Has (.entity e) →
      request.declare e callable s = .ok () t →
      ∃ b, t.heap.binding b = ⟨callable, .declared e⟩ ∧
        t.Fixed (request.table (s.heap.entity e)) request.name (.binding b)) ∧
    ∀ registry : Registry, s.heap.HasAll registry.owned →
      (∀ name v t, registry.register name v s = .ok () t → t.Fixed registry.scope name v) ∧
      ∀ type after t, registry.registerType type s = .ok after t →
        t.Fixed registry.scope (s.heap.entity type).name (.entity type) := by
  have sound := reachable.sound
  refine ⟨fun nesting e => ?_, fun t later => ?_,
    fun x name v has found => fixed_of_constant has found,
    fun callable args enough known => ?_,
    fun b callable owner args has method affords known enough =>
      fixed_of_call sound has method affords known enough,
    fun run e => fixed_selfScope s run e, fun request e callable t has declares => ?_,
    fun registry known => fixed_registered known⟩
  · exact (runs_eval (runs_runBody nesting) sound.fit e (.inl rfl)).after.steps sound.fit
  · have grows := later.heap.grows
    refine ⟨reachable.later later, grows, fun x has => ⟨(grows.scope x has).parent, ?_⟩⟩
    intro name cell found
    obtain ⟨after, there, became⟩ := (grows.scope x has).cells name cell found
    exact ⟨after, there, became.kind⟩
  · refine ⟨_, _, later_newScope sound (Callable.admits_parameters known enough), fun run => ?_,
      fun i name v param arg => fixed_addScope (Callable.cell?_parameters param arg)⟩
    rw [callable.invoke_eq run enough]
    rfl
  · have later := request.later_declare sound.fit has declares
    have table : request.table (t.heap.entity e) = request.table (s.heap.entity e) :=
      Request.table_of_grows (later.heap.grows.entity e has)
    have tableHas := later.heap.grows.has _ (request.has_table sound.heap has)
    rw [← table] at tableHas ⊢
    exact fixed_of_declared ⟨s, t, reachable, has, declares, .refl⟩ tableHas

/-- The method of an entity that a program has built. -/
theorem permanence_of_program :
    let s := (Program.runSteps
      [.bind "a" (.apply (.command (.entity .entity)) [.str "A"]),
        .apply (.command (.entity .method)) [.var "a", .str "m", .nullary "m" [.void]]]).after
          (Program.ready {})
    s.Reachable ∧ ∃ b, s.Fixed (s.heap.entity ⟨0⟩).members "m" (.binding b) := by
  let steps : List Expr := [.bind "a" (.apply (.command (.entity .entity)) [.str "A"]),
    .apply (.command (.entity .method)) [.var "a", .str "m", .nullary "m" [.void]]]
  have reachable : ((Program.runSteps steps).after (Program.ready {})).Reachable :=
    Program.reachable_runSteps {} steps
  have has : ((Program.runSteps steps).after (Program.ready {})).heap.Has
      (.scope ((((Program.runSteps steps).after (Program.ready {})).heap.entity ⟨0⟩).members)) := by
    show _ < _
    decide +kernel
  have found : (((Program.runSteps steps).after (Program.ready {})).heap.scope
      ((((Program.runSteps steps).after (Program.ready {})).heap.entity ⟨0⟩).members)).cell? "m" =
        some (.constant (.binding ⟨0⟩)) := by decide +kernel
  exact ⟨reachable, ⟨0⟩, (permanence reachable).2.2.1 _ _ _ has found⟩

end Session

end Delegation
