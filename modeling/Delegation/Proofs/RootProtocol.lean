import Delegation.Proofs.Layering
import Delegation.Proofs.Passing

/-!
# What root objects answer

The methods of the root protocol find the receiver under the name `self`, and one of them its
argument under the name `name`. Both names are looked for in the chain of a method, and in front of
everything in it are the scope of the parameters and the scope for the identity. So nothing that is
declared gets in between, neither fields nor members of the root or of any layer nor globals, even
under these names.

The receiver is the same for all layers that are alive, and nothing but the receiver decides what
the answer is. So through every layer that leads to a method of the root the answer is the same.
-/

namespace Delegation

variable {s t u a b c d : Session} {registry : Registry} {e root owner receiver : EntityId}
  {name : String} {callable : Callable} {args : List Value} {v : Value} {method : RootMethod}

/-! ## Methods of the root -/

namespace Session

/-- A name leads from a layer to what the root itself declares under it. -/
def Inherits (s : Session) (e root : EntityId) (name : String) : Prop :=
  ∃ cell, (Request.member name).resolve s.heap e = some ((s.heap.entity root).members, cell)

/-- A root object has the methods of the root protocol for good. -/
structure Rooted (s : Session) (root : EntityId) : Prop where
  own : ∀ name callable, (name, callable) ∈ rootProtocol → ∃ b,
    (Request.member name).own s.heap root = some (.constant (.binding b)) ∧
      s.heap.binding b = ⟨callable, .declared root⟩

theorem rooted_of_bootstrap (makes : Registry.bootstrap a = .ok registry b)
    (roots : registry.instantiateRoot c = .ok root d) (later : d.Later s) : s.Rooted root := by
  have protocol := Registry.protocol_of_bootstrap makes
  have spelled : ∀ method ∈ registry.protocol, isIdentifier method.1 = true := by
    rw [protocol]
    decide +kernel
  have distinct : (registry.protocol.map Prod.fst).Nodup := by
    rw [protocol]
    decide
  obtain ⟨_, _, again, is, -⟩ := Registry.instantiateRoot_of_distinct (s := c) spelled distinct
  rw [roots] at again
  cases again
  have grows := later.heap.grows
  refine ⟨fun name callable listed => ?_⟩
  obtain ⟨b, own, has, binding⟩ := is.methods.own distinct (protocol ▸ listed)
  obtain ⟨cell, there, became⟩ := (grows.scope _ is.methods.has).cells _ _ own
  refine ⟨b, ?_, (grows.binding b has).trans binding⟩
  rw [Request.own, Request.table_of_grows (grows.entity root is.has), ← became.constant]
  exact there

theorem Rooted.finds (rooted : s.Rooted root) (inherits : s.Inherits e root name)
    (listed : (name, callable) ∈ rootProtocol) (on : s.heap.BuiltOn e root) :
    s.heap.Finds (.member name) e root callable := by
  obtain ⟨cell, resolved⟩ := inherits
  obtain ⟨b, own, binding⟩ := rooted.own name callable listed
  have same := (Heap.cell?_of_resolve resolved).symm.trans own
  cases same
  exact ⟨on, b, resolved, binding⟩

/-! ## The body of a method -/

theorem lookup_argument_serving {i : Nat} (param : callable.params[i]? = some name)
    (arg : args[i]? = some v) (run : Runner) :
    lookup run name (s.serving callable owner receiver args) =
      .ok v (s.serving callable owner receiver args) := by
  let identity := s.heap.addScope (identityScope s.heap owner receiver)
  let parameters := identity.2.addScope (callable.parameters args)
  have found : (parameters.2.scope parameters.1).cell? name = some (.constant v) := by
    rw [Heap.scope_addScope]
    exact Callable.cell?_parameters param arg
  have unshadowed : ∀ x ∈ ([] : Chain), parameters.2.contains x name = false :=
    List.forall_mem_nil _
  have leads : Route.free.resolve (s.serving callable owner receiver args) name =
      some (parameters.1, .constant v) := Heap.resolveIn_behind unshadowed found
  exact Route.free.get_of_constant leads run

theorem selfEntity_serving (enough : args.length = callable.arity)
    (unhidden : "self" ∉ callable.params) (run : Runner) :
    selfEntity run (s.serving callable owner receiver args) =
      .ok receiver (s.serving callable owner receiver args) := by
  have self : lookup run "self" (s.serving callable owner receiver args) =
      .ok (.entity receiver) (s.serving callable owner receiver args) :=
    lookup_serving enough unhidden rfl run
  simp only [selfEntity, bind, EStateM.bind, self]
  rfl

/-- What the body of a method meets: the entities and scopes of its caller, the receiver as `self`,
and its arguments. -/
structure Meets (s u : Session) (callable : Callable) (args : List Value) (receiver : EntityId) :
    Prop where
  entities : u.heap.entities = s.heap.entities
  spared : s.heap.Spared u.heap
  self : ∀ run, selfEntity run u = .ok receiver u
  argument : ∀ (i : Nat) name v, callable.params[i]? = some name → args[i]? = some v →
    ∀ run, lookup run name u = .ok v u

theorem meets_serving (steady : s.Steady t) (enough : args.length = callable.arity)
    (unhidden : "self" ∉ callable.params) :
    s.Meets (t.serving callable owner receiver args) callable args receiver where
  entities := by
    rw [heap_serving, ← steady.entities]
    rfl
  spared x known := by
    have known' : t.heap.Has (.scope x) := by simpa only [Heap.Has, steady.scopes] using known
    refine ⟨(Heap.grows_addScope _ _).has _ ((Heap.grows_addScope _ _).has _ known'), ?_⟩
    rw [scope_serving known', Heap.scope, steady.scopes, Heap.scope]
  self := selfEntity_serving enough unhidden
  argument _ _ _ param arg := lookup_argument_serving param arg

theorem Meets.entity (meets : s.Meets u callable args receiver) (d : EntityId) :
    u.heap.entity d = s.heap.entity d := by
  rw [Heap.entity, meets.entities, Heap.entity]

theorem Meets.hasMember (meets : s.Meets u callable args receiver) (sound : s.Sound)
    (has : s.heap.Has (.entity e)) (name : String) :
    u.heap.hasMember e name = s.heap.hasMember e name := by
  have membersHas := (sound.heap.has_tables has).2.2
  rw [Heap.hasMember, Heap.hasMember, meets.entity, Heap.contains, Heap.contains, Heap.path,
    Heap.path, (meets.spared _ membersHas).2, Bool.eq_iff_iff, List.any_eq_true, List.any_eq_true]
  refine exists_congr fun x => and_congr_right fun place => ?_
  rw [(meets.spared x (sound.heap.has_path membersHas place)).2]

section Answers

variable (meets : s.Meets u callable args receiver) (run : Runner)

include meets

theorem Meets.answer_id : RootMethod.id.answer run u = .ok receiver.identity u := by
  simp only [RootMethod.answer, bind, EStateM.bind, meets.self]
  rfl

theorem Meets.answer_type :
    RootMethod.type.answer run u = .ok (.ofEntity? (s.heap.entity receiver).type) u := by
  simp only [RootMethod.answer, bind, EStateM.bind, meets.self, Action.get_eq_ok, meets.entity]
  rfl

theorem Meets.answer_super :
    RootMethod.super.answer run u = .ok (.ofEntity? (s.heap.entity receiver).super) u := by
  simp only [RootMethod.answer, bind, EStateM.bind, meets.self, Action.get_eq_ok, meets.entity]
  rfl

theorem Meets.answer_text :
    RootMethod.text.answer run u = .ok (.str ("<" ++ s.heap.typeName receiver ++ ">")) u := by
  simp only [RootMethod.answer, bind, EStateM.bind, meets.self, Action.get_eq_ok, Heap.typeName,
    meets.entity]
  rfl

theorem Meets.answer_hasMember (sound : s.Sound) (has : s.heap.Has (.entity receiver))
    (param : callable.params[0]? = some "name") {name : String}
    (arg : args[0]? = some (.str name)) :
    RootMethod.hasMember.answer run u = .ok (.bool (s.heap.hasMember receiver name)) u := by
  simp only [RootMethod.answer, bind, EStateM.bind, meets.self, meets.argument 0 "name" _ param arg,
    Action.get_eq_ok, meets.hasMember sound has]
  rfl

theorem Meets.answer_hasMember_of_other (param : callable.params[0]? = some "name")
    (arg : args[0]? = some v) (other : ∀ name, v ≠ .str name) :
    RootMethod.hasMember.answer run u = .error (.failure (.ofCause
      (.custom ("has_member expects a str argument, got " ++ v.typeName)))) u := by
  simp only [RootMethod.answer, bind, EStateM.bind, meets.self, meets.argument 0 "name" _ param arg]
  cases v with
  | str name => exact absurd rfl (other name)
  | _ => rfl

end Answers

/-! ## Replies -/

/-- A member that is called replies with a value, however deep bodies may nest, and leaves the
entities and scopes that there are as they were. -/
def Replies (s : Session) (e : EntityId) (name : String) (args : List Value) (v : Value) : Prop :=
  ∀ nesting, ∃ t, invokeMember (runBody (nesting + 1)) e name args s = .ok v t ∧ s.Later t ∧
    t.heap.entities = s.heap.entities ∧ s.heap.Spared t.heap

section Body

variable (sound : s.Sound) (finds : s.heap.Finds (.member name) e root callable)
  (live : s.isLive e = true) (affords : s.Affords) (enough : args.length = callable.arity)
  (is : callable.body = .root method) (unhidden : "self" ∉ callable.params)

include sound finds live affords enough is unhidden

/-- A call of a method of the root comes to what the method answers for the receiver. -/
theorem exists_answer : ∃ u leave report, s.Meets u callable args (s.receiver e) ∧
    (∀ t, (leave t).heap = t.heap) ∧
      (∀ t failure, (report t failure).cause = failure.cause) ∧ ∀ nesting,
        invokeMember (runBody (nesting + 1)) e name args s =
          unwind leave report (method.answer (runBody nesting) u) := by
  obtain ⟨t, steady, -, leave, report, same, cause, ends⟩ :=
    (Request.member name).enters_ask sound finds live affords enough
  refine ⟨t.serving callable root (s.receiver e) args, leave, report,
    meets_serving steady enough unhidden, same, cause, fun nesting => ?_⟩
  have runs := ends (runBody (nesting + 1))
  rw [is] at runs
  exact runs

theorem replies_of_answer (known : ∀ v ∈ args, s.heap.HasAll v.owned)
    (answers : ∀ u, s.Meets u callable args (s.receiver e) → ∀ run,
      method.answer run u = .ok v u) : s.Replies e name args v := by
  obtain ⟨u, leave, report, meets, same, -, ends⟩ :=
    exists_answer sound finds live affords enough is unhidden
  intro nesting
  have replies := ends nesting
  rw [answers u meets] at replies
  have run := (runs_invokeMember (runs_runBody (nesting + 1)) sound.fit (sound.has_of_isLive live)
    name known).result replies
  exact ⟨_, replies, run.1.steps sound.fit, (same u).symm ▸ meets.entities,
    (same u).symm ▸ meets.spared⟩

end Body

/-! ## Wrong numbers of arguments -/

end Session

namespace Fails

variable {inner : Runner → Action Value}

theorem inFrame {frame : Frame} {stack : CallStack}
    (fits : s.machine.stack.push frame = .ok stack)
    (fails : Fails inner { s with machine := { s.machine with stack } }) :
    Fails (fun run => Delegation.withFrame frame (inner run)) s := by
  obtain ⟨failure, u, fails⟩ := fails
  refine ⟨u.heap.attachTrace u.machine.stack failure, u.popFrame, fun run => ?_⟩
  simp only [Delegation.withFrame, enterFrame, pushFrame, fits, tracing, fails]

theorem inScope {x : ScopeId} (framed : s.machine.stack.frames ≠ [])
    (fails : Fails inner (s.mapFrame (·.pushInner x))) :
    Fails (fun run => withScope x (inner run)) s := by
  obtain ⟨failure, u, fails⟩ := fails
  refine ⟨failure, u.mapFrame Frame.popInner, fun run => ?_⟩
  have nonempty : s.machine.stack.frames.isEmpty = false := by simpa using framed
  simp only [withScope, nonempty, Bool.false_eq_true, if_false, shadowing, fails]

end Fails

/-- A method that is called with too few or too many arguments fails before its body begins. -/
theorem BindingId.fails_of_mismatch {b : BindingId}
    (method : s.heap.binding b = ⟨callable, .method owner⟩) (affords : s.Affords)
    (other : args.length ≠ callable.arity) : Fails (fun run => b.call run args) s := by
  refine .holding (.after (fun _ => rfl) ?_)
  dsimp only
  simp only [method]
  refine .after (fun _ => countCall_within affords.budget) ?_
  refine .holding (.after (fun _ => rfl) (.after (fun _ => rfl) ?_))
  refine .inFrame (CallStack.push_of_room _ affords.depth) (.inScope (List.cons_ne_nil _ _) ?_)
  exact ⟨_, _, fun run => Callable.invoke_of_mismatch other run⟩

namespace Session

theorem fails_invokeMember_of_mismatch (sound : s.Sound)
    (finds : s.heap.Finds (.member name) e owner callable) (live : s.isLive e = true)
    (affords : s.Affords) (other : args.length ≠ callable.arity) :
    Fails (fun run => invokeMember run e name args) s := by
  have ownerLive := sound.isLive_of_builtOn finds.on live
  refine .after (getMember_of_finds finds ownerLive) ?_
  exact BindingId.fails_of_mismatch (Heap.binding_addBinding _ _) ⟨affords.depth, affords.budget⟩
    other

/-! ## The protocol -/

/-- What a layer replies to the methods that it inherits from the root: it speaks for a receiver. -/
structure Speaks (s : Session) (root e receiver : EntityId) : Prop where
  id : s.Inherits e root "id" → s.Replies e "id" [] receiver.identity
  type : s.Inherits e root "type" →
    s.Replies e "type" [] (.ofEntity? (s.heap.entity receiver).type)
  super : s.Inherits e root "super" →
    s.Replies e "super" [] (.ofEntity? (s.heap.entity receiver).super)
  text : s.Inherits e root "to_string" →
    s.Replies e "to_string" [] (.str ("<" ++ s.heap.typeName receiver ++ ">"))
  hasMember : s.Inherits e root "has_member" → ∀ name,
    s.Replies e "has_member" [.str name] (.bool (s.heap.hasMember receiver name))
  /-- A member is asked for by a string and nothing else. -/
  noName : s.Inherits e root "has_member" → ∀ v, (∀ name, v ≠ .str name) → ∀ nesting,
    ∃ failure t,
      invokeMember (runBody (nesting + 1)) e "has_member" [v] s = .error (.failure failure) t ∧
        failure.cause = .custom ("has_member expects a str argument, got " ++ v.typeName)
  mismatch : ∀ name callable, (name, callable) ∈ rootProtocol → s.Inherits e root name →
    ∀ args : List Value, args.length ≠ callable.arity →
      Fails (fun run => invokeMember run e name args) s

theorem Rooted.speaks (rooted : s.Rooted root) (sound : s.Sound) (live : s.isLive e = true)
    (on : s.heap.BuiltOn e root) (affords : s.Affords) : s.Speaks root e (s.receiver e) := by
  have nullary {name : String} {v : Value} (method : RootMethod)
      (listed : (name, .nullary name (.root method)) ∈ rootProtocol)
      (inherits : s.Inherits e root name)
      (answers : ∀ u, s.Meets u (.nullary name (.root method)) [] (s.receiver e) → ∀ run,
        method.answer run u = .ok v u) : s.Replies e name [] v :=
    replies_of_answer sound (rooted.finds inherits listed on) live affords rfl rfl
      List.not_mem_nil (List.forall_mem_nil _) answers
  have receiverHas := sound.has_of_isLive (sound.isLive_receiver live)
  let hasMember : Callable :=
    ⟨"has_member", ["name"], .root .hasMember, by decide, by decide⟩
  have listed : ("has_member", hasMember) ∈ rootProtocol := by simp [rootProtocol, hasMember]
  have unhidden : "self" ∉ hasMember.params := by decide
  exact {
    id := fun inherits =>
      nullary .id (by simp [rootProtocol]) inherits fun _ meets run => meets.answer_id run
    type := fun inherits =>
      nullary .type (by simp [rootProtocol]) inherits fun _ meets run => meets.answer_type run
    super := fun inherits =>
      nullary .super (by simp [rootProtocol]) inherits fun _ meets run => meets.answer_super run
    text := fun inherits =>
      nullary .text (by simp [rootProtocol]) inherits fun _ meets run => meets.answer_text run
    hasMember := fun inherits name =>
      replies_of_answer sound (rooted.finds inherits listed on) live affords rfl rfl unhidden
        (List.forall_mem_singleton.2 (Heap.hasAll_nil _)) fun _ meets run =>
          meets.answer_hasMember run sound receiverHas rfl rfl
    noName := fun inherits v other nesting => by
      have enough : [v].length = hasMember.arity := rfl
      obtain ⟨u, leave, report, meets, -, cause, ends⟩ := exists_answer sound
        (rooted.finds inherits listed on) live affords enough rfl unhidden
      have fails := meets.answer_hasMember_of_other (runBody nesting) rfl rfl other
      have ended := ends nesting
      rw [fails] at ended
      exact ⟨_, _, ended, cause u _⟩
    mismatch := fun name callable listed inherits args other =>
      fails_invokeMember_of_mismatch sound (rooted.finds inherits listed on) live affords other }

theorem sound_of_instantiateRoot (sound : a.Sound) (makes : Registry.bootstrap a = .ok registry b)
    (before : b.Later c) (roots : registry.instantiateRoot c = .ok root d) : d.Sound := by
  obtain ⟨made, known⟩ := (Registry.runs_bootstrap sound.fit).result makes
  have toB : a.Later b := made.steps sound.fit
  have fit := (before.sound (toB.sound sound)).fit
  obtain ⟨rooted, -⟩ :=
    (registry.runs_instantiateRoot fit (before.heap.grows.hasAll known)).result roots
  have toD : c.Later d := rooted.steps fit
  exact toD.sound fit.toSound

/-- The root protocol is spoken for the receiver. In every session after a root object has been made
by a core registry, whatever has been declared meanwhile, all layers alive that are built on the
root have one receiver. What they reply to the methods that their names still lead to in the root is
the identity, type, base, text and members of that receiver, and wrong arguments fail. -/
theorem root_protocol (reachable : a.Reachable) (makes : Registry.bootstrap a = .ok registry b)
    (before : b.Later c) (roots : registry.instantiateRoot c = .ok root d) (after : d.Later s)
    (affords : s.Affords) (live : s.isLive e = true) (on : s.heap.BuiltOn e root) :
    s.receiver e = s.receiver root ∧ s.Speaks root e (s.receiver root) := by
  have sound := after.sound (sound_of_instantiateRoot reachable.sound makes before roots)
  have same := sound.receiver_of_builtOn on live
  have speaks := (rooted_of_bootstrap makes roots after).speaks sound live on affords
  exact ⟨same.symm, same ▸ speaks⟩

theorem later_named (name : String) (sound : s.Sound) (has : s.heap.Has (.entity e)) :
    s.Later { s with vars := [(name, .value (.entity e))] } :=
  .single ⟨.inl rfl, { sound.toGrounded with
    vars := List.forall_mem_singleton.2 (Heap.hasAll_cons.2 ⟨has, Heap.hasAll_nil _⟩) }⟩

/-- A root with a field under the name `self`. Its text is that of the layer built on it, whichever
of the two is asked. -/
theorem root_protocol_beside_field :
    let made := do (← Registry.bootstrap).instantiateRoot
    let d := made.after Program.founded
    let s := (Program.runSteps
      [.apply (.command (.entity .field)) [.var "root", .str "self", .int 1, .str "mut"],
        .bind "layer" (.apply (.command (.entity .entity)) [.str "E", .var "root"])]).after
          { d with vars := [("root", .value (.entity ⟨6⟩))] }
    (s.heap.scope (s.heap.entity ⟨6⟩).fields).cell? "self" = some (.mutable (.int 1)) ∧
      s.heap.BuiltOn ⟨7⟩ ⟨6⟩ ∧ s.Replies ⟨6⟩ "to_string" [] (.str "<E>") ∧
        s.Replies ⟨7⟩ "to_string" [] (.str "<E>") := by
  intro made d s
  have facts : (match made Program.founded with
        | .ok root d => root = ⟨6⟩ && decide (root.index < d.heap.entities.size)
        | .error _ _ => false) = true ∧
      (s.heap.scope (s.heap.entity ⟨6⟩).fields).cell? "self" = some (.mutable (.int 1)) ∧
      (s.heap.entity ⟨7⟩).super = some ⟨6⟩ ∧ s.isLive ⟨7⟩ = true ∧ s.isLive ⟨6⟩ = true ∧
      s.heap.typeName (s.receiver ⟨6⟩) = "E" ∧ s.machine.stack.limit = none ∧
      (s.machine.countCall .method).overBudget? = none ∧
      ∀ e ∈ [(⟨6⟩ : EntityId), ⟨7⟩], ((Request.member "to_string").resolve s.heap e).map Prod.fst =
        some (s.heap.entity ⟨6⟩).members := by
    decide +kernel
  obtain ⟨makes, declared, super, layerLive, rootLive, text, unlimited, budget, inherits⟩ := facts
  have on : s.heap.BuiltOn ⟨7⟩ ⟨6⟩ := .single super
  have unbounded (limit : Nat) : s.machine.stack.limit ≠ some limit := by simp [unlimited]
  have affords : s.Affords := ⟨fun limit limited => absurd limited (unbounded limit), budget⟩
  cases bootstraps : Registry.bootstrap Program.founded with
  | error => simp [made, bind, EStateM.bind, bootstraps] at makes
  | ok registry b =>
    have is : made Program.founded = registry.instantiateRoot b := by
      simp only [made, bind, EStateM.bind, bootstraps]
    cases roots : registry.instantiateRoot b with
    | error => simp [is, roots] at makes
    | ok root t =>
      simp only [is, roots, Bool.and_eq_true, decide_eq_true_eq] at makes
      obtain ⟨rfl, rootHas⟩ := makes
      have same : t = d := by simp only [d, Action.after, is, roots]
      rw [same] at roots rootHas
      have start : Program.founded.Reachable := ⟨[], .start⟩
      have sound := sound_of_instantiateRoot start.sound bootstraps .refl roots
      have named := later_named "root" sound rootHas
      have after : d.Later s := named.trans (Program.later_runSteps (named.sound sound) _)
      clear_value s d
      have replies {e : EntityId} (among : e ∈ [(⟨6⟩ : EntityId), ⟨7⟩]) (live : s.isLive e = true)
          (on : s.heap.BuiltOn e ⟨6⟩) : s.Replies e "to_string" [] (.str "<E>") := by
        obtain ⟨-, speaks⟩ := root_protocol start bootstraps .refl roots after affords live on
        obtain ⟨⟨_, cell⟩, resolved, rfl⟩ := Option.map_eq_some_iff.1 (inherits e among)
        have reply := speaks.text ⟨cell, resolved⟩
        rw [text] at reply
        exact reply
      exact ⟨declared, on, replies (by simp) rootLive .refl, replies (by simp) layerLive on⟩

end Session

end Delegation
