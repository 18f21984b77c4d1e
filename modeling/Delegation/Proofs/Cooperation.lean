import Delegation.Proofs.Accessors
import Delegation.Proofs.Dispatch

/-!
# Methods that cooperate

A method that overrides another can pass the request on: it asks `super`, if there is anyone below
who answers, and puts what it has to say in front of the answer. Now `super` is what the layer is
built on that declares the method, not what the receiver is built on, nor what the layer is built on
that was asked. So if all layers that declare the method do so, each of them is asked once, from the
one declared highest to the one nearest the root, however many layers without a declaration there
are in between, and all of them on behalf of the same receiver.
-/

namespace Delegation

variable {s t u : Session} {run : Runner} {bodies : Body → Session → Chronicle}
  {layers : List EntityId} {top e owner base : EntityId} {name tag : String} {i j nesting : Nat}
  {declared : EntityId → Option Callable} {callable : Callable} {v : Value}

theorem Callable.length_eq_arity (callable : Callable) (nullary : callable.params = []) :
    ([] : List Value).length = callable.arity := (congrArg List.length nullary).symm

/-! ## Bodies that begin -/

/-- The binding whose body begins at a moment, with the session. -/
def Moment.serving? (moment : Moment) : Option (BindingId × Session) :=
  match moment.deed with
  | .serve b => some (b, moment.session)
  | _ => none

namespace Chronicle

/-- The bindings whose bodies begin, with the sessions in which they do. -/
def served (c : Chronicle) : List (BindingId × Session) := c.filterMap Moment.serving?

theorem served_append (c d : Chronicle) : served (c ++ d) = served c ++ served d :=
  List.filterMap_append

theorem served_cons (moment : Moment) (c : Chronicle) :
    served (moment :: c) = moment.serving?.toList ++ served c := by
  simp only [served]
  cases is : moment.serving? with
  | none => exact List.filterMap_cons_none is
  | some entry => exact List.filterMap_cons_some is

theorem served_quietly {α : Type} (action : Action α) (s : Session) :
    served (quietly action s) = [] := by
  simp only [quietly, step]
  split <;> rfl

end Chronicle

/-! ## Expressions that change nothing -/

/-- However much is held, an expression gives an object, changes nothing and runs no body. -/
def Denotes (run : Runner) (bodies : Body → Session → Chronicle) (s : Session) (e : Expr)
    (x : Object) : Prop :=
  ∀ held, eval run e { s with held } = .ok x { s with held } ∧
    (Chronicle.eval run bodies e { s with held }).served = []

/-- So do operands. -/
def DenotesAll (run : Runner) (bodies : Body → Session → Chronicle) (s : Session) (es : List Expr)
    (xs : List Object) : Prop :=
  ∀ held, evalOperands run es { s with held } = .ok xs { s with held } ∧
    (Chronicle.evalOperands run bodies es { s with held }).served = []

section Expressions

variable {x : Object} {xs : List Object} {es : List Expr} {test yes no : Expr}

theorem denotes_str (text : String) : Denotes run bodies s (.str text) (.value (.str text)) :=
  fun _ => ⟨rfl, rfl⟩

theorem denotesAll_nil : DenotesAll run bodies s [] [] := fun _ => ⟨rfl, rfl⟩

theorem denotesAll_cons {e : Expr} (first : Denotes run bodies s e x)
    (rest : DenotesAll run bodies s es xs) : DenotesAll run bodies s (e :: es) (x :: xs) := by
  intro held
  obtain ⟨gives, quiet⟩ := first held
  obtain ⟨givesAll, quietAll⟩ := rest (x :: held)
  refine ⟨?_, ?_⟩
  · simp only [evalOperands, bind, EStateM.bind, gives, holding, givesAll]
    rfl
  · simp only [Chronicle.evalOperands, Chronicle.served_append, quiet, Chronicle.next, gives,
      Chronicle.keeping, quietAll, List.nil_append]

theorem denotes_query {query : Query} (operands : DenotesAll run bodies s es xs)
    (answers : ∀ held, query.answer { s with held } xs = .ok x) :
    Denotes run bodies s (.apply (.query query) es) x := by
  intro held
  obtain ⟨gives, quiet⟩ := operands held
  have answer := answers (.list xs :: held)
  refine ⟨?_, ?_⟩
  · simp only [eval, bind, EStateM.bind, gives, Operation.act, holding, Action.get_eq_ok, answer]
    rfl
  · simp only [Chronicle.eval, Chronicle.served_append, quiet, Chronicle.next, gives, Chronicle.act,
      Chronicle.keeping, Chronicle.served_cons, Chronicle.served_quietly]
    rfl

/-- However much is held, a free name stands for a value, and looking it up runs no body. -/
def Knows (run : Runner) (bodies : Body → Session → Chronicle) (s : Session) (name : String)
    (v : Value) : Prop :=
  ∀ held, lookup run name { s with held } = .ok v { s with held } ∧
    (Chronicle.lookup run bodies name { s with held }).served = []

theorem denotes_lookup (knows : Knows run bodies s name v) :
    Denotes run bodies s (.apply (.command (.call .lookup)) [.str name]) (.value v) := by
  intro held
  obtain ⟨gives, quiet⟩ := knows (.list [.value (.str name)] :: held)
  have all : DenotesAll run bodies s [.str name] [.value (.str name)] :=
    denotesAll_cons (denotes_str name) denotesAll_nil
  obtain ⟨operand, -⟩ := all held
  have text (t : Session) :
      (liftM (Delegation.operand [Object.value (.str name)] 0 Object.asText?) : Action String) t =
        .ok name t := rfl
  refine ⟨?_, ?_⟩
  · simp only [eval, bind, EStateM.bind, operand, Operation.act, holding, Command.act,
      CallCommand.act, text, gives]
    rfl
  · simp only [Chronicle.eval, Chronicle.served_append, Chronicle.next, operand, Chronicle.act,
      Chronicle.keeping, Chronicle.served_cons, Chronicle.command, Chronicle.callCommand,
      Chronicle.given, Chronicle.step, text, quiet]
    rfl

end Expressions

theorem knows_serving {args : List Value} {receiver : EntityId}
    (enough : args.length = callable.arity) (unhidden : name ∉ callable.params)
    (is : (identityScope s.heap owner receiver).cell? name = some (.constant v)) :
    Knows run bodies (s.serving callable owner receiver args) name v := by
  intro held
  obtain ⟨x, y, rest, chain, passed, found⟩ := Session.found_serving enough unhidden is
  generalize s.serving callable owner receiver args = u at chain passed found
  refine ⟨lookup_behind (s := { u with held }) chain passed found run, ?_⟩
  have first : u.heap.findScope (x :: y :: rest) name = some y :=
    Heap.findScope_behind passed found
  have chain' : Machine.currentChain { u with held }.machine = x :: y :: rest := chain
  simp only [Chronicle.lookup, Chronicle.chainGet, Chronicle.keeping, chain', first, Chronicle.get,
    found, Chronicle.served_quietly]

/-! ## The script -/

/-- What a layer finds as `super`. -/
def superEntity : Expr := .apply (.command (.call .lookup)) [.str "super"]

/-- Puts a tag in front of what `super` answers. -/
def passOn (name tag : String) : Expr :=
  .apply (.query (.data .concat))
    [.str tag, .apply (.command (.entity .send)) [superEntity, .str name]]

/-- A script that asks `super` for a member, if it is an entity that has one, and puts a tag in
front of the answer; otherwise it gives the tag alone. -/
def cooperative (name tag : String) : Expr :=
  .cond (.apply (.query (.data .eq)) [.apply (.query (.data .typeOf)) [superEntity], .str "entity"])
    (.cond (.apply (.query (.entity .hasMember)) [superEntity, .str name]) (passOn name tag)
      (.str tag))
    (.str tag)

/-- Whether a value is an entity that has the member. -/
def Heap.answers (heap : Heap) (name : String) : Value → Bool
  | .entity e => heap.hasMember e name
  | _ => false

theorem eval_cond {test yes no : Expr} {b : Bool} (denotes : Denotes run bodies s test (.ofBool b))
    (held : List Object) :
    eval run (.cond test yes no) { s with held } =
        eval run (bif b then yes else no) { s with held } ∧
      (Chronicle.eval run bodies (.cond test yes no) { s with held }).served =
        (Chronicle.eval run bodies (bif b then yes else no) { s with held }).served := by
  obtain ⟨gives, quiet⟩ := denotes held
  refine ⟨?_, ?_⟩
  · simp only [eval, bind, EStateM.bind, gives]
    cases b <;> rfl
  · simp only [Chronicle.eval, Chronicle.served_append, quiet, Chronicle.next, gives,
      List.nil_append]
    cases b <;> rfl

theorem denotes_super (knows : Knows run bodies s "super" v) :
    Denotes run bodies s superEntity (.value v) := denotes_lookup knows

theorem denotes_isEntity (knows : Knows run bodies s "super" v) :
    Denotes run bodies s
      (.apply (.query (.data .eq)) [.apply (.query (.data .typeOf)) [superEntity], .str "entity"])
      (.ofBool (v.typeName = "entity")) := by
  have type : Denotes run bodies s (.apply (.query (.data .typeOf)) [superEntity])
      (.ofText v.typeName) :=
    denotes_query (denotesAll_cons (denotes_super knows) denotesAll_nil) fun _ => rfl
  have same : decide (Value.str v.typeName = .str "entity") = decide (v.typeName = "entity") :=
    decide_eq_decide.2 (by rw [Value.str.injEq])
  rw [← same]
  exact denotes_query (denotesAll_cons type (denotesAll_cons (denotes_str _) denotesAll_nil))
    fun _ => rfl

theorem denotes_hasMember (knows : Knows run bodies s "super" (.entity base)) :
    Denotes run bodies s (.apply (.query (.entity .hasMember)) [superEntity, .str name])
      (.ofBool (s.heap.hasMember base name)) :=
  denotes_query (denotesAll_cons (denotes_super knows) (denotesAll_cons (denotes_str _)
    denotesAll_nil)) fun _ => rfl

/-- The script passes the request on exactly if `super` is an entity that has the member. -/
theorem eval_cooperative (name tag : String) (knows : Knows run bodies s "super" v)
    (held : List Object) :
    eval run (cooperative name tag) { s with held } =
        eval run (bif s.heap.answers name v then passOn name tag else .str tag) { s with held } ∧
      (Chronicle.eval run bodies (cooperative name tag) { s with held }).served =
        (Chronicle.eval run bodies (bif s.heap.answers name v then passOn name tag else .str tag)
          { s with held }).served := by
  obtain ⟨tests, told⟩ := eval_cond (denotes_isEntity knows) held
  rw [cooperative, tests, told]
  cases v with
  | entity base => exact eval_cond (denotes_hasMember knows) held
  | _ => exact ⟨rfl, rfl⟩

theorem eval_send {held : List Object} {answer : String}
    (knows : Knows run bodies s "super" (.entity base))
    (answers : invokeMember run base name []
      { s with held := .list [.value (.entity base), .value (.str name)] :: held } =
        .ok (.str answer) t) :
    eval run (.apply (.command (.entity .send)) [superEntity, .str name]) { s with held } =
        .ok (.ofText answer) { t with held } ∧
      (Chronicle.eval run bodies (.apply (.command (.entity .send)) [superEntity, .str name])
        { s with held }).served =
        (Chronicle.invokeMember run bodies base name []
          { s with held := .list [.value (.entity base), .value (.str name)] :: held }).served := by
  obtain ⟨operands, quiet⟩ :=
    denotesAll_cons (denotes_super knows) (denotesAll_cons (denotes_str name) denotesAll_nil) held
  let xs : List Object := [.value (.entity base), .value (.str name)]
  have entity (t : Session) : (liftM (operand xs 0 Object.asEntity?) : Action EntityId) t =
      .ok base t := rfl
  have text (t : Session) : (liftM (operand xs 1 Object.asText?) : Action String) t =
      .ok name t := rfl
  have nothing (t : Session) : (liftM (operandsFrom xs 2 Object.asValue?) : Action (List Value)) t =
      .ok [] t := rfl
  refine ⟨?_, ?_⟩
  · simp only [eval, bind, EStateM.bind, operands, Operation.act, holding, Command.act,
      EntityCommand.act, entity, text, nothing, answers, xs]
    rfl
  · simp only [Chronicle.eval, Chronicle.served_append, quiet, Chronicle.next, operands,
      Chronicle.act, Chronicle.keeping, Chronicle.served_cons, Chronicle.command,
      Chronicle.entityCommand, Chronicle.given, Chronicle.step, entity, text, nothing, xs]
    rfl

theorem eval_concat (bodies : Body → Session → Chronicle) {held : List Object} {answer : String}
    {e : Expr} (gives : eval run e { s with held := .value (.str tag) :: held } =
      .ok (.ofText answer) { t with held := .value (.str tag) :: held }) :
    eval run (.apply (.query (.data .concat)) [.str tag, e]) { s with held } =
        .ok (.ofText (tag ++ answer)) { t with held } ∧
      (Chronicle.eval run bodies (.apply (.query (.data .concat)) [.str tag, e])
        { s with held }).served =
        (Chronicle.eval run bodies e { s with held := .value (.str tag) :: held }).served := by
  have joined (t : Session) : (Query.data .concat).answer t
      [.value (.str tag), .ofText answer] = .ok (.ofText (tag ++ answer)) := by
    have texts : operandsFrom [.value (.str tag), .ofText answer] 0 Object.asValue? =
        .ok [.str tag, .str answer] := rfl
    simp only [Query.answer, DataQuery.answer, texts, bind, Except.bind, List.map_cons,
      List.map_nil, Heap.display]
    exact congrArg (fun text => Except.ok (Object.ofText text)) (by simp [String.join])
  have operands : evalOperands run [.str tag, e] { s with held } =
      .ok [.value (.str tag), .ofText answer] { t with held } := by
    simp only [evalOperands, eval, bind, EStateM.bind, pure, EStateM.pure, holding, gives]
  have told : (Chronicle.evalOperands run bodies [.str tag, e] { s with held }).served =
      (Chronicle.eval run bodies e { s with held := .value (.str tag) :: held }).served := by
    simp only [Chronicle.evalOperands, Chronicle.eval, Chronicle.next, eval, pure, EStateM.pure,
      Chronicle.keeping, gives, List.nil_append, List.append_nil]
  refine ⟨?_, ?_⟩
  · simp only [eval, bind, EStateM.bind, operands, Operation.act, holding, Action.get_eq_ok, joined]
    rfl
  · simp only [Chronicle.eval, Chronicle.served_append, told, Chronicle.next, operands,
      Chronicle.act, Chronicle.keeping, Chronicle.served_cons, Chronicle.served_quietly]
    exact List.append_nil _

/-! ## Bodies that are the script -/

/-- What the script has in hand while `super` answers. -/
def inHand (base : EntityId) (name tag : String) : List Object :=
  [.list [.value (.entity base), .value (.str name)], .value (.str tag), .void]

theorem hasAll_inHand (has : s.heap.Has (.entity base)) :
    ∀ x ∈ inHand base name tag, s.heap.HasAll x.refs := by
  simp [inHand, Object.void, Object.refs, Object.refsAll, Value.owned, has]

theorem not_released_inHand (sound : s.Sound) (live : s.isLive base = true) :
    ∀ y ∈ inHand base name tag, ∀ x ∈ t.ownedBy y, s.heap.Has x → ¬s.Released x := by
  have kept := sound.isLive_iff.1 live
  simp [inHand, Object.void, Session.ownedBy, Session.ownedByAll, Value.owned, kept]

section Bodies

variable {address : Nat} (code : s.code.getD address [] = [cooperative name tag])

include code

theorem runBody_of_eval {x : Object} (gives : eval (runBody nesting) (cooperative name tag)
      { s with held := .void :: s.held } = .ok x { t with held := .void :: s.held }) :
    runBody (nesting + 1) (.script address) s = .ok x.toValue { t with held := s.held } ∧
      (Body.chronicle (nesting + 1) (.script address) s).served =
        (Chronicle.eval (runBody nesting) (Body.chronicle nesting) (cooperative name tag)
          { s with held := .void :: s.held }).served := by
  refine ⟨?_, ?_⟩
  · simp only [runBody, bind, EStateM.bind, Action.get_eq_ok, code, evalBody, holding, gives]
    rfl
  · simp only [Body.chronicle, code, Chronicle.evalBody, Chronicle.keeping, Chronicle.served_cons,
      Chronicle.next, holding, gives, List.append_nil]
    rfl

theorem runBody_of_nobody
    (knows : Knows (runBody nesting) (Body.chronicle nesting) s "super" v)
    (nobody : s.heap.answers name v = false) :
    runBody (nesting + 1) (.script address) s = .ok (.str tag) s ∧
      (Body.chronicle (nesting + 1) (.script address) s).served = [] := by
  obtain ⟨gives, told⟩ := eval_cooperative name tag knows (.void :: s.held)
  rw [nobody] at gives told
  obtain ⟨runs, tells⟩ := runBody_of_eval code gives
  exact ⟨runs, tells.trans told⟩

theorem runBody_of_answer {answer : String}
    (knows : Knows (runBody nesting) (Body.chronicle nesting) s "super" (.entity base))
    (known : s.heap.hasMember base name = true)
    (answers : invokeMember (runBody nesting) base name []
      { s with held := inHand base name tag ++ s.held } = .ok (.str answer) t) :
    runBody (nesting + 1) (.script address) s =
        .ok (.str (tag ++ answer)) { t with held := s.held } ∧
      (Body.chronicle (nesting + 1) (.script address) s).served =
        (Chronicle.invokeMember (runBody nesting) (Body.chronicle nesting) base name []
          { s with held := inHand base name tag ++ s.held }).served := by
  obtain ⟨gives, told⟩ := eval_cooperative name tag knows (.void :: s.held)
  obtain ⟨sends, asked⟩ := eval_send knows answers
  obtain ⟨joins, tells⟩ := eval_concat (Body.chronicle nesting) sends
  have passes : s.heap.answers name (.entity base) = true := known
  rw [passes] at gives told
  obtain ⟨runs, noted⟩ := runBody_of_eval code (gives.trans joins)
  exact ⟨runs, noted.trans (told.trans (tells.trans asked))⟩

end Bodies

/-! ## Overrides -/

/-- The layers below a place that declare a method, from the highest one down. -/
def overridesBelow (layers : List EntityId) (declared : EntityId → Option Callable) (i : Nat) :
    List EntityId :=
  ((layers.take i).filter fun d => (declared d).isSome).reverse

theorem overridesBelow_succ (layers : List EntityId) (declared : EntityId → Option Callable)
    (i : Nat) : overridesBelow layers declared (i + 1) =
      (layers[i]?.filter fun d => (declared d).isSome).toList ++
        overridesBelow layers declared i := by
  rw [overridesBelow, List.take_add_one, List.filter_append, List.reverse_append, overridesBelow]
  cases layers[i]? with
  | none => rfl
  | some d =>
    simp only [Option.toList_some, List.filter_cons, List.filter_nil, Option.filter]
    split <;> rfl

theorem overridesBelow_of_silent (silent : Silent layers declared i) :
    overridesBelow layers declared (i + 1) = [] := by
  rw [overridesBelow, List.reverse_eq_nil_iff, List.filter_eq_nil_iff]
  intro d listed
  obtain ⟨k, inside, rfl⟩ := List.mem_take_iff_getElem.1 listed
  rw [Nat.lt_min] at inside
  simp [silent k _ (Nat.le_of_lt_succ inside.1) (List.getElem?_eq_getElem inside.2)]

theorem overridesBelow_of_nearest (nearest : Nearest layers declared i j owner callable) :
    overridesBelow layers declared (i + 1) = owner :: overridesBelow layers declared j := by
  obtain ⟨below, layer, is, between⟩ := nearest
  induction below with
  | refl =>
    rw [overridesBelow_succ, layer, Option.filter_some, if_pos (by simp [is])]
    rfl
  | @step i below ih =>
    have none : (layers[i + 1]?.filter fun d => (declared d).isSome) = none := by
      rw [Option.filter_eq_none_iff]
      intro d here
      simp [between _ d (Nat.lt_succ_of_le below) (Nat.le_refl _) here]
    rw [overridesBelow_succ, none]
    exact ih fun k d above within => between k d above (Nat.le_succ_of_le within)

/-! ## The way down -/

/-- Bodies of methods begin one inside the other, each on behalf of the same receiver. They belong
to the given layers in turn, and the first begins one frame above a depth. -/
inductive Visits (receiver : EntityId) (declared : EntityId → Option Callable) :
    Nat → List EntityId → List (BindingId × Session) → Prop
  | none (depth : Nat) : Visits receiver declared depth [] []
  | one {depth : Nat} {owner : EntityId} {owners : List EntityId} {callable : Callable}
      {b : BindingId} {u : Session} {calls : List (BindingId × Session)}
      (declares : declared owner = some callable)
      (method : u.heap.binding b = ⟨callable, .method owner⟩) (serves : u.Serves receiver)
      (deep : u.machine.stack.depth = depth + 1)
      (rest : Visits receiver declared (depth + 1) owners calls) :
      Visits receiver declared depth (owner :: owners) ((b, u) :: calls)

namespace Session

/-- The layers of a chain that declare a method cooperate, each with a tag of its own, and calls are
not limited. The last layer is the most derived: none alive is built on it. -/
structure Cooperates (s : Session) (layers : List EntityId) (top : EntityId) (name : String)
    (declared : EntityId → Option Callable) (tag : EntityId → String) : Prop where
  reachable : s.Reachable
  tiers : s.Tiers layers top
  mostDerived : s.upgrade? top = none
  declares : s.Declares (.member name) layers declared
  scripts : ∀ d ∈ layers, ∀ callable, declared d = some callable → callable.params = [] ∧
    ∃ address, callable.body = .script address ∧
      s.code.getD address [] = [cooperative name (tag d)]
  unlimited : s.machine.stack.limit = none
  unbudgeted : s.machine.mode.callBudget = none

/-- An entity that is asked for a member answers with the tags of the given layers, whose methods
run one inside the other, and leaves the stack as it was. -/
def Answers (s : Session) (e : EntityId) (name : String) (nesting : Nat) (top : EntityId)
    (declared : EntityId → Option Callable) (tag : EntityId → String) (owners : List EntityId) :
    Prop :=
  ∃ t, invokeMember (runBody nesting) e name [] s = .ok (.str (String.join (owners.map tag))) t ∧
    t.machine.stack = s.machine.stack ∧
    Visits top declared s.machine.stack.depth owners
      (Chronicle.invokeMember (runBody nesting) (Body.chronicle nesting) e name [] s).served

variable {tag : EntityId → String}

/-- The session in which the body of a method begins that has been sent for. -/
def answering (s : Session) (callable : Callable) (owner receiver : EntityId) : Session :=
  (s.fetching callable owner).serving callable owner receiver []

/-- To send a message is to run the body of the method once, and no other body begins around it. -/
theorem invokeMember_of_finds (sound : s.Sound)
    (finds : s.heap.Finds (.member name) e owner callable) (live : s.isLive owner = true)
    (affords : s.Affords) (nullary : callable.params = []) :
    let made := s.heap.addBinding ⟨callable, .method owner⟩
    let u := s.answering callable owner (s.receiver owner)
    (∀ run, invokeMember run e name [] s =
      unwind (leave { s with heap := made.2 }) traced (run callable.body u)) ∧
    ∀ run bodies, (Chronicle.invokeMember run bodies e name [] s).served =
      (made.1, u) :: (bodies callable.body u).served := by
  intro made u
  obtain ⟨steady, -⟩ := sound.steady_fetching live callable
  have receiver : (s.fetching callable owner).receiver owner = s.receiver owner :=
    steady.receiver sound (sound.has_of_isLive live)
  have enough := callable.length_eq_arity nullary
  have due : Due { s with heap := made.2 } made.1 [] callable.body u := by
    have attached : made.2.binding made.1 = ⟨callable, .method owner⟩ := Heap.binding_addBinding _ _
    show Due _ _ _ _ (s.answering callable owner (s.receiver owner))
    rw [← receiver]
    exact .method (.inl attached) enough
  have surrounds := due.surrounds ⟨affords.depth, affords.budget⟩
  have reads := getMember_of_finds finds live
  refine ⟨fun run => ?_, fun run bodies => ?_⟩
  · simp only [invokeMember, bind, EStateM.bind, reads]
    exact surrounds.runs run
  · obtain ⟨frame, entered, told⟩ := surrounds.told
    obtain ⟨left, told⟩ := told run bodies
    obtain ⟨b, resolved, -⟩ := finds.resolved
    have leads : s.heap.resolve (s.heap.entity e).members name =
        some ((s.heap.entity owner).members, .constant (.binding b)) := resolved
    have quiet : (Chronicle.getMember run bodies e name s).served = [] := by
      rw [Chronicle.getMember_of_resolve leads]
      simp only [Chronicle.get, leads, Chronicle.served_quietly]
    simp only [Chronicle.invokeMember, Chronicle.served_append, quiet, Chronicle.next, reads,
      Chronicle.callValue]
    refine (congrArg Chronicle.served told).trans ?_
    simp only [Chronicle.served_append, Chronicle.served_cons]
    exact congrArg (_ :: ·) (List.append_nil _)

/-- In the body everything is as it was, and nobody has died or come back to life. -/
theorem Sound.sustains_answering (sound : s.Sound) (live : s.isLive owner = true)
    (topLive : s.isLive top = true) (nullary : callable.params = []) :
    s.Sustains (s.answering callable owner top) ∧ ∀ d, s.heap.Has (.entity d) →
      (s.answering callable owner top).isLive d = s.isLive d := by
  obtain ⟨steady, later⟩ := sound.steady_fetching live callable
  have enough := callable.length_eq_arity nullary
  have fetched := steady.sustains sound later
  have still := fetched.lives owner live
  have topStill := fetched.lives top topLive
  have begins := steady.sound.sustains_serving (steady.sound.has_of_isLive still)
    (steady.sound.has_of_isLive topStill) (List.forall_mem_nil _) enough
  refine ⟨fetched.trans begins, fun d has => ?_⟩
  have same := steady.sound.isLive_serving still topStill (List.forall_mem_nil _)
    (List.forall_mem_nil _) enough (later.heap.grows.has _ has)
  exact same.trans (steady.isLive_eq sound has)

/-- In a body the layers cooperate as they did before. What the body takes in hand is one of them, so
a layer on top that was dead stays dead. -/
theorem Cooperates.within (cooperates : s.Cooperates layers top name declared tag)
    (place : owner ∈ layers) (asked : base ∈ layers) (nullary : callable.params = [])
    (text : String) :
    let u := s.answering callable owner top
    Cooperates { u with held := inHand base name text ++ u.held } layers top name declared tag := by
  intro u
  have sound := cooperates.reachable.sound
  have tiers := cooperates.tiers
  obtain ⟨began, same⟩ := sound.sustains_answering (tiers.isLive sound place) tiers.live nullary
  have soundInside : u.Sound := began.later.sound sound
  have baseLive : u.isLive base = true := began.lives base (tiers.isLive sound asked)
  have known : ∀ x ∈ inHand base name text, u.heap.HasAll x.refs :=
    hasAll_inHand (soundInside.has_of_isLive baseLive)
  have held := soundInside.steady_hold known (not_released_inHand soundInside baseLive)
  have sustains := began.trans (held.sustains soundInside (soundInside.later_hold known).1)
  have mostDerived := sound.upgrade?_congr (sound.has_of_isLive tiers.live)
    (congrArg Entity.derived (sustains.entity top)) fun d has =>
      (held.isLive_eq soundInside (began.later.heap.grows.has _ has)).trans (same d has)
  exact ⟨cooperates.reachable.later sustains.later, tiers.sustained sustains,
    mostDerived.trans cooperates.mostDerived, cooperates.declares.sustained sound tiers sustains,
    cooperates.scripts, cooperates.unlimited, cooperates.unbudgeted⟩

theorem Cooperates.affords (cooperates : s.Cooperates layers top name declared tag) :
    s.Affords where
  depth limit limited := absurd (cooperates.unlimited.symm.trans limited) nofun
  budget := by
    have none : (s.machine.countCall .method).mode.callBudget = none := cooperates.unbudgeted
    simp only [Machine.overBudget?, none]

theorem Cooperates.knows_super {run : Runner} {bodies : Body → Session → Chronicle}
    {below : Option EntityId} (cooperates : s.Cooperates layers top name declared tag)
    (here : layers[j]? = some owner) (nullary : callable.params = [])
    (is : layerBelow layers j = below) :
    Knows run bodies (s.answering callable owner top) "super" (.ofEntity? below) := by
  rw [← is, ← cooperates.tiers.super_eq here]
  exact knows_serving (callable.length_eq_arity nullary) (by simp [nullary]) (cell?_super _ _ _)

section Answers

variable (cooperates : s.Cooperates layers top name declared tag) (here : layers[i]? = some e)
  (nearest : Nearest layers declared i j owner callable)

include cooperates here nearest

theorem Cooperates.answers_of_body {rest : List EntityId} (nullary : callable.params = [])
    (ends : runBody nesting callable.body (s.answering callable owner top) =
      .ok (.str (tag owner ++ String.join (rest.map tag))) t)
    (stack : t.machine.stack = (s.answering callable owner top).machine.stack)
    (visits : Visits top declared (s.machine.stack.depth + 1) rest
      (Body.chronicle nesting callable.body (s.answering callable owner top)).served) :
    s.Answers e name nesting top declared tag (owner :: rest) := by
  have sound := cooperates.reachable.sound
  have place := List.mem_of_getElem? nearest.layer
  have live := cooperates.tiers.isLive sound place
  have finds := finds_of_nearest sound cooperates.tiers cooperates.declares here nearest
  obtain ⟨runs, told⟩ := invokeMember_of_finds sound finds live cooperates.affords nullary
  rw [cooperates.tiers.receiver sound cooperates.mostDerived place] at runs told
  refine ⟨leave { s with heap := (s.heap.addBinding ⟨callable, .method owner⟩).2 } t, ?_, ?_, ?_⟩
  · rw [runs, ends, List.map_cons, String.join_cons]
    rfl
  · show t.machine.stack.pop = s.machine.stack
    rw [stack]
    rfl
  · rw [told]
    exact .one nearest.declares (Heap.binding_addBinding _ _)
      (serves_serving (callable.length_eq_arity nullary) (by simp [nullary])) rfl visits

theorem Cooperates.answers_alone (nesting : Nat)
    (nobody : (s.answering callable owner top).heap.answers name
      (.ofEntity? (layerBelow layers j)) = false) :
    s.Answers e name (nesting + 1) top declared tag [owner] := by
  obtain ⟨nullary, address, body, code⟩ :=
    cooperates.scripts owner (List.mem_of_getElem? nearest.layer) callable nearest.declares
  let u := s.answering callable owner top
  obtain ⟨runs, told⟩ :=
    runBody_of_nobody (s := u) code (cooperates.knows_super nearest.layer nullary rfl) nobody
  rw [← body] at runs told
  refine cooperates.answers_of_body here nearest nullary (t := u) ?_ rfl ?_
  · rw [runs, List.map_nil, String.join_nil, String.append_empty]
  · rw [told]
    exact .none _

theorem Cooperates.answers_on {owners : List EntityId} (below : layerBelow layers j = some base)
    (known : (s.answering callable owner top).heap.hasMember base name = true)
    (further : Answers
      { s.answering callable owner top with
        held := inHand base name (tag owner) ++ (s.answering callable owner top).held }
      base name nesting top declared tag owners) :
    s.Answers e name (nesting + 1) top declared tag (owner :: owners) := by
  obtain ⟨nullary, address, body, code⟩ :=
    cooperates.scripts owner (List.mem_of_getElem? nearest.layer) callable nearest.declares
  let u := s.answering callable owner top
  have knows : Knows (runBody nesting) (Body.chronicle nesting) u "super" (.entity base) :=
    cooperates.knows_super nearest.layer nullary below
  obtain ⟨t, ends, stack, visits⟩ := further
  obtain ⟨runs, told⟩ := runBody_of_answer (s := u) code knows known ends
  rw [← body] at runs told
  exact cooperates.answers_of_body here nearest nullary runs stack (told ▸ visits)

/-- Whichever layer is asked, the nearest one that declares the method answers, and with it all that
are below it. -/
theorem Cooperates.answers (enough : (overridesBelow layers declared (i + 1)).length ≤ nesting) :
    s.Answers e name nesting top declared tag (overridesBelow layers declared (i + 1)) := by
  -- The layer below the one that declares the method is lower than the one that is asked.
  induction i using Nat.strongRecOn generalizing s e j owner callable nesting with
  | ind i ih =>
    rw [overridesBelow_of_nearest nearest] at enough ⊢
    obtain ⟨nesting, rfl⟩ := Nat.exists_eq_add_of_le' (Nat.le_trans (Nat.le_add_left 1 _) enough)
    have remaining : (overridesBelow layers declared j).length ≤ nesting :=
      Nat.le_of_succ_le_succ enough
    cases j with
    | zero => exact cooperates.answers_alone here nearest nesting rfl
    | succ k =>
      have place := List.mem_of_getElem? nearest.layer
      have nullary := (cooperates.scripts owner place callable nearest.declares).1
      have inside : k < layers.length :=
        Nat.lt_of_succ_lt (List.getElem?_eq_some_iff.1 nearest.layer).1
      have below : layerBelow layers (k + 1) = some layers[k] := List.getElem?_eq_getElem inside
      let u := s.answering callable owner top
      have carried : Cooperates { u with held := inHand layers[k] name (tag owner) ++ u.held }
          layers top name declared tag :=
        cooperates.within place (List.getElem_mem inside) nullary (tag owner)
      rcases silent_or_nearest layers declared k inside with silent | ⟨j', owner', callable', lower⟩
      · have nothing :=
          resolve_of_silent carried.reachable.sound carried.tiers carried.declares below silent
        rw [overridesBelow_of_silent silent]
        refine cooperates.answers_alone here nearest nesting ?_
        rw [below]
        exact (Heap.contains_eq_isSome_resolve _ _ _).trans (congrArg Option.isSome nothing)
      · have finds := finds_of_nearest carried.reachable.sound carried.tiers carried.declares
          below lower
        obtain ⟨b, leads, -⟩ := finds.resolved
        exact cooperates.answers_on here nearest below (Heap.hasMember_of_resolve leads)
          (ih k (Nat.lt_of_succ_le nearest.below) carried below lower remaining)

end Answers

/-- If the layers that declare a method cooperate, of which there is at least one, the last layer
answers with the tags of all of them, from the highest one down to the one nearest the root. The
body of each runs once, inside that of the one before and on behalf of the last layer, and in the
end the stack is as it was. -/
theorem cooperation (cooperates : s.Cooperates layers top name declared tag)
    (declaring : ∃ d ∈ layers, (declared d).isSome = true) :
    let owners := (layers.filter fun d => (declared d).isSome).reverse
    owners ≠ [] ∧ owners.Nodup ∧
      ∀ nesting, owners.length ≤ nesting → s.Answers top name nesting top declared tag owners := by
  intro owners
  have all : overridesBelow layers declared layers.length = owners := by
    rw [overridesBelow, List.take_length]
  obtain ⟨d, place, declares⟩ := declaring
  have listed : d ∈ owners := List.mem_reverse.2 (List.mem_filter.2 ⟨place, declares⟩)
  have distinct := cooperates.tiers.nodup cooperates.reachable.sound
  refine ⟨List.ne_nil_of_mem listed, List.nodup_reverse.2 (distinct.filter _),
    fun nesting enough => ?_⟩
  obtain ⟨i, count⟩ := Nat.exists_eq_add_one.2 (List.length_pos_of_mem place)
  rw [count] at all
  have here : layers[i]? = some top := by
    rw [← cooperates.tiers.last, List.getLast?_eq_getElem?, count, Nat.add_sub_cancel]
  rw [← all] at enough ⊢
  rcases silent_or_nearest layers declared i (count ▸ Nat.lt_succ_self i) with
    silent | ⟨j, owner, callable, nearest⟩
  · rw [← all, overridesBelow_of_silent silent] at listed
    cases listed
  · exact cooperates.answers here nearest enough

/-- Of three layers the highest and the lowest cooperate, past the one between them and below one
that has been dropped. -/
theorem cooperation_past_silent_layer : ∃ (s : Session) (declared : EntityId → Option Callable)
    (tag : EntityId → String) (t : Session),
      s.Cooperates [⟨0⟩, ⟨1⟩, ⟨2⟩] ⟨2⟩ "m" declared tag ∧ declared ⟨1⟩ = none ∧
      (s.heap.entity ⟨2⟩).derived = some ⟨3⟩ ∧
      invokeMember (runBody 2) ⟨2⟩ "m" [] s = .ok (.str "CA") t ∧
      Visits ⟨2⟩ declared s.machine.stack.depth [⟨2⟩, ⟨0⟩]
        (Chronicle.invokeMember (runBody 2) (Body.chronicle 2) ⟨2⟩ "m" [] s).served := by
  let lower : Callable := .nullary "m" (.script 0)
  let upper : Callable := .nullary "m" (.script 1)
  let built (name base : String) : Expr :=
    .apply (.command (.entity .entity)) [.str name, .var base]
  let steps : List Expr := [.bind "a" (.apply (.command (.entity .entity)) [.str "A"]),
    .bind "b" (built "B" "a"), .bind "c" (built "C" "b"), built "D" "c"]
  let first := declareMethod ⟨0⟩ "m" lower
  let second := declareMethod ⟨2⟩ "m" upper
  obtain ⟨s, reachable, has, succeeds, next, facts⟩ : ∃ s : Session, s.Reachable ∧
      2 < s.heap.entities.size ∧ first.succeeds s = true ∧ second.succeeds (first.after s) = true ∧
      let t := second.after (first.after s)
      t.isLive ⟨2⟩ = true ∧ (t.heap.entity ⟨0⟩).super = none ∧
        (t.heap.entity ⟨1⟩).super = some ⟨0⟩ ∧ (t.heap.entity ⟨2⟩).super = some ⟨1⟩ ∧
        (t.heap.entity ⟨2⟩).derived = some ⟨3⟩ ∧ t.upgrade? ⟨2⟩ = none ∧
        (Request.member "m").own t.heap ⟨1⟩ = none ∧
        t.machine.stack.limit = none ∧ t.machine.mode.callBudget = none :=
    ⟨_, Program.reachable_runSteps {} steps, by decide +kernel⟩
  have fit := reachable.sound.fit
  have lowerHas : s.heap.Has (.entity ⟨0⟩) := Nat.lt_trans Nat.zero_lt_two has
  have began : s.Later (first.after s) :=
    (runs_declareMethod fit lowerHas "m" lower).after.steps fit
  have upperHas : (first.after s).heap.Has (.entity ⟨2⟩) := began.heap.grows.has _ has
  have fit' := (began.sound reachable.sound).fit
  have went : (first.after s).Later (second.after (first.after s)) :=
    (runs_declareMethod fit' upperHas "m" upper).after.steps fit'
  have lowest : Declared _ (.member "m") ⟨0⟩ lower :=
    ⟨s, _, reachable, lowerHas, Action.eq_ok_of_succeeds succeeds, went⟩
  have highest : Declared (second.after (first.after s)) (.member "m") ⟨2⟩ upper :=
    ⟨_, _, reachable.later began, upperHas, Action.eq_ok_of_succeeds next, .refl⟩
  have reached := reachable.later (began.trans went)
  generalize second.after (first.after s) = u at facts lowest highest reached
  let t := { u with code := #[[cooperative "m" "A"], [cooperative "m" "C"]] }
  have beside : u.Beside t := ⟨rfl, rfl, rfl, rfl, rfl, rfl⟩
  have coded : u.Later t := .single ⟨.inl rfl, { reached.sound.toGrounded with }⟩
  have nothing : t.held = [] ++ u.held := rfl
  have steady : u.Steady t :=
    beside.steady (coded.sound reached.sound) rfl nothing nofun (.inl rfl)
  obtain ⟨live, bottom, middle, above, dropped, dead, silent, unlimited, unbudgeted⟩ := facts
  have tiers : t.Tiers [⟨0⟩, ⟨1⟩, ⟨2⟩] ⟨2⟩ :=
    ⟨by simpa using bottom, .cons_cons middle (.cons_cons above (.singleton _)), rfl,
      (steady.sustains reached.sound coded).lives _ live⟩
  have same : t.upgrade? ⟨2⟩ = u.upgrade? ⟨2⟩ := reached.sound.upgrade?_congr
    (reached.sound.has_of_isLive live) rfl fun _ => steady.isLive_eq reached.sound
  let declared (e : EntityId) : Option Callable :=
    if e = ⟨0⟩ then some lower else if e = ⟨2⟩ then some upper else none
  let tag (e : EntityId) : String := if e = ⟨0⟩ then "A" else "C"
  have each {holds : EntityId → Prop} (zero : holds ⟨0⟩) (one : holds ⟨1⟩) (two : holds ⟨2⟩) :
      ∀ d ∈ [(⟨0⟩ : EntityId), ⟨1⟩, ⟨2⟩], holds d := by
    simp [zero, one, two]
  have declares : t.Declares (.member "m") [⟨0⟩, ⟨1⟩, ⟨2⟩] declared := by
    refine ⟨each ?_ (fun _ => nofun) ?_, each nofun (fun _ => silent) nofun⟩
    · rintro _ ⟨⟩
      exact lowest.later coded
    · rintro _ ⟨⟩
      exact highest.later coded
  have scripts : ∀ d ∈ [(⟨0⟩ : EntityId), ⟨1⟩, ⟨2⟩], ∀ callable, declared d = some callable →
      callable.params = [] ∧ ∃ address, callable.body = .script address ∧
        t.code.getD address [] = [cooperative "m" (tag d)] := by
    refine each ?_ (fun _ => nofun) ?_
    · rintro _ ⟨⟩
      exact ⟨rfl, 0, rfl, rfl⟩
    · rintro _ ⟨⟩
      exact ⟨rfl, 1, rfl, rfl⟩
  have cooperates : t.Cooperates [⟨0⟩, ⟨1⟩, ⟨2⟩] ⟨2⟩ "m" declared tag :=
    ⟨reached.later coded, tiers, same.trans dead, declares, scripts, unlimited, unbudgeted⟩
  obtain ⟨-, -, answers⟩ := cooperation cooperates ⟨⟨0⟩, List.mem_cons_self, rfl⟩
  obtain ⟨v, ends, -, visits⟩ := answers 2 (Nat.le_refl _)
  exact ⟨t, declared, tag, v, cooperates, rfl, dropped, ends, visits⟩

end Session

end Delegation
