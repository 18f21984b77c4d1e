import Delegation.Proofs.Run.Queries
import Delegation.Proofs.Secrecy.Rules

/-!
# Queries do not see a secret

What is read from operands that lead to nothing lost leads to nothing lost, and a query on such
operands has the same answer whichever of the two tables is in place, unless it asks for the table.
-/

namespace Delegation

open Object

variable {α β : Type} {secret : Secret} {s : Session} {xs : List Object}

/-! ## Operands -/

theorem Secret.clear_refsAll (bare : ∀ x ∈ xs, secret.Bare x) : secret.Clear (refsAll xs) := by
  intro y place
  obtain ⟨x, listed, refers⟩ := mem_refsAll.1 place
  exact (bare x listed).refs y refers

theorem Secret.bare_getD (bare : ∀ x ∈ xs, secret.Bare x) (i : Nat) :
    secret.Bare (xs.getD i .void) := by
  rw [List.getD_eq_getElem?_getD]
  cases there : xs[i]? with
  | none => exact Secret.bare_of_nil rfl
  | some x => exact bare x (List.mem_of_getElem? there)

section Operands

variable (bare : ∀ x ∈ xs, secret.Bare x) {i : Nat} {read : Object → Option α} {a : α}

include bare

/-- What an operand refers to in the heap is not lost. -/
theorem operand_clear {refs : α → List Node} (reads : Reads read refs)
    (is : operand xs i read = .ok a) : secret.Clear (refs a) :=
  (Secret.clear_refsAll bare).subset (operand_subset reads is)

theorem operand_found {node : α → Node} (reads : Reads read fun a => [node a])
    (is : operand xs i read = .ok a) : ¬secret.lost (.node (node a)) :=
  operand_clear bare reads is _ (List.mem_singleton.2 rfl)

theorem operandsFrom_clear {refs : α → List Node} {as : List α} (reads : Reads read refs)
    (is : operandsFrom xs i read = .ok as) : ∀ a ∈ as, secret.Clear (refs a) :=
  fun a place => (Secret.clear_refsAll bare).subset (operandsFrom_subset reads is a place)

/-- An operand that names a shared thing. -/
theorem operand_names {thing : α → Thing} (names : ∀ x a, read x = some a → thing a ∈ x.things)
    (is : operand xs i read = .ok a) : ¬secret.lost (thing a) :=
  Secret.bare_getD bare i _ (names _ a (operand_eq_ok is))

end Operands

theorem names_asChain (x : Object) (c : ChainId) (is : asChain? x = some c) :
    Thing.chain c ∈ x.things := by
  cases x <;> cases is
  exact List.mem_singleton.2 rfl

theorem names_asStack (x : Object) (c : StackId) (is : asStack? x = some c) :
    Thing.stack c ∈ x.things := by
  cases x <;> cases is
  exact List.mem_singleton.2 rfl

theorem names_asBuilder (x : Object) (b : BuilderId) (is : asBuilder? x = some b) :
    Thing.builder b ∈ x.things := by
  cases x <;> cases is
  exact List.mem_singleton.2 rfl

theorem names_asMachine (x : Object) (m : MachineId) (is : asMachine? x = some m) :
    Thing.machine m ∈ x.things := by
  cases x <;> cases is
  exact List.mem_singleton.2 rfl

/-- A stack that may be left out is not lost if it is there. -/
theorem operand_target {i : Nat} {target : Option StackId} (bare : ∀ x ∈ xs, secret.Bare x)
    (is : operand xs i (orVoid? asStack?) = .ok target) :
    ∀ c, target = some c → ¬secret.lost (.stack c) := by
  rintro c rfl
  have read := operand_eq_ok is
  unfold orVoid? at read
  split at read
  · cases read
  · obtain ⟨_, names, same⟩ := Option.map_eq_some_iff.1 read
    cases same
    exact Secret.bare_getD bare i _ (names_asStack _ c names)

/-- The thing that names are looked for in. -/
def Thing.ofTable : ScopeId ⊕ ChainId → Thing
  | .inl x => .node (.scope x)
  | .inr c => .chain c

theorem names_asTable (x : Object) (table : ScopeId ⊕ ChainId) (is : asTable? x = some table) :
    Thing.ofTable table ∈ x.things := by
  cases x <;> cases is <;> exact List.mem_singleton.2 rfl

/-! ## What is found out -/

/-- What is found out with one of the tables in place is found out with the other as well, and
meets a condition. -/
structure Unveiled (found found' : Except Stop α) (post : α → Prop) : Prop where
  same : found' = found
  holds : ∀ a, found = .ok a → post a

section Rules

variable {post : α → Prop}

theorem unveiled_pure {a a' : α} (same : a' = a) (holds : post a) :
    Unveiled (pure a) (pure a') post := by
  refine ⟨congrArg Pure.pure same, fun b is => ?_⟩
  cases is
  exact holds

theorem unveiled_error (stop : Stop) : Unveiled (.error stop) (.error stop) post := ⟨rfl, nofun⟩

theorem unveiled_bind {found : Except Stop β} {next next' : β → Except Stop α}
    (rest : ∀ b, found = .ok b → Unveiled (next b) (next' b) post) :
    Unveiled (found >>= next) (found >>= next') post := by
  cases found with
  | error stop => exact ⟨rfl, nofun⟩
  | ok b => exact rest b rfl

theorem unveiled_plain {found : Except Stop β} {answer answer' : β → Object}
    (same : ∀ b, found = .ok b → answer' b = answer b) (plain : ∀ b, (answer b).things = []) :
    Unveiled (found >>= fun b => pure (answer b)) (found >>= fun b => pure (answer' b))
      secret.Bare :=
  unveiled_bind fun b is => unveiled_pure (same b is) (Secret.bare_of_nil (plain b))

end Rules

theorem things_ofOption {f : α → Object} (plain : ∀ a, (f a).things = []) (found : Option α) :
    (ofOption f found).things = [] := by
  cases found with
  | none => rfl
  | some a => exact plain a

theorem things_ofTexts (texts : List String) : (ofTexts texts).things = [] := by
  unfold ofTexts Object.things
  induction texts with
  | nil => rfl
  | cons text texts ih => exact ih

theorem Secret.bare_ofOption {f : α → Object} {found : Option α}
    (bare : ∀ a, found = some a → secret.Bare (f a)) : secret.Bare (ofOption f found) := by
  cases found with
  | none => exact Secret.bare_of_nil rfl
  | some a => exact bare a rfl

theorem Secret.bare_scope {x : ScopeId} (found : ¬secret.lost (.node (.scope x))) :
    secret.Bare (.scope x) := List.forall_mem_singleton.2 found

theorem Secret.bare_entity {e : EntityId} (found : ¬secret.lost (.node (.entity e))) :
    secret.Bare (ofEntity e) := List.forall_mem_singleton.2 found

theorem Secret.bare_ofScopes {chain : Chain} (clear : secret.Clear (Chain.owned chain)) :
    secret.Bare (ofScopes chain) :=
  Secret.bare_list.2 (List.forall_mem_map.2 fun x place =>
    Secret.bare_scope (Secret.clear_chain.1 clear x place))

/-! ## Answers -/

theorem Session.Hides.stackOr (hides : s.Hides secret) {target : Option StackId}
    (found : ∀ c, target = some c → ¬secret.lost (.stack c)) :
    secret.Clear (s.stackOr target).owned := by
  cases target with
  | none => exact hides.stack
  | some c => exact hides.sharedStacks c (found c rfl)

section Answers

variable (hides : s.Hides secret) (bare : ∀ x ∈ xs, secret.Bare x)

include bare

theorem unveiled_data (query : DataQuery) :
    Unveiled (query.answer s xs) (query.answer (s.veil secret) xs) secret.Bare := by
  cases query with
  | list => exact unveiled_pure rfl (Secret.bare_list.2 bare)
  | nth =>
    apply unveiled_bind
    intro items read
    apply unveiled_bind
    intro i _
    have itemsBare : secret.Bare (.list items) := by
      have given := Secret.bare_getD bare 0
      have is := operand_eq_ok read
      revert given is
      cases xs.getD 0 .void <;> intro given is <;> cases is
      exact given
    split
    · next x found =>
      exact unveiled_pure rfl (Secret.bare_list.1 itemsBare x (List.mem_of_getElem? found))
    · exact unveiled_error _
  | add | sub | lt | eq | same =>
    exact unveiled_bind fun _ _ => unveiled_plain (fun _ _ => rfl) fun _ => rfl
  | concat | display | typeOf | isVoid | debug =>
    exact unveiled_plain (fun _ _ => rfl) fun _ => rfl

omit bare in
theorem unveiled_failure (query : FailureQuery) :
    Unveiled (query.answer xs) (query.answer xs) secret.Bare := by
  cases query with
  | isIdentifier | isHook | error | errStrip =>
    exact unveiled_plain (fun _ _ => rfl) fun _ => rfl
  | accepts | errNote =>
    exact unveiled_bind fun _ _ => unveiled_plain (fun _ _ => rfl) fun _ => rfl
  | fail | raise => exact unveiled_bind fun _ _ => unveiled_error _
  | errTrace =>
    exact unveiled_bind fun _ _ => unveiled_bind fun _ _ =>
      unveiled_plain (fun _ _ => rfl) fun _ => rfl
  | traceText | traceLen | traceIsEmpty =>
    exact unveiled_plain (fun _ _ => rfl) fun _ => things_ofOption (fun _ => rfl) _

include hides

theorem unveiled_table (query : TableQuery) :
    Unveiled (query.answer s xs) (query.answer (s.veil secret) xs) secret.Bare := by
  cases query with
  | mutable | constant =>
    apply unveiled_bind
    intro v read
    have valueClear := operand_clear bare reads_asValue read
    exact unveiled_pure rfl (Secret.bare_of_map rfl valueClear)
  | computed =>
    apply unveiled_bind
    intro getter read
    apply unveiled_bind
    intro setter read'
    have getterFound := operand_found bare reads_asBinding read
    have setterClear := operand_clear bare (reads_orVoid reads_asBinding) read'
    refine unveiled_pure rfl (Secret.bare_of_map rfl (Secret.clear_cons.2 ⟨getterFound, ?_⟩))
    cases setter with
    | none => exact Secret.clear_nil
    | some b => exact setterClear
  | contains =>
    apply unveiled_bind
    intro name _
    apply unveiled_bind
    intro table read
    have found := operand_names bare names_asTable read
    cases table with
    | inl x =>
      exact unveiled_pure (congrArg ofBool (hides.heap.contains_veil found name))
        (Secret.bare_of_nil rfl)
    | inr c =>
      have clear := Secret.clear_chain.1 (hides.chains c found)
      refine unveiled_pure (congrArg ofBool ?_) (Secret.bare_of_nil rfl)
      rw [Bool.eq_iff_iff, List.any_eq_true, List.any_eq_true]
      refine exists_congr fun x => and_congr_right fun place => ?_
      exact iff_of_eq (congrArg (· = true) (hides.heap.contains_veil (clear x place) name))
  | containsLocal =>
    refine unveiled_bind fun x read => unveiled_plain (fun name _ => ?_) fun _ => rfl
    have found := operand_found bare reads_asScope read
    exact congrArg (fun scope => ofBool (Scope.declares scope name))
      (hides.heap.scope_veil_of_open found)
  | cellKind =>
    apply unveiled_bind
    intro x read
    apply unveiled_bind
    intro name _
    have found := operand_found bare reads_asScope read
    refine unveiled_pure (congrArg _ (hides.heap.cellKind?_veil found name)) ?_
    exact Secret.bare_of_nil (things_ofOption (fun _ => rfl) _)
  | symbols =>
    refine unveiled_plain (fun x read => ?_) fun _ => things_ofTexts _
    have found := operand_found bare reads_asScope read
    exact congrArg (fun scope => ofTexts (Scope.symbols scope))
      (hides.heap.scope_veil_of_open found)
  | len =>
    apply unveiled_bind
    intro table read
    have found := operand_names bare names_asTable read
    cases table with
    | inl x =>
      exact unveiled_pure (congrArg (fun scope => ofNat (Scope.cells scope).length)
        (hides.heap.scope_veil_of_open found)) (Secret.bare_of_nil rfl)
    | inr c => exact unveiled_pure rfl (Secret.bare_of_nil rfl)
  | isEmpty =>
    apply unveiled_bind
    intro table read
    have found := operand_names bare names_asTable read
    cases table with
    | inl x =>
      exact unveiled_pure (congrArg (fun scope => ofBool (Scope.cells scope).isEmpty)
        (hides.heap.scope_veil_of_open found)) (Secret.bare_of_nil rfl)
    | inr c => exact unveiled_pure rfl (Secret.bare_of_nil rfl)
  | parent =>
    apply unveiled_bind
    intro x read
    have found := operand_found bare reads_asScope read
    refine unveiled_pure (congrArg (fun scope => ofOption .scope (Scope.parent scope))
      (hides.heap.scope_veil_of_open found)) (Secret.bare_ofOption fun parent is => ?_)
    exact Secret.bare_scope (hides.heap.path found (List.mem_cons_of_mem x
      (List.mem_of_mem_head? is)))
  | chainScopes =>
    apply unveiled_bind
    intro c read
    have found := operand_names bare names_asChain read
    exact unveiled_pure rfl (Secret.bare_ofScopes (hides.chains c found))

theorem unveiled_entity (query : EntityQuery)
    (spares : (Operation.query (.entity query)).opens secret.owner xs = false) :
    Unveiled (query.answer s xs) (query.answer (s.veil secret) xs) secret.Bare := by
  cases query with
  | entityName | typeName => exact unveiled_plain (fun _ _ => rfl) fun _ => rfl
  | isMostDerived =>
    refine unveiled_plain (fun e _ => ?_) fun _ => rfl
    rw [hides.receiver_veil]
  | typeDef =>
    refine unveiled_bind fun e read => unveiled_pure rfl (Secret.bare_ofOption fun type is => ?_)
    exact Secret.bare_entity (hides.heap.type (operand_found bare reads_asEntity read) is)
  | superEntity =>
    refine unveiled_bind fun e read => unveiled_pure rfl (Secret.bare_ofOption fun base is => ?_)
    exact Secret.bare_entity (hides.heap.super (operand_found bare reads_asEntity read) is)
  | receiver =>
    refine unveiled_bind fun e read => unveiled_pure (congrArg _ (hides.receiver_veil e)) ?_
    exact Secret.bare_entity (hides.receiver (operand_found bare reads_asEntity read))
  | weak =>
    refine unveiled_bind fun e read => unveiled_pure rfl ?_
    exact List.forall_mem_singleton.2 (operand_found bare reads_asEntity read)
  | upgrade =>
    apply unveiled_bind
    intro e read
    have found := operand_found bare reads_asWeak read
    rw [hides.isLive_veil]
    refine unveiled_pure rfl ?_
    split
    · exact Secret.bare_entity found
    · exact Secret.bare_of_nil rfl
  | fields =>
    refine unveiled_bind fun e read => unveiled_pure rfl (Secret.bare_scope ?_)
    refine hides.heap.fields (operand_found bare reads_asEntity read) fun same => ?_
    rw [Operation.opens, operand_eq_ok read, same] at spares
    exact absurd spares (by simp)
  | hooks =>
    refine unveiled_bind fun e read => unveiled_pure rfl (Secret.bare_scope ?_)
    exact hides.heap.hooks (operand_found bare reads_asEntity read)
  | members | publicView =>
    refine unveiled_bind fun e read => unveiled_pure rfl (Secret.bare_scope ?_)
    exact hides.heap.members (operand_found bare reads_asEntity read)
  | hasMember =>
    refine unveiled_bind fun e read => unveiled_plain (fun name _ => ?_) fun _ => rfl
    have found := operand_found bare reads_asEntity read
    exact congrArg ofBool (hides.hasMember_veil found name)
  | supportsHook =>
    refine unveiled_bind fun e read => unveiled_plain (fun name _ => ?_) fun _ => rfl
    have found := operand_found bare reads_asEntity read
    exact congrArg ofBool (hides.supportsHook_veil found name)

theorem unveiled_binding (query : BindingQuery) :
    Unveiled (query.answer s xs) (query.answer (s.veil secret) xs) secret.Bare := by
  cases query with
  | kind | name | arity | callable => exact unveiled_plain (fun _ _ => rfl) fun _ => rfl
  | owner =>
    apply unveiled_bind
    intro b read
    have strategyClear := hides.heap.binding (operand_found bare reads_asBinding read)
    refine unveiled_pure (congrArg _ (hides.owner?_veil b)) (Secret.bare_ofOption fun e is => ?_)
    refine Secret.bare_entity ?_
    unfold Session.owner? at is
    split at is
    · next strategy =>
      cases is
      rw [strategy] at strategyClear
      exact (Secret.clear_cons.1 strategyClear).1
    · next strategy =>
      rw [strategy] at strategyClear
      split at is <;> cases is
      exact (Secret.clear_cons.1 strategyClear).1
    · cases is
    · cases is
  | captured =>
    apply unveiled_bind
    intro b read
    have strategyClear := hides.heap.binding (operand_found bare reads_asBinding read)
    refine ⟨rfl, ?_⟩
    split
    · next environment strategy =>
      rw [strategy] at strategyClear
      intro x is
      cases is
      exact Secret.bare_of_map rfl strategyClear
    · intro x is
      cases is
      exact Secret.bare_of_nil rfl

theorem unveiled_stackAt (i : Nat) :
    Unveiled (StackQuery.stackAt s xs i) (StackQuery.stackAt (s.veil secret) xs i)
      fun stack => secret.Clear stack.owned :=
  unveiled_bind fun _ read => unveiled_pure rfl (hides.stackOr (operand_target bare read))

theorem unveiled_stack (query : StackQuery) :
    Unveiled (query.answer s xs) (query.answer (s.veil secret) xs) secret.Bare := by
  have stackClear := (unveiled_stackAt hides bare 0).holds
  cases query with
  | frame =>
    apply unveiled_bind
    intro owner read
    apply unveiled_bind
    intro _ _
    apply unveiled_bind
    intro c read'
    have ownerClear := operand_clear bare reads_asValue read
    have chainClear := hides.chains c (operand_names bare names_asChain read')
    have frameClear := Secret.clear_append.2 ⟨ownerClear, chainClear⟩
    exact unveiled_pure rfl (Secret.bare_of_map rfl frameClear)
  | frameOwner =>
    apply unveiled_bind
    intro frame read
    have frameClear := operand_clear bare reads_asFrame read
    exact unveiled_pure rfl (Secret.bare_of_map rfl (Secret.clear_append.1 frameClear).1)
  | current =>
    refine unveiled_bind fun stack is =>
      unveiled_pure rfl (Secret.bare_ofOption fun frame first => Secret.bare_of_map rfl ?_)
    exact (stackClear stack is).subset
      (CallStack.owned_subset_of_mem (List.mem_of_mem_head? first))
  | frames =>
    refine unveiled_bind fun stack is => unveiled_pure rfl (Secret.bare_list.2 fun x place => ?_)
    obtain ⟨frame, listed, rfl⟩ := List.mem_map.1 place
    exact Secret.bare_of_map rfl
      ((stackClear stack is).subset (CallStack.owned_subset_of_mem (List.mem_reverse.1 listed)))
  | depth | isEmpty | capture => exact unveiled_plain (fun _ _ => rfl) fun _ => rfl
  | limit => exact unveiled_plain (fun _ _ => rfl) fun _ => things_ofOption (fun _ => rfl) _
  | attach =>
    exact unveiled_bind fun _ _ => unveiled_plain (fun _ _ => rfl) fun _ => rfl

theorem unveiled_machine (query : MachineQuery) :
    Unveiled (query.answer s xs) (query.answer (s.veil secret) xs) secret.Bare := by
  cases query with
  | registry => exact unveiled_pure rfl (Secret.bare_of_map rfl hides.registry)
  | coreTypes => exact unveiled_pure rfl (Secret.bare_of_nil (things_ofTexts _))
  | registryScope =>
    apply unveiled_bind
    intro registry read
    have registryClear := operand_clear bare reads_asRegistry read
    exact unveiled_pure rfl (Secret.bare_scope (registryClear _ List.mem_cons_self))
  | registryType =>
    apply unveiled_bind
    intro registry read
    apply unveiled_bind
    intro name _
    have registryClear := operand_clear bare reads_asRegistry read
    refine unveiled_pure rfl (Secret.bare_ofOption fun e is => Secret.bare_entity ?_)
    exact registryClear _ (Registry.type_mem_owned is)
  | globals => exact unveiled_pure rfl (Secret.bare_scope hides.globals)
  | callCount => exact unveiled_pure rfl (Secret.bare_of_nil rfl)
  | mode =>
    refine unveiled_pure rfl (Secret.bare_of_nil ?_)
    cases s.machine.mode <;> rfl
  | modeLimits =>
    refine unveiled_plain (fun _ _ => rfl) fun mode => ?_
    cases mode <;> rfl
  | counters | report =>
    exact unveiled_pure rfl (Secret.bare_of_nil (things_ofOption (fun _ => rfl) _))
  | toplevelFrame =>
    exact unveiled_pure rfl (Secret.bare_of_map rfl
      (Secret.clear_cons.2 ⟨hides.globals, Secret.clear_nil⟩))

/-- A query that spares the fields of an entity has the same answer whatever they are. -/
theorem unveiled_answer (query : Query)
    (spares : (Operation.query query).opens secret.owner xs = false) :
    Unveiled (query.answer s xs) (query.answer (s.veil secret) xs) secret.Bare := by
  cases query with
  | data query => exact unveiled_data bare query
  | failure query => exact unveiled_failure query
  | table query => exact unveiled_table hides bare query
  | entity query => exact unveiled_entity hides bare query spares
  | binding query => exact unveiled_binding hides bare query
  | stack query => exact unveiled_stack hides bare query
  | machine query => exact unveiled_machine hides bare query

end Answers

end Delegation
