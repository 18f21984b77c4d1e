import Delegation.Proofs.Heap.Layers
import Delegation.Proofs.Run.Soundness

/-!
# Answers to queries

A query changes nothing, and what its answer refers to is in the heap: an answer is plain data, or
an operand, or something that the session refers to.
-/

namespace Delegation

open Object

variable {α β : Type}

/-- What is found out, if anything, refers to what is in a heap. -/
def Gives (heap : Heap) (found : Except Stop α) (refs : α → List Node) : Prop :=
  ∀ a, found = .ok a → heap.HasAll (refs a)

section Rules

variable {heap : Heap} {refs : α → List Node}

theorem gives_pure {a : α} (known : heap.HasAll (refs a)) :
    Gives heap (pure a : Except Stop α) refs := by
  intro _ is
  cases is
  exact known

theorem gives_error (stop : Stop) : Gives heap (.error stop) refs := nofun

theorem gives_bind {found : Except Stop β} {next : β → Except Stop α}
    (gives : ∀ b, found = .ok b → Gives heap (next b) refs) : Gives heap (found >>= next) refs := by
  cases found with
  | error stop => exact nofun
  | ok b => exact gives b rfl

theorem gives_plain {found : Except Stop β} {answer : β → Object}
    (plain : ∀ b, (answer b).refs = []) :
    Gives heap (found >>= fun b => pure (answer b)) Object.refs :=
  gives_bind fun b _ => gives_pure ((plain b).symm ▸ Heap.hasAll_nil heap)

theorem refs_ofOption {f : α → Object} (plain : ∀ a, (f a).refs = []) (found : Option α) :
    (ofOption f found).refs = [] := by
  cases found with
  | none => rfl
  | some a => exact plain a

theorem refs_ofTexts (texts : List String) : (ofTexts texts).refs = [] := by
  unfold ofTexts Object.refs
  induction texts with
  | nil => rfl
  | cons text texts ih => exact ih

end Rules

variable {s : Session} {xs : List Object} {raw : Bool}

theorem gives_data (query : DataQuery) (known : s.heap.HasAll (refsAll xs)) :
    Gives s.heap (query.answer s xs) Object.refs := by
  cases query with
  | list => exact gives_pure known
  | nth =>
    apply gives_bind
    intro items read
    apply gives_bind
    intro i _
    have itemsKnown := operand_known reads_asList known read
    split
    · next x found => exact gives_pure (hasAll_refsAll.1 itemsKnown x (List.mem_of_getElem? found))
    · exact gives_error _
  | add | sub | lt | eq | same => exact gives_bind fun _ _ => gives_plain fun _ => rfl
  | concat | display | typeOf | isVoid | debug => exact gives_plain fun _ => rfl

theorem gives_failure (query : FailureQuery) :
    Gives s.heap (query.answer xs) Object.refs := by
  cases query with
  | isIdentifier | isHook | error | errStrip => exact gives_plain fun _ => rfl
  | accepts | errNote => exact gives_bind fun _ _ => gives_plain fun _ => rfl
  | fail | raise => exact gives_bind fun _ _ => gives_error _
  | errTrace => exact gives_bind fun _ _ => gives_bind fun _ _ => gives_plain fun _ => rfl
  | traceText | traceLen | traceIsEmpty => exact gives_plain fun _ => refs_ofOption (fun _ => rfl) _

theorem gives_table (query : TableQuery) (fit : s.Fit raw) (known : s.heap.HasAll (refsAll xs)) :
    Gives s.heap (query.answer s xs) Object.refs := by
  cases query with
  | mutable | constant =>
    apply gives_bind
    intro v read
    apply gives_pure
    have valueKnown := operand_known reads_asValue known read
    exact valueKnown
  | computed =>
    apply gives_bind
    intro getter read
    apply gives_bind
    intro setter read'
    apply gives_pure
    have setterKnown := operand_known (reads_orVoid reads_asBinding) known read'
    refine Heap.hasAll_cons.2 ⟨operand_has reads_asBinding known read, ?_⟩
    cases setter with
    | none => exact Heap.hasAll_nil _
    | some b => exact setterKnown
  | contains =>
    apply gives_bind
    intro _ _
    apply gives_bind
    intro table _
    cases table <;> exact gives_pure (Heap.hasAll_nil _)
  | containsLocal => exact gives_bind fun _ _ => gives_plain fun _ => rfl
  | cellKind =>
    exact gives_bind fun _ _ => gives_plain fun _ => refs_ofOption (fun _ => rfl) _
  | symbols => exact gives_plain fun _ => refs_ofTexts _
  | len | isEmpty =>
    apply gives_bind
    intro table _
    cases table <;> exact gives_pure (Heap.hasAll_nil _)
  | parent =>
    refine gives_bind fun x read => gives_pure (hasAll_ofOption fun parent is => ?_)
    have has := operand_has reads_asScope known read
    refine Heap.hasAll_cons.2 ⟨fit.heap.has_path has ?_, Heap.hasAll_nil _⟩
    exact List.mem_cons_of_mem x (List.mem_of_mem_head? is)
  | chainScopes =>
    apply gives_bind
    intro c _
    apply gives_pure
    rw [refs_ofScopes]
    exact fit.chain _

theorem hasAll_ofEntities {heap : Heap} {found : Option EntityId}
    (known : ∀ e, found = some e → heap.Has (.entity e)) :
    heap.HasAll (ofOption ofEntity found).refs :=
  hasAll_ofOption fun e is => Heap.hasAll_cons.2 ⟨known e is, Heap.hasAll_nil _⟩

theorem gives_entity (query : EntityQuery) (fit : s.Fit raw) (known : s.heap.HasAll (refsAll xs)) :
    Gives s.heap (query.answer s xs) Object.refs := by
  cases query with
  | entityName | typeName | isMostDerived => exact gives_plain fun _ => rfl
  | typeDef =>
    refine gives_bind fun e read => gives_pure (hasAll_ofEntities fun type is => ?_)
    exact fit.heap.has_type (operand_has reads_asEntity known read) is
  | superEntity =>
    refine gives_bind fun e read => gives_pure (hasAll_ofEntities fun base is => ?_)
    exact fit.heap.has_super (operand_has reads_asEntity known read) is
  | receiver =>
    refine gives_bind fun e read => gives_pure (Heap.hasAll_cons.2 ⟨?_, Heap.hasAll_nil _⟩)
    exact Session.has_receiver fit.heap (operand_has reads_asEntity known read)
  | weak =>
    refine gives_bind fun e read => gives_pure (Heap.hasAll_cons.2 ⟨?_, Heap.hasAll_nil _⟩)
    exact operand_has reads_asEntity known read
  | upgrade =>
    apply gives_bind
    intro e read
    apply gives_pure
    have has := operand_has reads_asWeak known read
    split
    · exact Heap.hasAll_cons.2 ⟨has, Heap.hasAll_nil _⟩
    · exact Heap.hasAll_nil _
  | fields =>
    refine gives_bind fun e read => gives_pure (Heap.hasAll_cons.2 ⟨?_, Heap.hasAll_nil _⟩)
    exact (fit.heap.has_tables (operand_has reads_asEntity known read)).1
  | hooks =>
    refine gives_bind fun e read => gives_pure (Heap.hasAll_cons.2 ⟨?_, Heap.hasAll_nil _⟩)
    exact (fit.heap.has_tables (operand_has reads_asEntity known read)).2.1
  | members | publicView =>
    refine gives_bind fun e read => gives_pure (Heap.hasAll_cons.2 ⟨?_, Heap.hasAll_nil _⟩)
    exact (fit.heap.has_tables (operand_has reads_asEntity known read)).2.2
  | hasMember | supportsHook => exact gives_bind fun _ _ => gives_plain fun _ => rfl

theorem gives_binding (query : BindingQuery) (fit : s.Fit raw)
    (known : s.heap.HasAll (refsAll xs)) : Gives s.heap (query.answer s xs) Object.refs := by
  cases query with
  | kind | name | arity | callable => exact gives_plain fun _ => rfl
  | owner =>
    refine gives_bind fun b read => gives_pure (hasAll_ofEntities fun owner is => ?_)
    have strategyKnown := fit.heap.has_binding (operand_has reads_asBinding known read)
    unfold Session.owner? at is
    split at is
    · next strategy =>
      cases is
      rw [strategy] at strategyKnown
      exact (Heap.hasAll_cons.1 strategyKnown).1
    · next strategy =>
      rw [strategy] at strategyKnown
      split at is <;> cases is
      exact (Heap.hasAll_cons.1 strategyKnown).1
    · cases is
    · cases is
  | captured =>
    apply gives_bind
    intro b read
    have strategyKnown := fit.heap.has_binding (operand_has reads_asBinding known read)
    split
    · next strategy =>
      rw [strategy] at strategyKnown
      exact gives_pure strategyKnown
    · exact gives_pure (Heap.hasAll_nil _)

theorem gives_stackAt (fit : s.Fit raw) (i : Nat) :
    Gives s.heap (StackQuery.stackAt s xs i) CallStack.owned :=
  gives_bind fun _ _ => gives_pure (fit.stackOr _)

theorem gives_stack (query : StackQuery) (fit : s.Fit raw) (known : s.heap.HasAll (refsAll xs)) :
    Gives s.heap (query.answer s xs) Object.refs := by
  cases query with
  | frame =>
    apply gives_bind
    intro owner read
    apply gives_bind
    intro _ _
    apply gives_bind
    intro c _
    apply gives_pure
    have ownerKnown := operand_known reads_asValue known read
    refine Heap.hasAll_append.2 ⟨ownerKnown, ?_⟩
    exact fit.chain _
  | frameOwner =>
    apply gives_bind
    intro frame read
    apply gives_pure
    have frameKnown := operand_known reads_asFrame known read
    exact (Heap.hasAll_append.1 frameKnown).1
  | current =>
    refine gives_bind fun stack is => gives_pure (hasAll_ofOption fun frame first => ?_)
    exact hasAll_frames (gives_stackAt fit 0 stack is) (List.mem_of_mem_head? first)
  | frames =>
    refine gives_bind fun stack is => gives_pure (hasAll_refsAll.2 fun x place => ?_)
    obtain ⟨frame, listed, rfl⟩ := List.mem_map.1 place
    exact hasAll_frames (gives_stackAt fit 0 stack is) (List.mem_reverse.1 listed)
  | depth | isEmpty | capture => exact gives_plain fun _ => rfl
  | limit => exact gives_plain fun _ => refs_ofOption (fun _ => rfl) _
  | attach => exact gives_bind fun _ _ => gives_plain fun _ => rfl

theorem gives_machine (query : MachineQuery) (fit : s.Fit raw)
    (known : s.heap.HasAll (refsAll xs)) : Gives s.heap (query.answer s xs) Object.refs := by
  cases query with
  | registry => exact gives_pure (Heap.hasAll_append.1 fit.machine).2
  | coreTypes => exact gives_pure (Heap.hasAll_nil _)
  | registryScope =>
    refine gives_bind fun registry read => gives_pure (Heap.hasAll_cons.2 ⟨?_, Heap.hasAll_nil _⟩)
    exact operand_known reads_asRegistry known read _ List.mem_cons_self
  | registryType =>
    apply gives_bind
    intro registry read
    apply gives_bind
    intro name _
    apply gives_pure
    have registryKnown := operand_known reads_asRegistry known read
    exact hasAll_ofEntities fun type is => Registry.has_type registryKnown is
  | globals => exact gives_pure (Heap.hasAll_cons.2 ⟨fit.globals, Heap.hasAll_nil _⟩)
  | callCount => exact gives_pure (Heap.hasAll_nil _)
  | mode =>
    apply gives_pure
    cases s.machine.mode <;> exact Heap.hasAll_nil _
  | modeLimits =>
    apply gives_plain
    intro mode
    cases mode <;> rfl
  | counters | report => exact gives_pure (hasAll_ofOption fun _ _ => Heap.hasAll_nil _)
  | toplevelFrame => exact gives_pure (Heap.hasAll_cons.2 ⟨fit.globals, Heap.hasAll_nil _⟩)

/-- The answer to a query refers to what is in the heap. -/
theorem gives_answer (query : Query) (fit : s.Fit raw) (known : s.heap.HasAll (refsAll xs)) :
    Gives s.heap (query.answer s xs) Object.refs := by
  cases query with
  | data query => exact gives_data query known
  | failure query => exact gives_failure query
  | table query => exact gives_table query fit known
  | entity query => exact gives_entity query fit known
  | binding query => exact gives_binding query fit known
  | stack query => exact gives_stack query fit known
  | machine query => exact gives_machine query fit known

end Delegation
