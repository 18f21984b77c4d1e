import Delegation.Evaluation

/-!
# Objects up to traces

A trace tells which activations were live where a failure arose, so it is the one thing in an object
that depends on the stack. Two objects are alike if they differ in the traces of failures alone.
Hardly anything asks for a trace: reading an operand as what an operation expects gives the same for
objects that are alike, unless a failure is expected, a list, or anything at all.
-/

namespace Delegation

/-- The failure without its trace. -/
def Failure.untraced (failure : Failure) : Failure := { failure with trace := none }

theorem Failure.untraced_withNote (failure : Failure) (note : String) :
    (failure.withNote note).untraced = failure.untraced.withNote note := rfl

def Stop.untraced : Stop → Stop
  | .failure f => .failure f.untraced
  | .malformed reason => .malformed reason
  | .exhausted => .exhausted

@[simp] theorem Heap.untraced_attachTrace (heap : Heap) (stack : CallStack) (failure : Failure) :
    (heap.attachTrace stack failure).untraced = failure.untraced := by
  unfold attachTrace
  split <;> rfl

/-- What differs in traces alone is either two failures or one and the same reason to give up. -/
theorem Stop.eq_or_failures {stop stop' : Stop} (same : stop.untraced = stop'.untraced) :
    (∃ f f', stop = .failure f ∧ stop' = .failure f' ∧ f.untraced = f'.untraced) ∨
      stop' = stop ∧ ∀ f, stop ≠ .failure f := by
  cases stop <;> cases stop' <;> simp_all [untraced]

namespace Object

mutual

/-- The object without the traces of failures. -/
def untraced : Object → Object
  | .failure f => .failure f.untraced
  | .list items => .list (untracedAll items)
  | x => x

def untracedAll : List Object → List Object
  | [] => []
  | x :: xs => x.untraced :: untracedAll xs

end

/-- Two objects differ in nothing but traces. -/
def Alike (x y : Object) : Prop := x.untraced = y.untraced

theorem untracedAll_eq_map (xs : List Object) : untracedAll xs = xs.map untraced := by
  induction xs with
  | nil => rfl
  | cons x xs ih => rw [untracedAll, ih, List.map_cons]

@[simp] theorem length_untracedAll (xs : List Object) : (untracedAll xs).length = xs.length := by
  rw [untracedAll_eq_map, List.length_map]

theorem getD_untracedAll (xs : List Object) (i : Nat) :
    (untracedAll xs).getD i .void = (xs.getD i .void).untraced := by
  rw [untracedAll_eq_map, List.getD_eq_getElem?_getD, List.getD_eq_getElem?_getD,
    List.getElem?_map]
  cases xs[i]? <;> rfl

theorem drop_untracedAll (xs : List Object) (i : Nat) :
    (untracedAll xs).drop i = untracedAll (xs.drop i) := by
  rw [untracedAll_eq_map, untracedAll_eq_map, List.map_drop]

mutual

theorem untraced_untraced : ∀ x : Object, x.untraced.untraced = x.untraced
  | .failure _ => rfl
  | .list items => congrArg Object.list (untracedAll_untracedAll items)
  | .value _ | .scope _ | .cell _ | .chain _ | .callable _ | .frame _ | .stack _ | .weak _
  | .builder _ | .registry _ | .machine _ => rfl

theorem untracedAll_untracedAll : ∀ xs : List Object,
    untracedAll (untracedAll xs) = untracedAll xs
  | [] => rfl
  | x :: xs => by
    simp only [untracedAll, untraced_untraced x, untracedAll_untracedAll xs]

end

/-- Values are alike only if they are equal. -/
theorem Alike.toValue {x y : Object} (alike : x.Alike y) : x.toValue = y.toValue := by
  have same (x : Object) : x.untraced.toValue = x.toValue := by cases x <;> rfl
  rw [← same x, alike, same]

end Object

/-! ## Operands -/

open Object

variable {α : Type}

/-- A reading that takes no notice of traces. -/
def Traceless (read : Object → Option α) : Prop := ∀ x, read x.untraced = read x

section Readings

@[simp] theorem traceless_asValue : Traceless asValue? := fun x => by cases x <;> rfl

@[simp] theorem traceless_asText : Traceless asText? := fun x => by cases x <;> rfl

@[simp] theorem traceless_asInt : Traceless asInt? := fun x => by cases x <;> rfl

@[simp] theorem traceless_asNat : Traceless asNat? := fun x => by cases x <;> rfl

@[simp] theorem traceless_asEntity : Traceless asEntity? := fun x => by cases x <;> rfl

@[simp] theorem traceless_asBinding : Traceless asBinding? := fun x => by cases x <;> rfl

@[simp] theorem traceless_asScope : Traceless asScope? := fun x => by cases x <;> rfl

@[simp] theorem traceless_asCell : Traceless asCell? := fun x => by cases x <;> rfl

@[simp] theorem traceless_asChain : Traceless asChain? := fun x => by cases x <;> rfl

@[simp] theorem traceless_asCallable : Traceless asCallable? := fun x => by cases x <;> rfl

@[simp] theorem traceless_asFrame : Traceless asFrame? := fun x => by cases x <;> rfl

@[simp] theorem traceless_asStack : Traceless asStack? := fun x => by cases x <;> rfl

@[simp] theorem traceless_asMachine : Traceless asMachine? := fun x => by cases x <;> rfl

@[simp] theorem traceless_asWeak : Traceless asWeak? := fun x => by cases x <;> rfl

@[simp] theorem traceless_asBuilder : Traceless asBuilder? := fun x => by cases x <;> rfl

@[simp] theorem traceless_asRegistry : Traceless asRegistry? := fun x => by cases x <;> rfl

@[simp] theorem traceless_asPolicy : Traceless asPolicy? := fun x => by cases x <;> rfl

@[simp] theorem traceless_asTable : Traceless asTable? := fun x => by cases x <;> rfl

@[simp] theorem traceless_asMode : Traceless asMode? := fun x => by cases x <;> rfl

@[simp] theorem traceless_fieldCell (v : Value) : Traceless (EntityCommand.fieldCell? v) :=
  fun x => by cases x <;> rfl

theorem activation_pair (x y : Object) : FailureQuery.activation? (.list [x, y]) =
    x.asText?.bind fun name => y.asText?.map fun owner => ⟨name, owner⟩ := by
  rcases x with v | _ <;> try rfl
  rcases y with w | _ <;> cases v <;> try rfl
  cases w <;> rfl

theorem activation_of_length {items : List Object} (other : items.length ≠ 2) :
    FailureQuery.activation? (.list items) = none := by
  unfold FailureQuery.activation?
  split
  · next same =>
    cases same
    exact absurd rfl other
  · rfl

@[simp] theorem traceless_activation : Traceless FailureQuery.activation? := fun x => by
  cases x with
  | list items =>
    by_cases two : items.length = 2
    · match items, two with
      | [x, y], _ =>
        show FailureQuery.activation? (.list [x.untraced, y.untraced]) = _
        rw [activation_pair, activation_pair, traceless_asText, traceless_asText]
    · rw [untraced, activation_of_length two, activation_of_length (by simpa using two)]
  | _ => rfl

@[simp] theorem traceless_callableOf (s : Session) : Traceless s.callableOf? :=
  fun x => by cases x <;> rfl

@[simp] theorem traceless_describe (s : Session) : Traceless s.describe? :=
  fun x => by cases x <;> rfl

@[simp] theorem traceless_orVoid {read : Object → Option α} (traceless : Traceless read) :
    Traceless (orVoid? read) := fun x => by
  have same := traceless x
  cases x with
  | value v => rfl
  | failure | list => exact congrArg (Option.map some) same
  | scope | cell | chain | callable | frame | stack | weak | builder | registry | machine => rfl

end Readings

@[simp] theorem operand_untracedAll {read : Object → Option α} (traceless : Traceless read)
    (xs : List Object) (i : Nat) : operand (untracedAll xs) i read = operand xs i read := by
  rw [operand, operand, getD_untracedAll, traceless]

theorem mapM_untracedAll {read : Object → Option α} (traceless : Traceless read)
    (xs : List Object) : (untracedAll xs).mapM read = xs.mapM read := by
  induction xs with
  | nil => rfl
  | cons x xs ih => rw [untracedAll, List.mapM_cons, List.mapM_cons, traceless, ih]

@[simp] theorem operandsFrom_untracedAll {read : Object → Option α} (traceless : Traceless read)
    (xs : List Object) (i : Nat) :
    operandsFrom (untracedAll xs) i read = operandsFrom xs i read := by
  rw [operandsFrom, operandsFrom, drop_untracedAll, mapM_untracedAll traceless]

/-! ## Commands -/

theorem readProperty_untracedAll (xs : List Object) :
    EntityCommand.readProperty (untracedAll xs) = EntityCommand.readProperty xs := by
  simp [EntityCommand.readProperty]

theorem stackAt_untracedAll (xs : List Object) :
    StackCommand.stackAt (untracedAll xs) = StackCommand.stackAt xs := by
  simp [StackCommand.stackAt]

/-- Commands take no notice of traces. -/
theorem Command.act_untracedAll (run : Runner) (command : Command) (xs : List Object) :
    command.act run (untracedAll xs) = command.act run xs := by
  cases command with
  | table command => cases command <;> simp [Command.act, TableCommand.act]
  | entity command =>
    cases command <;> simp [Command.act, EntityCommand.act, readProperty_untracedAll]
  | call command => cases command <;> simp [Command.act, CallCommand.act]
  | stack command => cases command <;> simp [Command.act, StackCommand.act, stackAt_untracedAll]
  | registry command => cases command <;> simp [Command.act, RegistryCommand.act]

/-! ## Queries -/

/-- Whether a query looks neither at a stack nor at the trace of a failure. -/
def Query.blind : Query → Bool
  | .failure .traceText | .failure .traceLen | .failure .traceIsEmpty => false
  | .stack .frame | .stack .frameOwner => true
  | .stack _ => false
  | _ => true

/-- An answer without the traces of failures. -/
def untracedAnswer : Except Stop Object → Except Stop Object
  | .ok x => .ok x.untraced
  | .error stop => .error stop.untraced

theorem operand_asFailure_untracedAll (xs : List Object) (i : Nat) :
    operand (untracedAll xs) i asFailure? =
      (operand xs i asFailure?).map Failure.untraced := by
  rw [operand, operand, getD_untracedAll]
  cases xs.getD i .void <;> rfl

theorem operand_asList_untracedAll (xs : List Object) (i : Nat) :
    operand (untracedAll xs) i asList? = (operand xs i asList?).map untracedAll := by
  rw [operand, operand, getD_untracedAll]
  cases xs.getD i .void <;> rfl

theorem operand_asAny_untracedAll (xs : List Object) (i : Nat) :
    operand (untracedAll xs) i asAny? = (operand xs i asAny?).map untraced := by
  rw [operand, operand, getD_untracedAll]
  rfl

@[simp] theorem same_untraced (x y : Object) : x.untraced.same y.untraced = x.same y := by
  cases x <;> cases y <;> rfl

theorem DataQuery.answer_untracedAll (query : DataQuery) (s : Session) (xs : List Object) :
    untracedAnswer (query.answer s (untracedAll xs)) = untracedAnswer (query.answer s xs) := by
  cases query with
  | list => exact congrArg (fun xs => Except.ok (Object.list xs)) (untracedAll_untracedAll xs)
  | nth =>
    simp only [answer, operand_asList_untracedAll, operand_untracedAll traceless_asNat]
    cases operand xs 0 asList? with
    | error stop => rfl
    | ok items =>
      cases operand xs 1 asNat? with
      | error stop => rfl
      | ok i =>
        simp only [Except.map, bind, Except.bind, untracedAll_eq_map, List.getElem?_map]
        cases items[i]? with
        | none => rfl
        | some x => exact congrArg Except.ok x.untraced_untraced
  | same =>
    simp only [answer, operand_asAny_untracedAll]
    cases operand xs 0 asAny? with
    | error stop => rfl
    | ok x =>
      cases operand xs 1 asAny? with
      | error stop => rfl
      | ok y => simp [Except.map, bind, Except.bind, pure, Except.pure]
  | _ => simp [answer]

theorem FailureQuery.answer_untracedAll (query : FailureQuery) (xs : List Object)
    (blind : (Query.failure query).blind = true) :
    untracedAnswer (query.answer (untracedAll xs)) = untracedAnswer (query.answer xs) := by
  cases query with
  | traceText | traceLen | traceIsEmpty => cases blind
  | raise | errStrip =>
    simp only [answer, operand_asFailure_untracedAll]
    cases operand xs 0 asFailure? <;> rfl
  | errNote =>
    simp only [answer, operand_asFailure_untracedAll, operand_untracedAll traceless_asText]
    cases operand xs 0 asFailure? with
    | error stop => rfl
    | ok failure => cases operand xs 1 asText? <;> rfl
  | errTrace =>
    simp only [answer, operand_asFailure_untracedAll, operand_asList_untracedAll]
    cases operand xs 0 asFailure? with
    | error stop => rfl
    | ok failure =>
      cases operand xs 1 asList? with
      | error stop => rfl
      | ok items =>
        simp only [Except.map, bind, Except.bind, operandsFrom_untracedAll traceless_activation]
        cases operandsFrom items 0 FailureQuery.activation? <;> rfl
  | error => simp [answer, cause]
  | _ => simp [answer]

/-- Queries that look neither at stacks nor at traces give the same answers for alike operands, up
to traces. -/
theorem Query.answer_untracedAll (query : Query) (s : Session) (xs : List Object)
    (blind : query.blind = true) :
    untracedAnswer (query.answer s (untracedAll xs)) = untracedAnswer (query.answer s xs) := by
  cases query with
  | data query => exact query.answer_untracedAll s xs
  | failure query => exact query.answer_untracedAll xs blind
  | table query => cases query <;> simp [answer, TableQuery.answer]
  | entity query => cases query <;> simp [answer, EntityQuery.answer]
  | binding query => cases query <;> simp [answer, BindingQuery.answer]
  | stack query =>
    cases query with
    | frame | frameOwner => simp [answer, StackQuery.answer]
    | current | frames | depth | isEmpty | limit | capture | attach => cases blind
  | machine query => cases query <;> simp [answer, MachineQuery.answer]

end Delegation
