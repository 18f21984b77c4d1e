import Delegation.Proofs.Run.Commands
import Delegation.Proofs.Twins.Calls

/-!
# Commands and queries agree

A command that does not run bodies, and does not ask for the current chain or for who is alive, does
not look around, and so agrees with itself. The others come down to calls and look-ups. Queries are
answered alike, unless they look at stacks or traces.
-/

namespace Delegation

open Delegation.Action Delegation.Object

variable {callers : Callers} {upper : List Frame} {start start' s t : Session} {run : Runner}
  {inside inside' : Body → Session → Prop} {xs : List Object}

theorem Agrees.alike {action action' : Action Object}
    (agrees : Agrees callers upper Eq s t action action') :
    Agrees callers upper Alike s t action action' := agrees.weaken fun _ _ same => same ▸ rfl

theorem Oblivious.alike {action : Action Object} (oblivious : Oblivious action)
    (twins : FitTwins callers upper s t) : Agrees callers upper Alike s t action action :=
  (oblivious.agrees twins.toTwin).alike

namespace Paired

variable (paired : Paired callers start start' run inside inside')

include paired

theorem tableCommand (twins : FitTwins callers upper s t) (framed : upper ≠ [])
    (command : TableCommand) (known : s.heap.HasAll (refsAll xs))
    (calm : Heeding.tableCommand (Calm start) inside command xs s)
    (calm' : Heeding.tableCommand (Calm start') inside' command xs t) :
    Agrees callers upper Alike s t (command.act run xs) (command.act run xs) := by
  have shared (c : ChainId) : t.chain c = s.chain c := by
    rw [twins.around]
    rfl
  cases command with
  | get =>
    refine agrees_lift_bind twins.toTwin fun table read =>
      agrees_lift_bind twins.toTwin fun name read' => ?_
    replace calm := calm _ read _ read'
    replace calm' := calm' _ read _ read'
    have tableKnown := operand_known reads_asTable known read
    cases table with
    | inl x =>
      exact (paired.get twins framed (Heap.hasAll_cons.1 tableKnown).1 calm calm').map
        fun _ _ same => same ▸ rfl
    | inr c =>
      dsimp only at calm calm'
      rw [shared] at calm'
      apply agrees_get_bind
      rw [shared]
      exact (paired.chainGet twins framed (twins.fit.chain c) calm calm').map
        fun _ _ same => same ▸ rfl
  | set =>
    refine agrees_lift_bind twins.toTwin fun table read =>
      agrees_lift_bind twins.toTwin fun name read' =>
        agrees_lift_bind twins.toTwin fun v read'' => ?_
    replace calm := calm _ read _ read' _ read''
    replace calm' := calm' _ read _ read' _ read''
    have tableKnown := operand_known reads_asTable known read
    have valueKnown := operand_known reads_asValue known read''
    cases table with
    | inl x =>
      exact (paired.set twins framed (Heap.hasAll_cons.1 tableKnown).1 valueKnown calm calm').map
        fun _ _ _ => rfl
    | inr c =>
      dsimp only at calm calm'
      rw [shared] at calm'
      apply agrees_get_bind
      rw [shared]
      exact (paired.chainSet twins framed (twins.fit.chain c) valueKnown calm calm').map
        fun _ _ _ => rfl
  | currentChain =>
    apply agrees_get_bind
    rw [twins.currentChain framed]
    exact ((Oblivious.newChain _).map _).alike twins
  | scope => exact (Oblivious.lift_bind fun _ => (Oblivious.newScope _).map _).alike twins
  | child =>
    exact (Oblivious.lift_bind fun _ => .lift_bind fun _ =>
      .get_bind (fun _ _ => rfl) fun _ => (Oblivious.newScope _).map _).alike twins
  | declare =>
    exact (Oblivious.lift_bind fun _ => .lift_bind fun _ => .lift_bind fun _ =>
      (Oblivious.declare _ _ _).map _).alike twins
  | «seal» => exact (Oblivious.lift_bind fun _ => (Oblivious.onHeap _).map _).alike twins
  | chain => exact (Oblivious.lift_bind fun _ => (Oblivious.newChain _).map _).alike twins
  | copyChain =>
    exact (Oblivious.lift_bind fun _ => .get_bind (fun _ _ => rfl) fun _ =>
      (Oblivious.newChain _).map _).alike twins
  | frameChain => exact (Oblivious.lift_bind fun _ => (Oblivious.newChain _).map _).alike twins
  | privateView =>
    exact (Oblivious.lift_bind fun _ => .get_bind (fun _ _ => rfl) fun _ =>
      (Oblivious.newChain _).map _).alike twins
  | pushInner | pushOuter =>
    exact (Oblivious.lift_bind fun _ => .lift_bind fun _ =>
      (Oblivious.modifyChain _ _).map _).alike twins
  | popInner =>
    exact (Oblivious.lift_bind fun _ => .get_bind (fun _ _ => rfl) fun _ =>
      (Oblivious.modifyChain _ _).map _).alike twins

theorem callCommand (twins : FitTwins callers upper s t) (framed : upper ≠ [])
    (command : CallCommand) (known : s.heap.HasAll (refsAll xs))
    (calm : Heeding.callCommand (Calm start) run inside command xs s)
    (calm' : Heeding.callCommand (Calm start') run inside' command xs t) :
    Agrees callers upper Alike s t (command.act run xs) (command.act run xs) := by
  cases command with
  | invoke =>
    refine agrees_lift_bind twins.toTwin fun callable read =>
      agrees_lift_bind twins.toTwin fun args read' => ?_
    exact (paired.invoke twins framed (operandsFrom_known reads_asValue known read')
      (calm _ read _ read') (calm' _ read _ read')).map fun _ _ same => same ▸ rfl
  | function | bound =>
    exact (Oblivious.lift_bind fun _ => .lift_bind fun _ =>
      (Oblivious.newBinding _).map _).alike twins
  | closure =>
    refine agrees_lift_bind twins.toTwin fun callable _ => agrees_get_bind ?_
    rw [twins.currentFrame framed]
    exact ((Oblivious.newBinding _).map _).alike twins
  | callBinding =>
    refine agrees_lift_bind twins.toTwin fun b read =>
      agrees_lift_bind twins.toTwin fun args read' => ?_
    exact (paired.call twins (.inl framed) (operand_has reads_asBinding known read)
      (operandsFrom_known reads_asValue known read') (calm _ read _ read')
      (calm' _ read _ read')).map fun _ _ same => same ▸ rfl
  | lookup =>
    refine agrees_lift_bind twins.toTwin fun name read => ?_
    exact (paired.lookup twins framed (calm _ read) (calm' _ read)).map fun _ _ same => same ▸ rfl
  | assign =>
    refine agrees_lift_bind twins.toTwin fun name read =>
      agrees_lift_bind twins.toTwin fun v read' => ?_
    exact (paired.assign twins framed (operand_known reads_asValue known read')
      (calm _ read _ read') (calm' _ read _ read')).map fun _ _ _ => rfl
  | call =>
    refine agrees_lift_bind twins.toTwin fun callee read =>
      agrees_lift_bind twins.toTwin fun args read' => ?_
    exact (paired.callValue twins framed (operand_known reads_asValue known read)
      (operandsFrom_known reads_asValue known read') (calm _ read _ read')
      (calm' _ read _ read')).map fun _ _ same => same ▸ rfl

theorem entityCommand (twins : FitTwins callers upper s t) (framed : upper ≠ [])
    (command : EntityCommand) (known : s.heap.HasAll (refsAll xs))
    (calm : Heeding.entityCommand (Calm start) run inside command xs s)
    (calm' : Heeding.entityCommand (Calm start') run inside' command xs t) :
    Agrees callers upper Alike s t (command.act run xs) (command.act run xs) := by
  cases command with
  | entity =>
    exact (Oblivious.lift_bind fun _ => .lift_bind fun _ => .lift_bind fun _ =>
      (Oblivious.buildEntity _ _ _).map _).alike twins
  | hook =>
    exact (Oblivious.lift_bind fun _ => .lift_bind fun _ => .lift_bind fun _ =>
      (Oblivious.declareHook _ _ _).map _).alike twins
  | method =>
    exact (Oblivious.lift_bind fun _ => .lift_bind fun _ => .lift_bind fun _ =>
      (Oblivious.declareMethod _ _ _).map _).alike twins
  | field =>
    exact (Oblivious.lift_bind fun _ => .lift_bind fun _ => .lift_bind fun _ =>
      .lift_bind fun _ => (Oblivious.declareField _ _ _).map _).alike twins
  | property =>
    exact (Oblivious.lift_bind fun _ => .lift_bind fun _ => .lift_bind fun _ =>
      (Oblivious.declareProperty _ _ _).map _).alike twins
  | selfScope =>
    refine agrees_lift_bind twins.toTwin fun e read => agrees_get_bind ?_
    have has := operand_has reads_asEntity known read
    rw [twins.receiver paired.world (calm _ read) (calm' _ read) has, twins.heap]
    exact ((Oblivious.newScope _).map _).alike twins
  | getMember =>
    refine agrees_lift_bind twins.toTwin fun e read =>
      agrees_lift_bind twins.toTwin fun name read' => ?_
    exact (paired.getMember twins framed (operand_has reads_asEntity known read)
      (calm _ read _ read') (calm' _ read _ read')).map fun _ _ same => same ▸ rfl
  | setMember =>
    refine agrees_lift_bind twins.toTwin fun e read =>
      agrees_lift_bind twins.toTwin fun name read' =>
        agrees_lift_bind twins.toTwin fun v read'' => ?_
    exact (paired.setMember twins framed (operand_has reads_asEntity known read)
      (operand_known reads_asValue known read'') (calm _ read _ read' _ read'')
      (calm' _ read _ read' _ read'')).map fun _ _ _ => rfl
  | send =>
    refine agrees_lift_bind twins.toTwin fun e read =>
      agrees_lift_bind twins.toTwin fun name read' =>
        agrees_lift_bind twins.toTwin fun args read'' => ?_
    exact (paired.invokeMember twins framed (operand_has reads_asEntity known read)
      (operandsFrom_known reads_asValue known read'') (calm _ read _ read' _ read'')
      (calm' _ read _ read' _ read'')).map fun _ _ same => same ▸ rfl
  | sendHook =>
    refine agrees_lift_bind twins.toTwin fun e read =>
      agrees_lift_bind twins.toTwin fun name read' =>
        agrees_lift_bind twins.toTwin fun args read'' => ?_
    exact (paired.invokeHook twins framed (operand_has reads_asEntity known read)
      (operandsFrom_known reads_asValue known read'') (calm _ read _ read' _ read'')
      (calm' _ read _ read' _ read'')).map fun _ _ same => same ▸ rfl
  | idMatches =>
    refine agrees_lift_bind twins.toTwin fun e read =>
      agrees_lift_bind twins.toTwin fun other read' => ?_
    exact (paired.invokeMember twins framed (operand_has reads_asEntity known read)
      (List.forall_mem_nil _) (calm _ read _ read') (calm' _ read _ read')).map
      fun _ _ same => same ▸ rfl

/-- Commands that leave stacks alone agree. -/
theorem command (twins : FitTwins callers upper s t) (framed : upper ≠ []) (command : Command)
    (blind : (Operation.command command).blind = true) (known : s.heap.HasAll (refsAll xs))
    (calm : Heeding.command (Calm start) run inside command xs s)
    (calm' : Heeding.command (Calm start') run inside' command xs t) :
    Agrees callers upper Alike s t (command.act run xs) (command.act run xs) := by
  cases command with
  | table c => exact paired.tableCommand twins framed c known calm calm'
  | entity c => exact paired.entityCommand twins framed c known calm calm'
  | call c => exact paired.callCommand twins framed c known calm calm'
  | registry c => exact (Oblivious.registryCommand c xs).alike twins
  | stack c =>
    cases c with
    | stack => exact (Oblivious.lift_bind fun _ => (Oblivious.newStack _).map _).alike twins
    | push | pop | pushInner | popInner | suspend | resume => cases blind

end Paired

/-! ## Queries -/

/-- A query that does not look at stacks is answered from what twins share, and from who is alive.
-/
theorem FitTwins.answer_eq (twins : FitTwins callers upper s t) (world : SameWorld start start')
    (query : Query) (blind : query.blind = true) (known : s.heap.HasAll (refsAll xs))
    (calm : Heeding.query (Calm start) query s) (calm' : Heeding.query (Calm start') query t) :
    query.answer t xs = query.answer s xs := by
  obtain ⟨around, is⟩ : ∃ around, t = s.amid around := ⟨_, twins.around⟩
  have receives (calm : Calm start .ask s) (calm' : Calm start' .ask t) {e : EntityId}
      (read : operand xs 0 asEntity? = .ok e) : t.receiver e = s.receiver e :=
    twins.receiver world calm calm' (operand_has reads_asEntity known read)
  cases query with
  | data query => subst is; cases query <;> rfl
  | failure query => rfl
  | table query => subst is; cases query <;> rfl
  | stack query =>
    cases query with
    | frame | frameOwner => subst is; rfl
    | current | frames | depth | isEmpty | limit | capture | attach => cases blind
  | machine query => subst is; cases query <;> rfl
  | entity query =>
    cases query with
    | receiver | isMostDerived =>
      simp only [Query.answer, EntityQuery.answer]
      cases read : operand xs 0 asEntity? with
      | error stop => rfl
      | ok e => simp only [receives calm calm' read, bind, Except.bind]
    | upgrade => simp only [Query.answer, EntityQuery.answer, twins.isLive world calm calm']
    | entityName | typeDef | typeName | superEntity | weak | fields | hooks | members | publicView
    | hasMember | supportsHook => subst is; rfl
  | binding query =>
    cases query with
    | owner =>
      simp only [Query.answer, BindingQuery.answer, Session.owner?, twins.heap,
        twins.isLive world calm calm']
    | kind | name | arity | captured | callable => subst is; rfl

theorem FitTwins.answer (twins : FitTwins callers upper s t) (world : SameWorld start start')
    {query : Query} (blind : query.blind = true) {xs ys : List Object}
    (known : s.heap.HasAll (refsAll xs)) (alike : untracedAll xs = untracedAll ys)
    (calm : Heeding.query (Calm start) query s) (calm' : Heeding.query (Calm start') query t) :
    untracedAnswer (query.answer s xs) = untracedAnswer (query.answer t ys) :=
  calc untracedAnswer (query.answer s xs)
    _ = untracedAnswer (query.answer t xs) := by
      rw [twins.answer_eq world query blind known calm calm']
    _ = untracedAnswer (query.answer t (untracedAll xs)) :=
      (query.answer_untracedAll t xs blind).symm
    _ = untracedAnswer (query.answer t (untracedAll ys)) := by rw [alike]
    _ = untracedAnswer (query.answer t ys) := query.answer_untracedAll t ys blind

/-! ## Operations -/

theorem agrees_answer (twin : Twin callers upper s t) {found found' : Except Stop Object}
    (same : untracedAnswer found = untracedAnswer found') :
    Agrees callers upper Alike s t (liftM found) (liftM found') := by
  cases found with
  | ok x =>
    cases found' with
    | ok x' => exact .ok rfl rfl (Except.ok.inj same) twin.ends
    | error stop' => cases same
  | error stop =>
    cases found' with
    | ok x' => cases same
    | error stop' => exact .error rfl rfl (Except.error.inj same) twin.ends

theorem heeding_untracedAll (rule : Rule) (command : Command) (xs : List Object) (s : Session) :
    Heeding.command rule run inside command (untracedAll xs) s =
      Heeding.command rule run inside command xs s := by
  cases command with
  | table c => cases c <;> simp [Heeding.command, Heeding.tableCommand]
  | entity c => cases c <;> simp [Heeding.command, Heeding.entityCommand]
  | call c => cases c <;> simp [Heeding.command, Heeding.callCommand]
  | stack | registry => rfl

/-- Blind operations agree on operands that are alike. -/
theorem Paired.act (paired : Paired callers start start' run inside inside')
    (twins : FitTwins callers upper s t) (framed : upper ≠ []) (operation : Operation)
    (blind : operation.blind = true) {xs ys : List Object} (known : s.heap.HasAll (refsAll xs))
    (alike : untracedAll xs = untracedAll ys)
    (calm : Heeding.act (Calm start) run inside operation xs s)
    (calm' : Heeding.act (Calm start') run inside' operation ys t) :
    Agrees callers upper Alike s t (operation.act run xs) (operation.act run ys) := by
  have held : (Object.list xs).Alike (.list ys) := congrArg Object.list alike
  apply agrees_keeping twins held known calm calm'
  intro u v twins _ heap calm calm'
  rw [← heap] at known
  cases operation with
  | query query =>
    exact agrees_get_bind (agrees_answer twins.toTwin
      (twins.answer paired.world blind known alike calm calm'))
  | command command =>
    have same : command.act run ys = command.act run xs := by
      rw [← command.act_untracedAll, ← alike, command.act_untracedAll]
    dsimp only at calm' ⊢
    rw [← heeding_untracedAll, ← alike, heeding_untracedAll] at calm'
    rw [same]
    exact paired.command twins framed command blind known calm calm'

end Delegation
