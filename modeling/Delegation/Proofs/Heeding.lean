import Delegation.Evaluation
import Delegation.Proofs.Outcome

/-!
# What happens in the course of a run

A run is more than the session it ends in. On the way frames are pushed, it is asked who is alive,
and bodies begin. A rule says of each such event in which sessions it may happen, and a run heeds
the rule if this is so wherever one of them happens.

Whether a run heeds a rule is said along the definitions of the actions, with the sessions that the
actions themselves lead to. As with the actions, what concerns the bodies is a parameter at first:
`inside` says from which sessions a body heeds the rule.
-/

namespace Delegation

/-- What may happen in the course of a run. -/
inductive Event where
  /-- A frame is to be pushed on the stack of the running machine. -/
  | push (frame : Frame)
  /-- It is asked who is alive. -/
  | ask
  | body (body : Body)

/-- In which sessions an event may happen. -/
abbrev Rule := Event → Session → Prop

namespace Heeding

variable {α : Type}

/-! ## Ways of putting actions together -/

/-- What follows an action, if the action gives a result. -/
def next (action : Action α) (rest : α → Session → Prop) (s : Session) : Prop :=
  ∀ a t, action s = .ok a t → rest a t

def keeping (x : Object) (inner : Session → Prop) (s : Session) : Prop :=
  inner { s with held := x :: s.held }

/-- What an operand is read as, if it can be read. -/
def given (found : Except Stop α) (rest : α → Prop) : Prop := ∀ a, found = .ok a → rest a

variable (rule : Rule)

def inFrame (frame : Frame) (inner : Session → Prop) (s : Session) : Prop :=
  rule (.push frame) s ∧ next (pushFrame frame) (fun _ => inner) s

def inScope (x : ScopeId) (inner : Session → Prop) (s : Session) : Prop :=
  if s.machine.stack.frames.isEmpty then
    inFrame rule s.machine.toplevelFrame (fun t => inner (t.mapFrame (·.pushInner x))) s
  else inner (s.mapFrame (·.pushInner x))

def onMachine (m : MachineId) (inner : Session → Prop) (s : Session) : Prop :=
  keeping (.machine s.running) inner (s.switch m)

/-! ## Calls -/

variable (run : Runner) (inside : Body → Session → Prop)

def invoke (callable : Callable) (args : List Value) (s : Session) : Prop :=
  args.length = callable.arity → ∀ scope, bindParameters callable args = .ok scope →
    next (newScope scope) (fun x => inScope rule x (inside callable.body)) s

def callMethod (callable : Callable) (owner : EntityId) (args : List Value) : Session → Prop :=
  keeping (.value (.entity owner)) fun s =>
    rule .ask s ∧
      next (newScope (identityScope s.heap owner (s.receiver owner)))
        (fun identity =>
          inFrame rule ⟨.entity (s.receiver owner), callable.name, methodChain s owner⟩
            (inScope rule identity (invoke rule inside callable args))) s

def call (b : BindingId) (args : List Value) : Session → Prop :=
  keeping (.value (.binding b)) fun s =>
    let binding := s.heap.binding b
    next (countCall binding.strategy.kind)
      (fun _ t =>
        match binding.strategy with
        | .function enclosing =>
            inFrame rule ⟨.binding b, binding.callable.name,
              enclosing.toList ++ [t.machine.globals]⟩ (invoke rule inside binding.callable args) t
        | .method owner => callMethod rule inside binding.callable owner args t
        | .declared owner =>
            rule .ask t ∧
              (t.isLive owner = true → callMethod rule inside binding.callable owner args t)
        | .closure captured =>
            inFrame rule captured (invoke rule inside binding.callable args) t) s

/-! ## Names -/

def get (x : ScopeId) (name : String) (s : Session) : Prop :=
  match s.heap.resolve x name with
  | some (_, .computed getter _) => call rule inside getter [] s
  | _ => True

def set (x : ScopeId) (name : String) (v : Value) (s : Session) : Prop :=
  match s.heap.resolve x name with
  | some (_, .computed _ (some setter)) => call rule inside setter [v] s
  | _ => True

def chainGet (chain : Chain) (name : String) : Session → Prop :=
  keeping (.ofScopes chain) fun s =>
    ∀ x, s.heap.findScope chain name = some x → get rule inside x name s

def chainSet (chain : Chain) (name : String) (v : Value) : Session → Prop :=
  keeping (.ofScopes chain) fun s =>
    ∀ x, s.heap.findScope chain name = some x → set rule inside x name v s

def lookup (name : String) (s : Session) : Prop :=
  chainGet rule inside s.machine.currentChain name s

def assign (name : String) (v : Value) (s : Session) : Prop :=
  chainSet rule inside s.machine.currentChain name v s

/-! ## Entities -/

def attach (b : BindingId) (s : Session) : Prop :=
  match (s.heap.binding b).strategy with
  | .declared _ => rule .ask s
  | _ => True

def getMember (e : EntityId) (name : String) (s : Session) : Prop :=
  s.heap.hasMember e name = true →
    get rule inside (s.heap.entity e).members name s ∧
      next ((s.heap.entity e).members.get run name)
        (fun v t => match v with
          | .binding b => attach rule b t
          | _ => True) s

def setMember (e : EntityId) (name : String) (v : Value) (s : Session) : Prop :=
  s.heap.hasMember e name = true → set rule inside (s.heap.entity e).members name v s

def invokeHook (e : EntityId) (name : String) (args : List Value) (s : Session) : Prop :=
  s.heap.supportsHook e name = true →
    get rule inside (s.heap.entity e).hooks name s ∧
      next ((s.heap.entity e).hooks.get run name)
        (fun v t => match v with
          | .binding b => call rule inside b args t
          | _ => True) s

def callValue (callee : Value) (args : List Value) : Session → Prop :=
  match callee with
  | .binding b => call rule inside b args
  | .entity e => keeping (.value callee) (invokeHook rule run inside e callHook args)
  | _ => fun _ => True

def invokeMember (e : EntityId) (name : String) (args : List Value) (s : Session) : Prop :=
  getMember rule run inside e name s ∧
    next (Delegation.getMember run e name) (fun v => callValue rule run inside v args) s

def rootMethod (method : RootMethod) (s : Session) : Prop :=
  lookup rule inside "self" s ∧
    (method = .hasMember → next (selfEntity run) (fun _ => lookup rule inside "name") s)

/-! ## Operations -/

def query (query : Query) (s : Session) : Prop :=
  match query with
  | .entity .receiver | .entity .isMostDerived | .entity .upgrade | .binding .owner => rule .ask s
  | _ => True

def tableCommand (command : TableCommand) (xs : List Object) (s : Session) : Prop :=
  match command with
  | .get =>
      given (operand xs 0 Object.asTable?) fun table =>
        given (operand xs 1 Object.asText?) fun name =>
          match table with
          | .inl x => get rule inside x name s
          | .inr c => chainGet rule inside (s.chain c) name s
  | .set =>
      given (operand xs 0 Object.asTable?) fun table =>
        given (operand xs 1 Object.asText?) fun name =>
          given (operand xs 2 Object.asValue?) fun v =>
            match table with
            | .inl x => set rule inside x name v s
            | .inr c => chainSet rule inside (s.chain c) name v s
  | _ => True

def entityCommand (command : EntityCommand) (xs : List Object) (s : Session) : Prop :=
  given (operand xs 0 Object.asEntity?) fun e =>
    match command with
    | .selfScope => rule .ask s
    | .getMember =>
        given (operand xs 1 Object.asText?) fun name => getMember rule run inside e name s
    | .setMember =>
        given (operand xs 1 Object.asText?) fun name =>
          given (operand xs 2 Object.asValue?) fun v => setMember rule inside e name v s
    | .send =>
        given (operand xs 1 Object.asText?) fun name =>
          given (operandsFrom xs 2 Object.asValue?) fun args =>
            invokeMember rule run inside e name args s
    | .sendHook =>
        given (operand xs 1 Object.asText?) fun name =>
          given (operandsFrom xs 2 Object.asValue?) fun args =>
            invokeHook rule run inside e name args s
    | .idMatches =>
        given (operand xs 1 Object.asEntity?) fun _ => invokeMember rule run inside e "id" [] s
    | _ => True

def callCommand (command : CallCommand) (xs : List Object) (s : Session) : Prop :=
  match command with
  | .invoke =>
      given (operand xs 0 Object.asCallable?) fun callable =>
        given (operandsFrom xs 1 Object.asValue?) fun args => invoke rule inside callable args s
  | .callBinding =>
      given (operand xs 0 Object.asBinding?) fun b =>
        given (operandsFrom xs 1 Object.asValue?) fun args => call rule inside b args s
  | .lookup => given (operand xs 0 Object.asText?) fun name => lookup rule inside name s
  | .assign =>
      given (operand xs 0 Object.asText?) fun name =>
        given (operand xs 1 Object.asValue?) fun v => assign rule inside name v s
  | .call =>
      given (operand xs 0 Object.asValue?) fun callee =>
        given (operandsFrom xs 1 Object.asValue?) fun args =>
          callValue rule run inside callee args s
  | _ => True

def command (command : Command) (xs : List Object) (s : Session) : Prop :=
  match command with
  | .table c => tableCommand rule inside c xs s
  | .entity c => entityCommand rule run inside c xs s
  | .call c => callCommand rule run inside c xs s
  | .stack _ | .registry _ => True

def act (operation : Operation) (xs : List Object) : Session → Prop :=
  keeping (.list xs) fun s =>
    match operation with
    | .query q => query rule q s
    | .command c => command rule run inside c xs s

/-! ## Evaluation -/

/-- An action that is done a number of times. -/
def times (action : Action α) (inner : Session → Prop) : Nat → Session → Prop
  | 0, _ => True
  | n + 1, s => inner s ∧ next action (fun _ => times action inner n) s

mutual

def eval : Expr → Session → Prop
  | .void, _ | .bool _, _ | .int _, _ | .str _, _ | .var _, _ | .drop _, _ | .callable _ _ _, _
  | .nullary _ _, _ | .machine _, _ | .install _, _ => True
  | .bind _ value, s | .log value, s | .machineOn _ value, s | .installOn _ value, s =>
      eval value s
  | .block body, s | .rescue body, s | .annotate _ body, s => evalBody body .void s
  | .cond test yes no, s =>
      eval test s ∧
        next (Delegation.eval run test)
          (fun x t => match x with
            | .value (.bool true) => eval yes t
            | .value (.bool false) => eval no t
            | _ => True) s
  | .iterate count body, s =>
      times (Delegation.evalBody run body .void) (evalBody body .void) count s
  | .withScope scope body, s =>
      eval scope s ∧
        next (Delegation.eval run scope)
          (fun x t => given (operand [x] 0 Object.asScope?) fun id =>
            keeping x (inScope rule id (evalBody body .void)) t) s
  | .withFrame frame body, s =>
      eval frame s ∧
        next (Delegation.eval run frame)
          (fun x t => given (operand [x] 0 Object.asFrame?) fun f =>
            keeping x (inFrame rule f (evalBody body .void)) t) s
  | .enterFrame frame body, s =>
      eval frame s ∧
        next (Delegation.eval run frame)
          (fun x t => given (operand [x] 0 Object.asFrame?) fun f =>
            inFrame rule f (evalBody body .void) t) s
  | .withMachine machine body, s =>
      eval machine s ∧
        next (Delegation.eval run machine)
          (fun x t => given (operand [x] 0 Object.asMachine?) fun m =>
            keeping x (onMachine m (evalBody body .void)) t) s
  | .apply operation operands, s =>
      evalOperands operands s ∧
        next (Delegation.evalOperands run operands) (act rule run inside operation) s

def evalBody : List Expr → Object → Session → Prop
  | [], _, _ => True
  | e :: rest, last, s =>
      keeping last (eval e) s ∧ next (holding last (Delegation.eval run e)) (evalBody rest) s

def evalOperands : List Expr → Session → Prop
  | [], _ => True
  | e :: rest, s =>
      eval e s ∧ next (Delegation.eval run e) (fun x => keeping x (evalOperands rest)) s

end

end Heeding

/-- A body that is run heeds the rule: it may begin in the session, and so may all that happens
before it ends, with further bodies followed to a depth of `nesting`. -/
def Rule.heeded (rule : Rule) : Nat → Body → Session → Prop
  | 0, _, _ => True
  | nesting + 1, body, s =>
      rule (.body body) s ∧
        match body with
        | .script address =>
            Heeding.evalBody rule (runBody nesting) (rule.heeded nesting)
              (s.code.getD address []) .void s
        | .root method => Heeding.rootMethod rule (runBody nesting) (rule.heeded nesting) method s

/-- A call of a binding heeds the rule. -/
def BindingId.heeds (rule : Rule) (nesting : Nat) (b : BindingId) (args : List Value) :
    Session → Prop :=
  Heeding.call rule (rule.heeded nesting) b args

end Delegation
