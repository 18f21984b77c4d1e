import Delegation.Program
import Delegation.Proofs.Outcome

/-!
# The chronicle of a run

A chronicle lists what happens in the course of a run, in the order in which it happens: operations
and calls, bodies that begin, frames that are entered and left, failures that arise and failures
that are caught. Each entry comes with the session of that moment.

The chronicle of an action is said along its definition, with the sessions that the action itself
leads to. As with the actions, what concerns the bodies is a parameter at first.
-/

namespace Delegation

/-- What is worth an entry. -/
inductive Deed where
  /-- An operation is carried out on its operands. -/
  | operation (operation : Operation) (operands : List Object)
  /-- A frame has been entered. If it is traced, failures that leave it take the trace of the stack
  along; otherwise they leave it as they are. -/
  | enterFrame (traced : Bool) (frame : Frame)
  /-- The frame entered last is left. -/
  | leaveFrame
  /-- Another machine is to take over for a while. -/
  | withMachine (machine : MachineId)
  /-- A new machine is made. -/
  | build (config : Config)
  /-- The running machine is to be replaced by a new one. -/
  | install (config : Config)
  /-- A binding is called. Whether the call is allowed has not been looked at yet. -/
  | call (binding : BindingId) (args : List Value)
  /-- The body of a binding that was called begins. -/
  | serve (binding : BindingId)
  | body (body : Body)
  /-- A failure arises. -/
  | raise (failure : Failure)
  /-- The failure that arose last is caught. -/
  | rescue

/-- An entry of a chronicle. -/
structure Moment where
  deed : Deed
  session : Session

/-- What happens in the course of a run, in order. -/
abbrev Chronicle := List Moment

namespace Chronicle

variable {α : Type}

/-! ## Ways of putting actions together -/

/-- What follows an action, if the action gives a result. -/
def next (action : Action α) (rest : α → Session → Chronicle) (s : Session) : Chronicle :=
  match action s with
  | .ok a t => rest a t
  | .error _ _ => []

/-- An action of which nothing is noted but its failure, and what follows it. -/
def step (action : Action α) (rest : α → Session → Chronicle) (s : Session) : Chronicle :=
  match action s with
  | .ok a t => rest a t
  | .error (.failure failure) t => [⟨.raise failure, t⟩]
  | .error _ _ => []

/-- An action of which nothing is noted but its failure. -/
def quietly (action : Action α) : Session → Chronicle := step action fun _ _ => []

def failing (cause : Cause) (s : Session) : Chronicle := [⟨.raise (.ofCause cause), s⟩]

/-- What is read from operands, and what follows if they can be read. -/
def given (found : Except Stop α) (rest : α → Session → Chronicle) : Session → Chronicle :=
  step (liftM found : Action α) rest

def keeping (x : Object) (inner : Session → Chronicle) (s : Session) : Chronicle :=
  inner { s with held := x :: s.held }

/-- An action inside a frame, from entering it to leaving it. -/
def inFrame (traced : Bool) (frame : Frame) (action : Action α) (inner : Session → Chronicle) :
    Session → Chronicle :=
  step (pushFrame frame) fun _ s =>
    ⟨.enterFrame traced frame, s⟩ :: inner s ++ [⟨.leaveFrame, action.after s⟩]

def shadowed (x : ScopeId) (inner : Session → Chronicle) (s : Session) : Chronicle :=
  inner (s.mapFrame (·.pushInner x))

def inScope (x : ScopeId) (action : Action α) (inner : Session → Chronicle) (s : Session) :
    Chronicle :=
  if s.machine.stack.frames.isEmpty then
    inFrame true s.machine.toplevelFrame (shadowing x action) (shadowed x inner) s
  else shadowed x inner s

def onMachine (m : MachineId) (inner : Session → Chronicle) (s : Session) : Chronicle :=
  ⟨.withMachine m, s⟩ :: keeping (.machine s.running) inner (s.switch m)

/-- What happens if the failure of an action is caught. -/
def caught (action : Action α) (rest : Failure → Session → Chronicle) (s : Session) : Chronicle :=
  match action s with
  | .error (.failure failure) t => ⟨.rescue, t⟩ :: rest failure t
  | _ => []

/-! ## Calls -/

variable (run : Runner) (bodies : Body → Session → Chronicle)

def invoke (callable : Callable) (args : List Value) (s : Session) : Chronicle :=
  if args.length ≠ callable.arity then
    failing (.arityMismatch callable.name callable.arity args.length) s
  else
    match bindParameters callable args with
    | .error cause => failing cause s
    | .ok scope =>
        step (newScope scope) (fun x => inScope x (run callable.body) (bodies callable.body)) s

def callMethod (callable : Callable) (owner : EntityId) (args : List Value) :
    Session → Chronicle :=
  keeping (.value (.entity owner)) fun s =>
    let receiver := s.receiver owner
    step (newScope (identityScope s.heap owner receiver))
      (fun identity =>
        inFrame true ⟨.entity receiver, callable.name, methodChain s owner⟩
          (withScope identity (callable.invoke run args))
          (inScope identity (callable.invoke run args) (invoke run bodies callable args))) s

/-- What bodies do, the first of which is that of a binding. -/
def serving (b : BindingId) (body : Body) (s : Session) : Chronicle :=
  ⟨.serve b, s⟩ :: bodies body s

def call (b : BindingId) (args : List Value) (s : Session) : Chronicle :=
  ⟨.call b args, s⟩ :: keeping (.value (.binding b))
    (fun s =>
      let binding := s.heap.binding b
      step (countCall binding.strategy.kind)
        (fun _ t =>
          match binding.strategy with
          | .function enclosing =>
              inFrame true ⟨.binding b, binding.callable.name,
                  enclosing.toList ++ [t.machine.globals]⟩ (binding.callable.invoke run args)
                (invoke run (serving bodies b) binding.callable args) t
          | .method owner => callMethod run (serving bodies b) binding.callable owner args t
          | .declared owner =>
              if t.isLive owner then
                callMethod run (serving bodies b) binding.callable owner args t
              else failing (.detachedReceiver binding.callable.name) t
          | .closure captured =>
              inFrame true captured (binding.callable.invoke run args)
                (invoke run (serving bodies b) binding.callable args) t) s) s

/-! ## Names -/

def get (x : ScopeId) (name : String) (s : Session) : Chronicle :=
  match s.heap.resolve x name with
  | some (_, .computed getter _) => call run bodies getter [] s
  | _ => quietly (x.get run name) s

def set (x : ScopeId) (name : String) (v : Value) (s : Session) : Chronicle :=
  match s.heap.resolve x name with
  | some (_, .computed _ (some setter)) => call run bodies setter [v] s
  | _ => quietly (x.set run name v) s

def chainGet (chain : Chain) (name : String) : Session → Chronicle :=
  keeping (.ofScopes chain) fun s =>
    match s.heap.findScope chain name with
    | some x => get run bodies x name s
    | none => failing (.unknownSymbol name) s

def chainSet (chain : Chain) (name : String) (v : Value) : Session → Chronicle :=
  keeping (.ofScopes chain) fun s =>
    match s.heap.findScope chain name with
    | some x => set run bodies x name v s
    | none => failing (.unknownSymbol name) s

def lookup (name : String) (s : Session) : Chronicle :=
  chainGet run bodies s.machine.currentChain name s

def assign (name : String) (v : Value) (s : Session) : Chronicle :=
  chainSet run bodies s.machine.currentChain name v s

/-! ## Entities -/

def getMember (e : EntityId) (name : String) (s : Session) : Chronicle :=
  if s.heap.hasMember e name then get run bodies (s.heap.entity e).members name s
  else failing (.unknownMember name (s.heap.entity e).name) s

def setMember (e : EntityId) (name : String) (v : Value) (s : Session) : Chronicle :=
  if s.heap.hasMember e name then set run bodies (s.heap.entity e).members name v s
  else failing (.unknownMember name (s.heap.entity e).name) s

def invokeHook (e : EntityId) (name : String) (args : List Value) (s : Session) : Chronicle :=
  if s.heap.supportsHook e name then
    get run bodies (s.heap.entity e).hooks name s ++
      next ((s.heap.entity e).hooks.get run name)
        (fun v t => match v with
          | .binding b => call run bodies b args t
          | v => failing (.notCallable v.typeName) t) s
  else failing (.unsupportedHook name (s.heap.entity e).name) s

def callValue (callee : Value) (args : List Value) : Session → Chronicle :=
  match callee with
  | .binding b => call run bodies b args
  | .entity e => keeping (.value callee) fun s =>
      if s.heap.supportsHook e callHook then invokeHook run bodies e callHook args s
      else failing (.notCallable (s.heap.typeName e)) s
  | v => failing (.notCallable v.typeName)

def invokeMember (e : EntityId) (name : String) (args : List Value) (s : Session) : Chronicle :=
  getMember run bodies e name s ++
    next (Delegation.getMember run e name) (fun v => callValue run bodies v args) s

def selfEntity (s : Session) : Chronicle :=
  lookup run bodies "self" s ++
    next (Delegation.lookup run "self")
      (fun v t => match v with
        | .entity _ => []
        | v => failing (.custom ("expected an entity receiver, got " ++ v.typeName)) t) s

def rootMethod (method : RootMethod) (s : Session) : Chronicle :=
  selfEntity run bodies s ++
    next (Delegation.selfEntity run)
      (fun _ t => match method with
        | .hasMember =>
            lookup run bodies "name" t ++
              next (Delegation.lookup run "name")
                (fun v u => match v with
                  | .str _ => []
                  | v => failing
                      (.custom ("has_member expects a str argument, got " ++ v.typeName)) u) t
        | _ => []) s

/-! ## Operations -/

def tableCommand (command : TableCommand) (xs : List Object) : Session → Chronicle :=
  match command with
  | .get =>
      given (operand xs 0 Object.asTable?) fun table =>
        given (operand xs 1 Object.asText?) fun name s =>
          match table with
          | .inl x => get run bodies x name s
          | .inr c => chainGet run bodies (s.chain c) name s
  | .set =>
      given (operand xs 0 Object.asTable?) fun table =>
        given (operand xs 1 Object.asText?) fun name =>
          given (operand xs 2 Object.asValue?) fun v s =>
            match table with
            | .inl x => set run bodies x name v s
            | .inr c => chainSet run bodies (s.chain c) name v s
  | command => quietly (command.act run xs)

def entityCommand (command : EntityCommand) (xs : List Object) : Session → Chronicle :=
  match command with
  | .getMember =>
      given (operand xs 0 Object.asEntity?) fun e =>
        given (operand xs 1 Object.asText?) fun name => getMember run bodies e name
  | .setMember =>
      given (operand xs 0 Object.asEntity?) fun e =>
        given (operand xs 1 Object.asText?) fun name =>
          given (operand xs 2 Object.asValue?) fun v => setMember run bodies e name v
  | .send =>
      given (operand xs 0 Object.asEntity?) fun e =>
        given (operand xs 1 Object.asText?) fun name =>
          given (operandsFrom xs 2 Object.asValue?) fun args => invokeMember run bodies e name args
  | .sendHook =>
      given (operand xs 0 Object.asEntity?) fun e =>
        given (operand xs 1 Object.asText?) fun name =>
          given (operandsFrom xs 2 Object.asValue?) fun args => invokeHook run bodies e name args
  | .idMatches =>
      given (operand xs 0 Object.asEntity?) fun e =>
        given (operand xs 1 Object.asEntity?) fun _ => invokeMember run bodies e "id" []
  | command => quietly (command.act run xs)

def callCommand (command : CallCommand) (xs : List Object) : Session → Chronicle :=
  match command with
  | .invoke =>
      given (operand xs 0 Object.asCallable?) fun callable =>
        given (operandsFrom xs 1 Object.asValue?) fun args => invoke run bodies callable args
  | .callBinding =>
      given (operand xs 0 Object.asBinding?) fun b =>
        given (operandsFrom xs 1 Object.asValue?) fun args => call run bodies b args
  | .lookup => given (operand xs 0 Object.asText?) fun name => lookup run bodies name
  | .assign =>
      given (operand xs 0 Object.asText?) fun name =>
        given (operand xs 1 Object.asValue?) fun v => assign run bodies name v
  | .call =>
      given (operand xs 0 Object.asValue?) fun callee =>
        given (operandsFrom xs 1 Object.asValue?) fun args => callValue run bodies callee args
  | command => quietly (command.act run xs)

def command (command : Command) (xs : List Object) : Session → Chronicle :=
  match command with
  | .table command => tableCommand run bodies command xs
  | .entity command => entityCommand run bodies command xs
  | .call command => callCommand run bodies command xs
  | .stack command => quietly (command.act xs)
  | .registry command => quietly (command.act xs)

def act (operation : Operation) (xs : List Object) : Session → Chronicle :=
  keeping (.list xs) fun s =>
    ⟨.operation operation xs, s⟩ ::
      match operation with
      | .query q => quietly (liftM (q.answer s xs) : Action Object) s
      | .command c => command run bodies c xs s

/-! ## Evaluation -/

/-- An action that is done a number of times. -/
def times (action : Action Object) (inner : Session → Chronicle) : Nat → Session → Chronicle
  | 0, _ => []
  | n + 1, s => inner s ++ next action (fun _ => times action inner n) s

mutual

def eval : Expr → Session → Chronicle
  | .void, _ | .bool _, _ | .int _, _ | .str _, _ | .drop _, _ => []
  | .var name, s => quietly (readVariable name) s
  | .bind _ value, s | .log value, s => eval value s
  | .block body, s => evalBody body .void s
  | .cond test yes no, s =>
      eval test s ++
        next (Delegation.eval run test)
          (fun x t => match x with
            | .value (.bool true) => eval yes t
            | .value (.bool false) => eval no t
            | _ => []) s
  | .iterate count body, s =>
      times (Delegation.evalBody run body .void) (evalBody body .void) count s
  | .rescue body, s =>
      evalBody body .void s ++ caught (Delegation.evalBody run body .void) (fun _ _ => []) s
  | .annotate note body, s =>
      evalBody body .void s ++
        caught (Delegation.evalBody run body .void)
          (fun failure t => [⟨.raise (failure.withNote note), t⟩]) s
  | .callable name params body, s => quietly (makeCallable name params body) s
  | .nullary _ _, _ => []
  | .withScope scope body, s =>
      eval scope s ++
        next (Delegation.eval run scope)
          (fun x => given (operand [x] 0 Object.asScope?) fun id =>
            keeping x (inScope id (Delegation.evalBody run body .void) (evalBody body .void))) s
  | .withFrame frame body, s =>
      eval frame s ++
        next (Delegation.eval run frame)
          (fun x => given (operand [x] 0 Object.asFrame?) fun f =>
            keeping x (inFrame true f (Delegation.evalBody run body .void) (evalBody body .void))) s
  | .enterFrame frame body, s =>
      eval frame s ++
        next (Delegation.eval run frame)
          (fun x => given (operand [x] 0 Object.asFrame?) fun f =>
            inFrame false f (Delegation.evalBody run body .void) (evalBody body .void)) s
  | .withMachine machine body, s =>
      eval machine s ++
        next (Delegation.eval run machine)
          (fun x => given (operand [x] 0 Object.asMachine?) fun m =>
            keeping x (onMachine m (evalBody body .void))) s
  | .machine config, s =>
      step (Registry.ofConfig config) (fun _ t => [⟨.build config, t⟩]) s
  | .machineOn config registry, s =>
      eval registry s ++
        next (Delegation.eval run registry)
          (fun x => given (operand [x] 0 Object.asRegistry?) fun _ t => [⟨.build config, t⟩]) s
  | .install config, s =>
      step (Registry.ofConfig config) (fun _ t => [⟨.install config, t⟩]) s
  | .installOn config registry, s =>
      eval registry s ++
        next (Delegation.eval run registry)
          (fun x => given (operand [x] 0 Object.asRegistry?) fun _ t => [⟨.install config, t⟩]) s
  | .apply operation operands, s =>
      evalOperands operands s ++
        next (Delegation.evalOperands run operands) (act run bodies operation) s

def evalBody : List Expr → Object → Session → Chronicle
  | [], _, _ => []
  | e :: rest, last, s =>
      keeping last (eval e) s ++ next (holding last (Delegation.eval run e)) (evalBody rest) s

def evalOperands : List Expr → Session → Chronicle
  | [], _ => []
  | e :: rest, s =>
      eval e s ++ next (Delegation.eval run e) (fun x => keeping x (evalOperands rest)) s

end

end Chronicle

/-- What a body does, with further bodies followed to a depth of `nesting`. -/
def Body.chronicle : Nat → Body → Session → Chronicle
  | 0, _, _ => []
  | nesting + 1, body, s =>
      ⟨.body body, s⟩ ::
        match body with
        | .script address =>
            Chronicle.evalBody (runBody nesting) (Body.chronicle nesting)
              (s.code.getD address []) .void s
        | .root method =>
            Chronicle.rootMethod (runBody nesting) (Body.chronicle nesting) method s

/-- What the evaluation of an expression does. -/
def Expr.chronicle (nesting : Nat) (e : Expr) : Session → Chronicle :=
  Chronicle.eval (runBody nesting) (Body.chronicle nesting) e

/-- What a call of a binding does. -/
def BindingId.chronicle (nesting : Nat) (b : BindingId) (args : List Value) :
    Session → Chronicle :=
  Chronicle.call (runBody nesting) (Body.chronicle nesting) b args

namespace Program

/-- What a step of a program does. Its failure is caught and reported. -/
def stepChronicle (e : Expr) (s : Session) : Chronicle :=
  let s := { s with log := [] }
  e.chronicle nestingBound s ++
    Chronicle.caught (do reportObject (← eval (runBody nestingBound) e)) (fun _ _ => []) s

/-- What the steps of a program do. -/
def chronicle : List Expr → Session → Chronicle
  | [], _ => []
  | e :: rest, s => stepChronicle e s ++ Chronicle.next (step e) (fun _ => chronicle rest) s

end Program

/-! ## Moments of what is put together -/

namespace Chronicle

variable {holds : Moment → Prop} {action : Action α} {rest : α → Session → Chronicle} {s : Session}

theorem forall_mem_step
    (raised : ∀ failure t, action s = .error (.failure failure) t → holds ⟨.raise failure, t⟩)
    (further : ∀ a t, action s = .ok a t → ∀ moment ∈ rest a t, holds moment) :
    ∀ moment ∈ step action rest s, holds moment := by
  unfold step
  split
  · next ends => exact further _ _ ends
  · next ends => exact List.forall_mem_singleton.2 (raised _ _ ends)
  · exact List.forall_mem_nil _

theorem forall_mem_next
    (further : ∀ a t, action s = .ok a t → ∀ moment ∈ rest a t, holds moment) :
    ∀ moment ∈ next action rest s, holds moment := by
  unfold next
  split
  · next ends => exact further _ _ ends
  · exact List.forall_mem_nil _

theorem forall_mem_caught {rest : Failure → Session → Chronicle}
    (further : ∀ failure t, action s = .error (.failure failure) t →
      holds ⟨.rescue, t⟩ ∧ ∀ moment ∈ rest failure t, holds moment) :
    ∀ moment ∈ caught action rest s, holds moment := by
  unfold caught
  split
  · next ends => exact List.forall_mem_cons.2 (further _ _ ends)
  · exact List.forall_mem_nil _

end Chronicle

/-! ## Accounts

An account is kept along a chronicle: it is opened with some value, and every moment advances it. -/

namespace Chronicle

variable {σ : Type} (advance : σ → Moment → σ) (holds : σ → Moment → Prop)

/-- Something holds of every moment of a chronicle, given the account up to then. -/
def Accords : σ → Chronicle → Prop
  | _, [] => True
  | a, moment :: rest => holds a moment ∧ Accords (advance a moment) rest

instance [∀ a moment, Decidable (holds a moment)] :
    ∀ a c, Decidable (Accords advance holds a c)
  | _, [] => inferInstanceAs (Decidable True)
  | a, moment :: rest =>
      have := instDecidableAccords (advance a moment) rest
      inferInstanceAs (Decidable (holds a moment ∧ Accords advance holds (advance a moment) rest))

variable {advance holds} {a : σ} {c d : Chronicle}

theorem accords_append :
    Accords advance holds a (c ++ d) ↔
      Accords advance holds a c ∧ Accords advance holds (c.foldl advance a) d := by
  induction c generalizing a with
  | nil => simp [Accords]
  | cons moment rest ih => simp [Accords, ih, and_assoc]

/-- What holds in the course of a chronicle holds of each of its moments. -/
theorem Accords.moment {before after : Chronicle} {moment : Moment}
    (accords : Accords advance holds a c) (place : c = before ++ moment :: after) :
    holds (before.foldl advance a) moment := by
  subst place
  exact (accords_append.1 accords).2.1

theorem Accords.imp {weaker : σ → Moment → Prop} (accords : Accords advance holds a c)
    (weak : ∀ a moment, holds a moment → weaker a moment) : Accords advance weaker a c := by
  induction c generalizing a with
  | nil => trivial
  | cons moment rest ih => exact ⟨weak a moment accords.1, ih accords.2⟩

end Chronicle

end Delegation
