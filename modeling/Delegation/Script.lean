import Delegation.Mode

/-!
# Scripts

Programs and the bodies of callables are scripts: lists of expressions, evaluated in order. An
expression is a literal, one of the forms that control evaluation or bring a body along, or an
operation applied to operands. Operations are of two sorts. A query reads the session and leaves it
as it is; a command may change it or run bodies. Which operations a script mentions therefore shows
in its text, and with it what the script cannot do.
-/

namespace Delegation

/-- Queries on plain values and lists. -/
inductive DataQuery where
  | list | nth | add | sub | lt | concat | eq | same | display | typeOf | isVoid | debug
  deriving DecidableEq, Repr

/-- Queries on symbols and failures. -/
inductive FailureQuery where
  | isIdentifier | isHook | accepts | fail | raise | error | errNote | errStrip | errTrace
  | traceText | traceLen | traceIsEmpty
  deriving DecidableEq, Repr

/-- Queries on cells, scopes and chains. -/
inductive TableQuery where
  | mutable | constant | computed | contains | containsLocal | cellKind | symbols | len | isEmpty
  | parent | chainScopes
  deriving DecidableEq, Repr

inductive EntityQuery where
  | entityName | typeDef | typeName | superEntity | receiver | isMostDerived | weak | upgrade
  | fields | hooks | members | publicView | hasMember | supportsHook
  deriving DecidableEq, Repr

/-- Queries on callables and bindings. -/
inductive BindingQuery where
  | kind | name | arity | owner | captured | callable
  deriving DecidableEq, Repr

/-- Queries on frames and stacks. -/
inductive StackQuery where
  | frame | frameOwner | current | frames | depth | isEmpty | limit | capture | attach
  deriving DecidableEq, Repr

/-- Queries on registries and the running machine. -/
inductive MachineQuery where
  | registry | coreTypes | registryScope | registryType | globals | callCount | mode | modeLimits
  | counters | report | toplevelFrame
  deriving DecidableEq, Repr

/-- Operations that read the session and leave it as it is. -/
inductive Query where
  | data (query : DataQuery)
  | failure (query : FailureQuery)
  | table (query : TableQuery)
  | entity (query : EntityQuery)
  | binding (query : BindingQuery)
  | stack (query : StackQuery)
  | machine (query : MachineQuery)
  deriving DecidableEq, Repr

/-- Commands on scopes and chains. -/
inductive TableCommand where
  | scope | child | declare | seal | get | set
  | chain | copyChain | frameChain | currentChain | privateView | pushInner | pushOuter | popInner
  deriving DecidableEq, Repr

inductive EntityCommand where
  | entity | selfScope | hook | method | field | property
  | getMember | setMember | send | sendHook | idMatches
  deriving DecidableEq, Repr

/-- Commands that make bindings and run bodies. -/
inductive CallCommand where
  | invoke | function | bound | closure | callBinding | lookup | assign | call
  deriving DecidableEq, Repr

/-- Commands that handle stacks by hand, that of the running machine included. -/
inductive StackCommand where
  | stack | push | pop | pushInner | popInner | suspend | resume
  deriving DecidableEq, Repr

/-- Commands that build registries and instantiate what is registered. -/
inductive RegistryCommand where
  | builder | register | registerType | rootMethod | build | bootstrap | empty
  | instantiateRoot | instantiateChain
  deriving DecidableEq, Repr

/-- Operations that may change the session or run bodies. -/
inductive Command where
  | table (command : TableCommand)
  | entity (command : EntityCommand)
  | call (command : CallCommand)
  | stack (command : StackCommand)
  | registry (command : RegistryCommand)
  deriving DecidableEq, Repr

/-- What an expression applies to its operands. -/
inductive Operation where
  | query (query : Query)
  | command (command : Command)
  deriving DecidableEq, Repr

/-- An expression. A list of expressions is a body. -/
inductive Expr where
  | void
  | bool (b : Bool)
  | int (n : Int64)
  | str (s : String)
  | var (name : String)
  /-- Evaluates, and stores the result in a variable. -/
  | bind (name : String) (value : Expr)
  | drop (name : String)
  | block (body : List Expr)
  | cond (test yes no : Expr)
  /-- Runs the body a number of times. -/
  | iterate (count : Nat) (body : List Expr)
  /-- Evaluates, and reports the result in the log of the step. -/
  | log (value : Expr)
  /-- Turns a failure of the body into a result. -/
  | rescue (body : List Expr)
  /-- Adds a note to a failure of the body. -/
  | annotate (note : String) (body : List Expr)
  | callable (name : String) (params : List String) (body : List Expr)
  | nullary (name : String) (body : List Expr)
  /-- Runs the body with a scope in front of the current chain. -/
  | withScope (scope : Expr) (body : List Expr)
  /-- Runs the body inside a frame; a failure that leaves it gains a trace. -/
  | withFrame (frame : Expr) (body : List Expr)
  /-- Runs the body inside a frame; failures pass as they are. -/
  | enterFrame (frame : Expr) (body : List Expr)
  | withMachine (machine : Expr) (body : List Expr)
  /-- A new machine with the registry its configuration names. -/
  | machine (config : Config)
  | machineOn (config : Config) (registry : Expr)
  | install (config : Config)
  /-- Replaces the running machine by a new one with the given registry. -/
  | installOn (config : Config) (registry : Expr)
  | apply (operation : Operation) (operands : List Expr)

end Delegation
