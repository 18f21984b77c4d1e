import Delegation.Access
import Delegation.Action
import Delegation.Binding
import Delegation.Callable
import Delegation.Cell
import Delegation.Command
import Delegation.Command.Call
import Delegation.Command.Entity
import Delegation.Command.Registry
import Delegation.Command.Stack
import Delegation.Command.Table
import Delegation.Counters
import Delegation.Datum
import Delegation.Dispatch
import Delegation.Entity
import Delegation.Evaluation
import Delegation.Extent
import Delegation.Failure
import Delegation.Form
import Delegation.Heap
import Delegation.Invocation
import Delegation.Machine
import Delegation.Mode
import Delegation.Object
import Delegation.Operand
import Delegation.Ownership
import Delegation.Ownership.Census
import Delegation.Program
import Delegation.Proofs.Accessors
import Delegation.Proofs.Activation
import Delegation.Proofs.Answering
import Delegation.Proofs.Asking
import Delegation.Proofs.Balance
import Delegation.Proofs.Budget
import Delegation.Proofs.Chains
import Delegation.Proofs.Chronicle
import Delegation.Proofs.Closures
import Delegation.Proofs.Construction
import Delegation.Proofs.Cooperation
import Delegation.Proofs.Course
import Delegation.Proofs.Course.Evaluation
import Delegation.Proofs.Course.Machines
import Delegation.Proofs.Course.Meters
import Delegation.Proofs.Declarations
import Delegation.Proofs.Detachment
import Delegation.Proofs.Dispatch
import Delegation.Proofs.Encapsulation
import Delegation.Proofs.Entry
import Delegation.Proofs.Failing
import Delegation.Proofs.Fetching
import Delegation.Proofs.Gate
import Delegation.Proofs.Globals
import Delegation.Proofs.Grammar
import Delegation.Proofs.Heap.Growth
import Delegation.Proofs.Heap.Layers
import Delegation.Proofs.Heap.Order
import Delegation.Proofs.Heap.Shape
import Delegation.Proofs.Heap.Step
import Delegation.Proofs.Heap.Tables
import Delegation.Proofs.Heeding
import Delegation.Proofs.Instantiation
import Delegation.Proofs.Isolation
import Delegation.Proofs.Layering
import Delegation.Proofs.Level
import Delegation.Proofs.Limits
import Delegation.Proofs.Liveness
import Delegation.Proofs.Liveness.Census
import Delegation.Proofs.Liveness.Holding
import Delegation.Proofs.Liveness.Receiver
import Delegation.Proofs.Logic
import Delegation.Proofs.Logic.Calls
import Delegation.Proofs.Logic.Commands
import Delegation.Proofs.Logic.Evaluation
import Delegation.Proofs.Moments
import Delegation.Proofs.Nesting
import Delegation.Proofs.Outcome
import Delegation.Proofs.Parameters
import Delegation.Proofs.Passing
import Delegation.Proofs.Permanence
import Delegation.Proofs.Places
import Delegation.Proofs.Profiling
import Delegation.Proofs.Properties
import Delegation.Proofs.Reachability
import Delegation.Proofs.Redirection
import Delegation.Proofs.Refusals
import Delegation.Proofs.Resolution
import Delegation.Proofs.RootProtocol
import Delegation.Proofs.Routes
import Delegation.Proofs.Run
import Delegation.Proofs.Run.Calls
import Delegation.Proofs.Run.Commands
import Delegation.Proofs.Run.Evaluation
import Delegation.Proofs.Run.Operands
import Delegation.Proofs.Run.Queries
import Delegation.Proofs.Run.Registries
import Delegation.Proofs.Run.Rules
import Delegation.Proofs.Run.Soundness
import Delegation.Proofs.Run.Start
import Delegation.Proofs.Sealing
import Delegation.Proofs.Secrecy.Answers
import Delegation.Proofs.Secrecy.Calls
import Delegation.Proofs.Secrecy.Commands
import Delegation.Proofs.Secrecy.Evaluation
import Delegation.Proofs.Secrecy.Exposure
import Delegation.Proofs.Secrecy.Hidden
import Delegation.Proofs.Secrecy.Rules
import Delegation.Proofs.Secrecy.Veil
import Delegation.Proofs.Sight
import Delegation.Proofs.Suspension
import Delegation.Proofs.Tables
import Delegation.Proofs.Tallies
import Delegation.Proofs.Transparency
import Delegation.Proofs.Twins.Agreement
import Delegation.Proofs.Twins.Calls
import Delegation.Proofs.Twins.Calm
import Delegation.Proofs.Twins.Commands
import Delegation.Proofs.Twins.Evaluation
import Delegation.Proofs.Twins.Relation
import Delegation.Proofs.Twins.Surroundings
import Delegation.Proofs.Twins.Traces
import Delegation.Query
import Delegation.Query.Data
import Delegation.Query.Entity
import Delegation.Query.Machine
import Delegation.Query.Table
import Delegation.Reading
import Delegation.Reading.Names
import Delegation.Reading.Settings
import Delegation.Registry
import Delegation.Registry.Construction
import Delegation.Registry.Protocol
import Delegation.Report
import Delegation.Scope
import Delegation.Script
import Delegation.Session
import Delegation.Stack
import Delegation.Symbol
import Delegation.Value
