import Delegation.Command.Table
import Delegation.Command.Entity
import Delegation.Command.Call
import Delegation.Command.Stack
import Delegation.Command.Registry

/-!
# Commands

A command may change the session and run bodies. Only commands on stacks and the forms that bring a
body along touch a stack by themselves.
-/

namespace Delegation

def Command.act (run : Runner) (command : Command) (xs : List Object) : Action Object :=
  match command with
  | .table command => command.act run xs
  | .entity command => command.act run xs
  | .call command => command.act run xs
  | .stack command => command.act xs
  | .registry command => command.act xs

end Delegation
