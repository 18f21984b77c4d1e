import Delegation.Query.Table
import Delegation.Query.Entity
import Delegation.Query.Machine

/-!
# Queries

A query is answered from the session and its operands alone. It has no way to change the session,
which is why it is not an action.
-/

namespace Delegation

def Query.answer (query : Query) (session : Session) (xs : List Object) : Except Stop Object :=
  match query with
  | .data query => query.answer session xs
  | .failure query => query.answer xs
  | .table query => query.answer session xs
  | .entity query => query.answer session xs
  | .binding query => query.answer session xs
  | .stack query => query.answer session xs
  | .machine query => query.answer session xs

end Delegation
