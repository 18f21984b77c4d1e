import Delegation.Query.Data

/-!
# Queries on tables

Cells, scopes and chains. A scope answers for itself and its ancestors where a name is resolved, and
for itself alone where its own symbols are asked for; a chain answers for its scopes in order.
-/

namespace Delegation

/-- A scope or a chain, whichever names are looked for in. -/
def Object.asTable? : Object → Option (ScopeId ⊕ ChainId)
  | .scope s => some (.inl s)
  | .chain c => some (.inr c)
  | _ => none

namespace TableQuery

/-- Answers a query on cells, scopes and chains. -/
def answer (query : TableQuery) (session : Session) (xs : List Object) : Except Stop Object :=
  match query with
  | .mutable => return .cell (.mutable (← operand xs 0 Object.asValue?))
  | .constant => return .cell (.constant (← operand xs 0 Object.asValue?))
  | .computed =>
      return .cell (.computed (← operand xs 0 Object.asBinding?)
        (← operand xs 1 (Object.orVoid? Object.asBinding?)))
  | .contains => do
      let name ← operand xs 1 Object.asText?
      match ← operand xs 0 Object.asTable? with
      | .inl s => return .ofBool (session.heap.contains s name)
      | .inr c => return .ofBool ((session.chain c).any fun s => session.heap.contains s name)
  | .containsLocal => do
      let scope := session.heap.scope (← operand xs 0 Object.asScope?)
      return .ofBool (scope.declares (← operand xs 1 Object.asText?))
  | .cellKind => do
      let s ← operand xs 0 Object.asScope?
      let kind := session.heap.cellKind? s (← operand xs 1 Object.asText?)
      return .ofOption (fun kind => .ofText kind.text) kind
  | .symbols => return .ofTexts (session.heap.scope (← operand xs 0 Object.asScope?)).symbols
  | .len => do
      match ← operand xs 0 Object.asTable? with
      | .inl s => return .ofNat (session.heap.scope s).cells.length
      | .inr c => return .ofNat (session.chain c).length
  | .isEmpty => do
      match ← operand xs 0 Object.asTable? with
      | .inl s => return .ofBool (session.heap.scope s).cells.isEmpty
      | .inr c => return .ofBool (session.chain c).isEmpty
  | .parent => return .ofOption .scope (session.heap.scope (← operand xs 0 Object.asScope?)).parent
  | .chainScopes => return .ofScopes (session.chain (← operand xs 0 Object.asChain?))

end TableQuery

end Delegation
