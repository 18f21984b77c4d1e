import Delegation.Reading.Names
import Delegation.Reading.Settings

/-!
# Reading scripts

An expression is written as a datum. Null, truth values, integers and texts stand for themselves; a
list whose first item is a text stands for the form or operation of that name. The operands of an
operation are expressions; of the operands of a form some are expressions and some are names, counts
or settings. So every item of a list is read as an expression first, and a form takes the item
itself where it wants no expression.
-/

namespace Delegation

/-- An item of a list, and the expression it stands for if it stands for one. -/
abbrev Item := Datum × Reading Expr

/-- The expressions that all items stand for. -/
def Item.exprs (items : List Item) : Reading (List Expr) := items.mapM Prod.snd

/-- The form or operation of a name, applied to items. -/
def Expr.ofItems (name : String) (items : List Item) : Reading Expr :=
  match name, items with
  | "let", [(.text x, _), (_, value)] => return .bind x (← value)
  | "var", [(.text x, _)] => return .var x
  | "drop", [(.text x, _)] => return .drop x
  | "do", body => return .block (← Item.exprs body)
  | "if", [(_, test), (_, yes), (_, no)] => return .cond (← test) (← yes) (← no)
  | "repeat", (count, _) :: body => do
      let some n := count.asNat? | .error "a count is no number"
      return .iterate n (← Item.exprs body)
  | "log", [(_, value)] => return .log (← value)
  | "catch", body => return .rescue (← Item.exprs body)
  | "note", (.text note, _) :: body => return .annotate note (← Item.exprs body)
  | "callable", (.text name, _) :: (params, _) :: body => do
      let some params := params.asTexts? | .error "parameters are no list of names"
      return .callable name params (← Item.exprs body)
  | "nullary", (.text name, _) :: body => return .nullary name (← Item.exprs body)
  | "with_scope", (_, scope) :: body => return .withScope (← scope) (← Item.exprs body)
  | "with_frame", (_, frame) :: body => return .withFrame (← frame) (← Item.exprs body)
  | "enter_frame", (_, frame) :: body => return .enterFrame (← frame) (← Item.exprs body)
  | "with_runtime", (_, target) :: body => return .withMachine (← target) (← Item.exprs body)
  | "runtime", [(config, _)] => return .machine (← Config.ofDatum config)
  | "runtime", [(config, _), (_, registry)] =>
      return .machineOn (← Config.ofDatum config) (← registry)
  | "install", [(config, _)] => return .install (← Config.ofDatum config)
  | "install", [(config, _), (_, registry)] =>
      return .installOn (← Config.ofDatum config) (← registry)
  | _, operands =>
      match Operation.ofName? name with
      | some operation => return .apply operation (← Item.exprs operands)
      | none => .error ("unknown operation " ++ name)

mutual

def Expr.ofDatum : Datum → Reading Expr
  | .null => .ok .void
  | .bool b => .ok (.bool b)
  | .int n =>
      if Int64.minValue.toInt ≤ n ∧ n ≤ Int64.maxValue.toInt then .ok (.int (Int64.ofInt n))
      else .error "an integer is too large"
  | .text s => .ok (.str s)
  | .list [] => .error "an empty list is no expression"
  | .list (head :: rest) =>
      match head with
      | .text name => Expr.ofItems name (Expr.readItems rest)
      | _ => .error "an operation has no name"
  | .record _ => .error "a record is no expression"

/-- The items of a list, each read as an expression. -/
def Expr.readItems : List Datum → List Item
  | [] => []
  | datum :: rest => (datum, Expr.ofDatum datum) :: Expr.readItems rest

end

end Delegation
