import Loyalty.Condition.Basic
import Loyalty.Value.Text

/-!
# Validity of conditions

A condition is valid when every node of its tree passes a check of its own. The
fault that is reported is the first one in reading order, with the indices that
lead to its node.
-/

namespace Loyalty

/-- What is wrong with one node. -/
inductive NodeFault where
  | shape (fault : ShapeFault)
  | noChildren (connective : Connective)
  | noOperator
  | unknownOperator (operator : Value)
  | arrayRequired (operator : Operator)
  | rangeRequired

/-- What is wrong with one node, in words. There are none for an operator that has
no text. -/
def NodeFault.message : NodeFault → Except Fault String
  | .shape fault => .ok fault.message
  | .noChildren c => .ok (c.symbol ++ " requires at least one condition")
  | .noOperator => .ok "Simple condition must have an operator"
  | .unknownOperator operator => operator.display.map fun text => "Unknown operator: " ++ text
  | .arrayRequired operator => .ok (operator.symbol ++ " operator requires an array value")
  | .rangeRequired => .ok "DATE_RANGE requires value with start and end properties"

/-- A fault in a condition: the indices of the children that lead to a node, and
what is wrong with it. -/
structure ConditionFault where
  path : List Nat
  fault : NodeFault

/-- The words for a fault, after the path to it. -/
def ConditionFault.message (f : ConditionFault) : Except Fault String :=
  f.fault.message.map fun text =>
    f.path.foldr (fun i text => "Condition[" ++ natText i ++ "]: " ++ text) text

namespace Condition

/-- Whether the value of a rule suits its operator. -/
def valueFault? (operator : Operator) (value : Value) : Option NodeFault :=
  match operator, value with
  | .isIn, .array .. => none
  | .notIn, .array .. => none
  | .isIn, _ => some (.arrayRequired .isIn)
  | .notIn, _ => some (.arrayRequired .notIn)
  | .dateRange, .object fields =>
    if (Fields.get fields "start").isTruthy && (Fields.get fields "end").isTruthy then none
    else some .rangeRequired
  | .dateRange, _ => some .rangeRequired
  | _, _ => none

/-- What is wrong with a simple node. -/
def simpleFault? (operator value : Value) : Option NodeFault :=
  if operator.isTruthy then
    match Operator.ofValue? operator with
    | some op => valueFault? op value
    | none => some (.unknownOperator operator)
  else some .noOperator

mutual

/-- The first fault of a condition. -/
def fault? : Condition → Option ConditionFault
  | .simple _ operator value => (simpleFault? operator value).map fun f => ⟨[], f⟩
  | .compound c [] => some ⟨[], .noChildren c⟩
  | .compound _ (child :: children) => childFault? 0 (child :: children)
  | .malformed _ fault => some ⟨[], .shape fault⟩

/-- The first fault of some children, counted from an index. -/
def childFault? (index : Nat) : List Condition → Option ConditionFault
  | [] => none
  | child :: children =>
    match fault? child with
    | some f => some ⟨index :: f.path, f.fault⟩
    | none => childFault? (index + 1) children

end

/-- The words for the first fault of a condition, if it has one. -/
def check (c : Condition) : Except Fault (Option String) :=
  match c.fault? with
  | none => .ok none
  | some fault => fault.message.map some

end Condition

end Loyalty
