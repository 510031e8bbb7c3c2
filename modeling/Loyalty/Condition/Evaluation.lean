import Loyalty.Condition.Path
import Loyalty.Condition.Test
import Loyalty.Report

/-!
# Evaluation of conditions

A condition holds of a record or not. AND and OR look at their children in order
and stop at the first that decides. An empty value in place of a condition holds
always; a malformed node and an unknown operator hold never, and a notice says
so. Where a condition names the mark of an absent field, it depends on where the
condition comes from whether that is the mark of the fields that the record does
not have.
-/

namespace Loyalty.Condition

/-- The test of a simple node, whose field may be absent from the record. -/
def evaluateSimple (marks : Identity) (record field operator value : Value) : Report Bool :=
  match Operator.ofValue? operator with
  | none => do
    Report.note (.unknownOperator (← Report.ofExcept operator.display))
    return false
  | some op => do
    let data ← Report.ofExcept (field.resolve record .missing)
    Report.ofExcept (op.test marks data value)

mutual

/-- Whether a condition holds of a record. -/
def evaluate (marks : Identity) (record : Value) : Condition → Report Bool
  | .simple field operator value => evaluateSimple marks record field operator value
  | .compound .all children => evaluateAll marks record children
  | .compound .any children => evaluateAny marks record children
  | .malformed raw fault =>
    if raw.isTruthy then do
      Report.note (.malformedCondition fault)
      return false
    else return true

/-- Whether all conditions hold, up to the first that does not. -/
def evaluateAll (marks : Identity) (record : Value) : List Condition → Report Bool
  | [] => return true
  | c :: cs => do
    if ← evaluate marks record c then evaluateAll marks record cs else return false

/-- Whether some condition holds, up to the first that does. -/
def evaluateAny (marks : Identity) (record : Value) : List Condition → Report Bool
  | [] => return false
  | c :: cs => do
    if ← evaluate marks record c then return true else evaluateAny marks record cs

end

end Loyalty.Condition
