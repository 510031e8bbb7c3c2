import Loyalty.Condition.Validity
import Loyalty.Value.Sequence

/-!
# Validity of rules

A rule is an object with an id, a condition and an action. An empty object or
array counts as given, any other value that counts as false does not. A list of
rules is checked rule by rule; its report names each invalid one by its index and
its id, and says what is wrong with it. There is no report if that cannot be said
of one of them.
-/

namespace Loyalty

/-- What is wrong with a rule. -/
inductive RuleFault where
  | null
  | notObject
  | noId
  | noCondition
  | noAction
  | actionNotObject
  | condition (fault : ConditionFault)

/-- What is wrong with a rule, in words. -/
def RuleFault.message : RuleFault → Except Fault String
  | .null => .ok "Rule is null or undefined"
  | .notObject => .ok "Rule must be an object"
  | .noId => .ok "Rule must have an id field"
  | .noCondition => .ok "Rule must have a condition field"
  | .noAction => .ok "Rule must have an action field"
  | .actionNotObject => .ok "Rule action must be an object"
  | .condition fault => fault.message.map fun text => "Invalid condition: " ++ text

namespace Value

/-- Whether a value counts as given in a rule. -/
def isGiven : Value → Bool
  | .object _ | .array .. => true
  | v => v.isTruthy

/-- The first fault of a rule. -/
def ruleFault? : Value → Option RuleFault
  | .null => some .null
  | .object fields =>
    if !(Fields.get fields "id").isGiven then some .noId
    else if !(Fields.get fields "condition").isGiven then some .noCondition
    else if !(Fields.get fields "action").isGiven then some .noAction
    else if !(Fields.get fields "action").isObject then some .actionNotObject
    else (Condition.ofValue (Fields.get fields "condition")).fault?.map .condition
  | _ => some .notObject

/-- The words for the first fault of a rule, if it has one. -/
def ruleCheck (rule : Value) : Except Fault (Option String) :=
  match rule.ruleFault? with
  | none => .ok none
  | some fault => fault.message.map some

/-- The id of a rule in reports. -/
def reportedId : Value → Value
  | .object fields => (Fields.get fields "id").orElse (.text "unknown")
  | _ => .text "unknown"

end Value

/-- An invalid rule in a list. -/
structure Problem where
  index : Nat
  id : Value
  fault : RuleFault

namespace Problem

/-- The problem of one rule, if it has one. -/
def of? (index : Nat) (rule : Value) : Option Problem :=
  rule.ruleFault?.map fun fault => ⟨index, rule.reportedId, fault⟩

/-- The problems of some rules, counted from an index. -/
def listFrom (index : Nat) : List Value → List Problem
  | [] => []
  | rule :: rules => (of? index rule).toList ++ listFrom (index + 1) rules

/-- The problems of a list of rules. -/
def list (rules : List Value) : List Problem := listFrom 0 rules

end Problem

/-- An entry of a report: a problem with its words. -/
structure Complaint where
  index : Nat
  id : Value
  error : String

/-- The entry of a problem. -/
def Problem.complaint (p : Problem) : Except Fault Complaint :=
  p.fault.message.map fun error => ⟨p.index, p.id, error⟩

namespace Complaint

/-- The entries of some problems, which need words for all of them. -/
def ofProblems : List Problem → Except Fault (List Complaint)
  | [] => .ok []
  | p :: ps => do
    let complaint ← p.complaint
    let complaints ← ofProblems ps
    return complaint :: complaints

/-- The report of a list of rules. -/
def list (rules : List Value) : Except Fault (List Complaint) := ofProblems (Problem.list rules)

/-- An entry as a value. -/
def toValue (c : Complaint) : Value :=
  .object [("rule_index", .nat c.index), ("rule_id", c.id), ("error", .text c.error)]

end Complaint

end Loyalty
