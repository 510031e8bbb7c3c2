import Loyalty.Condition.Evaluation
import Loyalty.Rule.Basic
import Loyalty.Rule.Validity

/-!
# The rule engine

An engine holds a list of rules, valid or not, and applies them to records. The
rules that are objects are taken by ascending priority, equal priorities in the
order in which they were loaded. Each one whose condition holds adds its
discount, except that a rule which is not stackable is passed over when its id
has been applied before. The discount of the amount and what remains of it are
rounded to cents.
-/

namespace Loyalty

/-- A rule set in use. -/
structure Engine where
  /-- The path of the amount in a record. -/
  amountField : Value
  rules : List Value
  /-- Whether not-a-number in these rules equals itself. -/
  nan : Identity

/-- A rule that was applied. -/
structure Applied where
  id : Value
  description : Value
  discount : Number
  message : Value

/-- The rules applied so far and the sum of their discounts. -/
structure Tally where
  applied : List Applied
  total : Number

/-- What the rules make of a record. -/
structure Calculation where
  amount : Double
  applied : List Applied
  total : Number
  discount : Double
  final : Double
  message : Value

namespace Tally

/-- No rules and no discount. -/
def empty : Tally := ⟨[], .int 0⟩

/-- Adds a rule at the end. -/
def push (t : Tally) (r : Rule) : Except Fault Tally := do
  let percent ← r.discount
  match t.total.add? percent with
  | some total => return ⟨t.applied ++ [⟨r.id, r.description, percent, r.message⟩], total⟩
  | none => .error .integerTooLarge

/-- Whether a rule is passed over because of those already applied. -/
def blocks (nan : Identity) (t : Tally) (r : Rule) : Bool :=
  !r.isStackable && t.applied.any fun a => a.id.looseEq nan .shared r.id

/-- Takes the rules in order and adds those that hold and are not passed over. An
engine holds copies of its rules; a mark of an absent field in them is not the one
of the fields that a record does not have. -/
def addAll (nan : Identity) (record : Value) (t : Tally) : List Rule → Report Tally
  | [] => return t
  | r :: rs => do
    if ← r.condition.evaluate .distinct record then
      if t.blocks nan r then addAll nan record t rs
      else addAll nan record (← Report.ofExcept (t.push r)) rs
    else addAll nan record t rs

/-- What a calculation says in the end: the message of the one rule applied, or
how many there were. The total was found among the doubles by then, so that it has
a text. -/
def message (t : Tally) : Value :=
  match t.applied with
  | [] => .text "No rules applied"
  | [a] => a.message
  | _ =>
    .text (natText t.applied.length ++ " rules applied for " ++ t.total.plainText ++
      "% total discount")

end Tally

/-- Rules with their priorities. -/
def withPriorities : List Rule → Except Fault (List (Number × Rule))
  | [] => .ok []
  | r :: rs => do
    let priority ← r.priority
    let others ← withPriorities rs
    return (priority, r) :: others

/-- Rules by ascending priority, equal ones in their order. -/
def byPriority (rules : List Rule) : Except Fault (List Rule) :=
  (withPriorities rules).map fun keyed =>
    (keyed.mergeSort fun a b => !b.1.lt a.1).map fun pair => pair.2

/-- The amount that a record has under a path, zero unless it is finite. -/
def recordAmount (path record : Value) : Except Fault Double := do
  let x ← (← path.resolve record .null).amount
  return if x.isFinite then x else .zero false

/-- The discount of an amount by a percentage, rounded to cents. -/
def discountAmount (amount : Double) (percent : Number) : Except Fault Double :=
  match percent.toDouble? with
  | some p => (Value.double ((amount.mul p).divNat 100)).round2
  | none => .error .integerTooLarge

namespace Engine

/-- The path of the amount unless another one is given. -/
def defaultAmountField : Value := .text "total_spend"

/-- Warns of invalid rules, one after the other. -/
def warn : List Complaint → Report Unit
  | [] => return ()
  | c :: cs => do
    Report.note (.ruleWarning (← Report.ofExcept c.id.display) c.error)
    warn cs

/-- The rules that are given as a sequence; none in place of a value that counts
as false. -/
def rulesOf (rules : Value) : Except Fault (List Value) :=
  if rules.isTruthy then rules.elements else .ok []

/-- Replaces the rules. Invalid ones are kept, and their report returned. The rules
that were in use stay where there is no report, or no text for an id in it. -/
def load (rules : Value) (nan : Identity) (engine : Engine) :
    Report (Engine × List Complaint) := do
  let items ← Report.ofExcept (rulesOf rules)
  let complaints ← Report.ofExcept (Complaint.list items)
  warn complaints
  Report.note (.rulesLoaded items.length complaints.length)
  return ({ engine with rules := items, nan := nan }, complaints)

/-- A new engine with some rules. -/
def create (rules : Value) (nan : Identity) (amountField : Value) : Report Engine := do
  let (engine, _) ← load rules nan ⟨amountField, [], nan⟩
  return engine

/-- Applies the rules to a record. -/
def apply (engine : Engine) (record : Value) : Report Calculation := do
  let rules ← Report.ofExcept (byPriority (engine.rules.filterMap Rule.ofValue?))
  let amount ← Report.ofExcept (recordAmount engine.amountField record)
  let tally ← Tally.empty.addAll engine.nan record rules
  let discount ← Report.ofExcept (discountAmount amount tally.total)
  let final ← Report.ofExcept (Value.double (amount.sub discount)).round2
  return ⟨amount, tally.applied, tally.total, discount, final, tally.message⟩

end Engine

/-- An applied rule as a value. -/
def Applied.toValue (a : Applied) : Value :=
  .object [("rule_id", a.id), ("description", a.description),
    ("discount_percent", .number a.discount), ("message", a.message)]

/-- A calculation as a value. -/
def Calculation.toValue (c : Calculation) : Value :=
  .object [("original_amount", .double c.amount),
    ("applied_rules", .list (c.applied.map Applied.toValue)),
    ("total_discount_percent", .number c.total), ("discount_amount", .double c.discount),
    ("final_amount", .double c.final), ("message", c.message)]

end Loyalty
