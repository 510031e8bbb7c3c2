import Loyalty.Condition.Basic
import Loyalty.Value.Equality
import Loyalty.Value.Reading

/-!
# Tests of fields

What each operator asks about the value of a field and the value in the rule.
Orders compare amounts, and an amount that is not a number is in no order with
anything. Tests on texts look at the plain text of both values and fail on null
and on an absent field.
-/

namespace Loyalty

namespace Operator

/-- Compares the amounts of two values. -/
def compareAmounts (order : Double → Double → Bool) (data value : Value) : Except Fault Bool := do
  let x ← data.amount
  let y ← value.amount
  return order x y

/-- Asks about the plain texts of two values, unless the first is null or absent. -/
def testTexts (test : List Char → List Char → Bool) (data value : Value) : Except Fault Bool :=
  match data with
  | .null | .missing => .ok false
  | data => do
    let text ← data.plainText
    let part ← value.plainText
    return test text.toList part.toList

/-- Whether some item of an array is strictly equal to a value; absent when the
other value is no array. -/
def member? (marks : Identity) (data value : Value) : Option Bool :=
  match value with
  | .array _ items => some (items.any fun item => item.strictEq marks data)
  | _ => none

/-- The outcome of an operator on the value of a field and the value of the rule,
the marks of absent fields in them being the same or not. -/
def test (marks : Identity) : Operator → Value → Value → Except Fault Bool
  | .equal, data, value => .ok (data.strictEq marks value)
  | .notEqual, data, value => .ok (!data.strictEq marks value)
  | .greater, data, value => compareAmounts (fun x y => y.lt x) data value
  | .less, data, value => compareAmounts Double.lt data value
  | .greaterOrEqual, data, value => compareAmounts (fun x y => y.le x) data value
  | .lessOrEqual, data, value => compareAmounts Double.le data value
  | .isIn, data, value => .ok ((member? marks data value).getD false)
  | .notIn, data, value => .ok (((member? marks data value).map not).getD false)
  | .contains, data, value => testTexts (fun text part => occursIn part text) data value
  | .startsWith, data, value => testTexts (fun text part => part.isPrefixOf text) data value
  | .endsWith, data, value => testTexts (fun text part => endsIn part text) data value
  | .isWeekend, data, _ => data.isWeekend
  | .dateRange, data, value =>
    match value with
    | .object fields => data.isBetween (Fields.get fields "start") (Fields.get fields "end")
    | _ => .ok false

end Operator

end Loyalty
