import Loyalty.Fault

/-!
# Values as sequences

Where a sequence is asked for, an array gives its items, a text its characters
and an object its keys. What has items also has a length; nothing else has
either.
-/

namespace Loyalty.Value

/-- What a value gives when it is gone through, if it can be. -/
def elements? : Value → Option (List Value)
  | .array _ items => some items
  | .text s => some (s.toList.map fun c => .text (String.ofList [c]))
  | .object fields => some (fields.map fun field => .text field.1)
  | _ => none

/-- What a value gives when it is gone through. -/
def elements (v : Value) : Except Fault (List Value) :=
  match v.elements? with
  | some items => .ok items
  | none => .error (.notIterable v.kind)

/-- How many elements a value has. -/
def count (v : Value) : Except Fault Nat :=
  match v.elements? with
  | some items => .ok items.length
  | none => .error (.noLength v.kind)

/-- The field of an object, and something else when it is absent. -/
def fieldOr (v : Value) (key : String) (default : Value) : Except Fault Value :=
  match v with
  | .object fields => .ok ((fields.lookup key).getD default)
  | v => .error (.notObject v.kind)

/-- The field of an object, null when it is absent. -/
def fieldOrNull (v : Value) (key : String) : Except Fault Value := v.fieldOr key .null

end Loyalty.Value
