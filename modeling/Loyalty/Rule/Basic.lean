import Loyalty.Condition.Basic
import Loyalty.Fault

/-!
# Rules

A rule that is an object is held as it was given; what the engine wants to know
of it is read from its fields, with a default where a field has no use. The
priority and the discount count only when they are finite numbers, and asking
that of an integer beyond the doubles is a fault.
-/

namespace Loyalty

/-- Whether a number is finite; an integer that no double is near to is a fault. -/
def Number.isFinite (n : Number) : Except Fault Bool :=
  match n.toDouble? with
  | some x => .ok x.isFinite
  | none => .error .integerTooLarge

/-- A finite number, and something else in place of any other value. -/
def Value.finiteNumberOr (default : Number) : Value → Except Fault Number
  | .number n => n.isFinite.map fun finite => if finite then n else default
  | _ => .ok default

/-- An object that is taken for a rule. -/
structure Rule where
  fields : Fields

namespace Rule

/-- The rule that a value is, if it is an object. -/
def ofValue? : Value → Option Rule
  | .object fields => some ⟨fields⟩
  | _ => none

/-- The id, of any sort. -/
def id (r : Rule) : Value := Fields.get r.fields "id"

/-- The condition. -/
def condition (r : Rule) : Condition := .ofValue (Fields.get r.fields "condition")

/-- Rules with a lower number come first; those without one count as 999. -/
def priority (r : Rule) : Except Fault Number :=
  (Fields.get r.fields "priority").finiteNumberOr (.int 999)

/-- The fields of the action, none when it is no object. -/
def action (r : Rule) : Fields :=
  match Fields.get r.fields "action" with
  | .object fields => fields
  | _ => []

/-- Whether a repeat of the rule's id is allowed, as it is unless the action says
false outright. -/
def isStackable (r : Rule) : Bool :=
  match r.action.get "stackable" with
  | .bool false => false
  | _ => true

/-- The discount in percent. -/
def discount (r : Rule) : Except Fault Number :=
  (r.action.get "discountPercent").finiteNumberOr (.int 0)

/-- The description, or else the id. -/
def description (r : Rule) : Value := (Fields.get r.fields "description").orElse r.id

/-- The message of the action. -/
def message (r : Rule) : Value := (r.action.get "message").orElse (.text "")

end Rule

end Loyalty
