import Loyalty.Calendar.Iso
import Loyalty.Fault
import Loyalty.Number.Numeral
import Loyalty.Value.Text

/-!
# What values denote

The same value can be asked for an amount, for a point of time, or for a number
of cents. Amounts and points of time are lenient: a value that denotes none is
not a number, or no instant. A fault arises only where a number or a moment that
is denoted has no place among the doubles or in the calendar.
-/

namespace Loyalty

namespace Value

/-- The amount that a value denotes. -/
def amount : Value → Except Fault Double
  | .bool b => .ok (Double.nearestInt (if b then 1 else 0))
  | .number n =>
    match n.toDouble? with
    | some x => .ok x
    | none => .error .integerTooLarge
  | .text s => .ok (amountOfText s.toList)
  | _ => .ok .nan

/-- Whether a value is a number; truth values are not. -/
def isNumber : Value → Bool
  | .number _ => true
  | _ => false

/-- The point of time of a moment, which has to stay in the calendar. -/
def instantOf (m : Moment) : Except Fault (Option Instant) :=
  match m.instant? with
  | some i => .ok (some i)
  | none => .error .momentOutOfRange

/-- The point of time that a value denotes, if it denotes one: a moment, the
midnight of a date, or what a text in ISO form says. -/
def instant : Value → Except Fault (Option Instant)
  | .moment m => instantOf m
  | .date d => instantOf (.ofDate d)
  | .text s =>
    match Moment.ofText? s with
    | some m => instantOf m
    | none => .ok none
  | _ => .ok none

/-- Whether a value denotes a point of time on a Saturday or Sunday in UTC. -/
def isWeekend (v : Value) : Except Fault Bool :=
  v.instant.map fun i => i.any fun i => i.weekday.isWeekend

/-- Whether three values denote points of time in their order, the middle one
being asked about. -/
def isBetween (v start stop : Value) : Except Fault Bool := do
  let at? ← v.instant
  let start? ← start.instant
  let stop? ← stop.instant
  match at?, start?, stop? with
  | some i, some first, some last => return first.micros ≤ i.micros && i.micros ≤ last.micros
  | _, _, _ => return false

/-- The name of the weekday in UTC of the point of time that a value denotes. -/
def dayName (v : Value) : Except Fault (Option String) :=
  v.instant.map fun i => i.map fun i => i.weekday.name

/-- The value rounded to cents, a half going away from zero. Numbers are rounded
from their decimal text, which an integer with too many digits does not have, and
texts are read as one. -/
def round2 : Value → Except Fault Double
  | .number (.int n) =>
    if Json.hasTooManyDigits (.int n) then .error (.notWritable .tooManyDigits)
    else rounded (.ofInt n)
  | .number (.double .nan) => .ok .nan
  | .number (.double x) =>
    match x.shortest? with
    | some d => rounded d
    | none => .error .notRoundable
  | .text s =>
    match CentsText.read s.toList with
    | .number d => rounded d
    | .nan => .ok .nan
    | .refused => .error .notRoundable
    | .malformed => .error .notDecimal
  | _ => .error .notDecimal
where
  /-- The decimal rounded to cents, which must not have too many digits. -/
  rounded (d : Decimal) : Except Fault Double :=
    match d.round2? with
    | some x => .ok x
    | none => .error .notRoundable

end Value

/-- The UTC date at a moment, as a text. -/
def Moment.utcDate (now : Moment) : Except Fault String :=
  match now.instant? with
  | some i => .ok (String.ofList i.date.iso)
  | none => .error .momentOutOfRange

end Loyalty
