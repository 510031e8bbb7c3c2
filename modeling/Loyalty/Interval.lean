import Loyalty.Calendar.Moment
import Loyalty.Fault
import Loyalty.Value.Basic

/-!
# Intervals

An interval is a whole number of microseconds, of either sign, that is less than
a billion days long. Seconds are given as a number: an integer exactly, a double
to the nearest microsecond.
-/

namespace Loyalty

/-- How many whole days some microseconds hold, downwards. -/
def daysOfMicros (micros : Int) : Int := micros / (microsPerDay : Int)

/-- A span of time in microseconds. -/
structure Interval where
  micros : Int
  days_le : (daysOfMicros micros).natAbs ≤ 999999999
  deriving DecidableEq

namespace Interval

/-- The interval of some microseconds, which must not hold too many days. -/
def ofMicros (micros : Int) : Except Fault Interval :=
  if h : (daysOfMicros micros).natAbs ≤ 999999999 then .ok ⟨micros, h⟩
  else .error (.intervalTooLong (daysOfMicros micros))

/-- One second. -/
def second : Interval := ⟨1000000, by decide⟩

/-- The interval, or one second in place of none at all. -/
def orSecond (i : Interval) : Interval := if i.micros = 0 then second else i

/-- The whole seconds of an interval, without what is left of a second. -/
def wholeSeconds (i : Interval) : Int := i.micros.tdiv 1000000

/-- The instant one interval after another instant, if the calendar reaches it. -/
def after? (i : Interval) (start : Instant) : Option Instant :=
  Instant.of? (start.micros + i.micros)

end Interval

/-- The microseconds in a number of seconds. Whole seconds count exactly; what is
left is a million times itself as a double, and that rounded to the nearest whole
number, a half to the even one. -/
def Double.microseconds (x : Double) : Int :=
  let units := x.units.natAbs
  let rest := ofUnits false (units % unitsPerOne * 1000000) 1
  signed (x.units < 0)
    (units / unitsPerOne * 1000000 + roundQuotient .toEven rest.units.natAbs unitsPerOne)

/-- The interval of a number of seconds; a truth value counts as one or zero. -/
def Value.interval : Value → Except Fault Interval
  | .bool b => Interval.ofMicros (if b then 1000000 else 0)
  | .number (.int n) => Interval.ofMicros (n * 1000000)
  | .number (.double .nan) => .error .intervalNaN
  | .number (.double (.infinity _)) => .error .intervalInfinite
  | .number (.double x) => Interval.ofMicros x.microseconds
  | v => .error (.intervalNotNumber v.kind)

end Loyalty
