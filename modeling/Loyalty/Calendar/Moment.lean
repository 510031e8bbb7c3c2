import Loyalty.Calendar.Date
import Loyalty.Text.CharClass

/-!
# Moments and instants

A moment is what a clock on the wall shows: a date, a time of day and possibly
its distance from UTC. An instant is a point of time, counted in microseconds of
UTC from the first midnight of the calendar. Placing a moment in time subtracts
its distance, which fails only where the calendar ends.
-/

namespace Loyalty

/-- The microseconds of a day. -/
def microsPerDay : Nat := 86400000000

/-- A time of day in microseconds since midnight. -/
structure TimeOfDay where
  micros : Nat
  lt : micros < microsPerDay
  deriving DecidableEq

namespace TimeOfDay

/-- The first time of a day. -/
def midnight : TimeOfDay := ⟨0, by decide⟩

def hour (t : TimeOfDay) : Nat := t.micros / 3600000000

def minute (t : TimeOfDay) : Nat := t.micros / 60000000 % 60

def second (t : TimeOfDay) : Nat := t.micros / 1000000 % 60

def micro (t : TimeOfDay) : Nat := t.micros % 1000000

/-- The time with the given parts, if a clock shows it; there is no hour 24 and
no second 60. -/
def of? (hour minute second micro : Nat) : Option TimeOfDay :=
  if h : hour < 24 ∧ minute < 60 ∧ second < 60 ∧ micro < 1000000 then
    some ⟨((hour * 60 + minute) * 60 + second) * 1000000 + micro, by
      unfold microsPerDay
      omega⟩
  else none

end TimeOfDay

/-- A distance from UTC in microseconds, less than a day either way. -/
structure UtcOffset where
  micros : Int
  lt : micros.natAbs < microsPerDay
  deriving DecidableEq

/-- The offset with the given microseconds, if it is less than a day. -/
def UtcOffset.of? (micros : Int) : Option UtcOffset :=
  if h : micros.natAbs < microsPerDay then some ⟨micros, h⟩ else none

/-- No distance. -/
def UtcOffset.utc : UtcOffset := ⟨0, by decide⟩

/-- A date and a time of day, with its distance from UTC if that is known. -/
structure Moment where
  date : Date
  time : TimeOfDay
  offset : Option UtcOffset
  deriving DecidableEq

/-- A point of time in the years 1 to 9999 of UTC. -/
structure Instant where
  micros : Nat
  lt : micros < dayCount * microsPerDay
  deriving DecidableEq

namespace Instant

/-- The first midnight of the calendar. -/
def first : Instant := ⟨0, by decide⟩

/-- The number of the UTC day that holds an instant. -/
def dayNumber (i : Instant) : Nat := i.micros / microsPerDay

/-- The UTC day of an instant is one of the calendar's. -/
theorem dayNumber_lt (i : Instant) : i.dayNumber < dayCount :=
  Nat.div_lt_of_lt_mul (by rw [Nat.mul_comm]; exact i.lt)

/-- The UTC date of an instant. -/
def date (i : Instant) : Date := .ofDayNumber i.dayNumber i.dayNumber_lt

/-- The UTC time of day of an instant. -/
def time (i : Instant) : TimeOfDay := ⟨i.micros % microsPerDay, Nat.mod_lt _ (by decide)⟩

/-- The weekday of an instant in UTC. -/
def weekday (i : Instant) : Weekday := .ofDayNumber i.dayNumber

/-- The instant with the given microseconds, if the calendar reaches it. -/
def of? (micros : Int) : Option Instant :=
  if h : 0 ≤ micros ∧ micros < dayCount * microsPerDay then
    some ⟨micros.toNat, by unfold dayCount microsPerDay at *; omega⟩
  else none

end Instant

namespace Moment

/-- A date at midnight with no known distance from UTC. -/
def ofDate (d : Date) : Moment := ⟨d, .midnight, none⟩

/-- The microseconds that the shown date and time would be after the first
midnight if they were UTC. -/
def localMicros (m : Moment) : Nat := m.date.dayNumber * microsPerDay + m.time.micros

/-- The microseconds of a moment in UTC, an unknown distance being none. They can
lie just outside the calendar. -/
def utcMicros (m : Moment) : Int :=
  m.localMicros - (match m.offset with | some o => o.micros | none => 0)

/-- The point of time of a moment, absent when UTC leaves the calendar. -/
def instant? (m : Moment) : Option Instant := Instant.of? m.utcMicros

/-- Whether two moments are equal: both have no known distance and show the same,
or both have one and name the same point of time. -/
def same (m n : Moment) : Bool :=
  m.offset.isSome == n.offset.isSome && m.utcMicros == n.utcMicros

end Moment

/-- The text `YYYY-MM-DD` of a date. -/
def Date.iso (d : Date) : List Char :=
  paddedDigits 10 4 d.year ++ '-' :: (paddedDigits 10 2 d.month ++ '-' :: paddedDigits 10 2 d.day)

/-- The text `hh:mm:ss` of a time, with six digits of a second if there is a
fraction. -/
def TimeOfDay.iso (t : TimeOfDay) : List Char :=
  paddedDigits 10 2 t.hour ++ ':' :: (paddedDigits 10 2 t.minute ++ ':' ::
    (paddedDigits 10 2 t.second ++
      (if t.micro = 0 then [] else '.' :: paddedDigits 10 6 t.micro)))

/-- The text `±hh:mm` of an offset, with seconds and a fraction where needed. -/
def UtcOffset.iso (o : UtcOffset) : List Char :=
  let magnitude := o.micros.natAbs
  let seconds := magnitude / 1000000 % 60
  let fraction := magnitude % 1000000
  (if o.micros < 0 then '-' else '+') :: (paddedDigits 10 2 (magnitude / 3600000000) ++ ':' ::
    (paddedDigits 10 2 (magnitude / 60000000 % 60) ++
      (if seconds = 0 ∧ fraction = 0 then [] else ':' :: paddedDigits 10 2 seconds) ++
      (if fraction = 0 then [] else '.' :: paddedDigits 10 6 fraction)))

/-- The text of a moment: date and time with a separator between them, and the
offset if it is known. -/
def Moment.iso (separator : Char) (m : Moment) : List Char :=
  m.date.iso ++ separator :: (m.time.iso ++ (match m.offset with | some o => o.iso | none => []))

/-- The moment a UTC clock shows at an instant. -/
def Instant.moment (i : Instant) : Moment := ⟨i.date, i.time, some .utc⟩

/-- The text of an instant as UTC, marked by a `Z`. -/
def Instant.stamp (i : Instant) : String :=
  String.ofList (i.date.iso ++ 'T' :: (i.time.iso ++ ['Z']))

end Loyalty
