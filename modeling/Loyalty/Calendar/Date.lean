/-!
# Dates

Dates of the proleptic Gregorian calendar in the years 1 to 9999, and their
numbering by days from the first of January of year 1, which is a Monday.
-/

namespace Loyalty

/-- A year of 366 days. -/
def IsLeap (year : Nat) : Prop := year % 4 = 0 ∧ (year % 100 ≠ 0 ∨ year % 400 = 0)

instance (year : Nat) : Decidable (IsLeap year) := inferInstanceAs (Decidable (_ ∧ _))

/-- The lengths of the months of a year. -/
def monthLengths (year : Nat) : List Nat :=
  [31, if IsLeap year then 29 else 28, 31, 30, 31, 30, 31, 31, 30, 31, 30, 31]

/-- The days of one month; none outside 1 to 12. -/
def monthLength (year month : Nat) : Nat :=
  if month = 0 then 0 else (monthLengths year)[month - 1]?.getD 0

/-- A day that the calendar has, in the years with four digits at most. -/
def ValidDate (year month day : Nat) : Prop :=
  (1 ≤ year ∧ year ≤ 9999) ∧ 1 ≤ day ∧ day ≤ monthLength year month

instance (year month day : Nat) : Decidable (ValidDate year month day) :=
  inferInstanceAs (Decidable (_ ∧ _ ∧ _))

/-- A day of the calendar. -/
structure Date where
  year : Nat
  month : Nat
  day : Nat
  valid : ValidDate year month day
  deriving DecidableEq

/-- The days before the first of January of a year. -/
def daysBeforeYear (year : Nat) : Nat :=
  (year - 1) * 365 + (year - 1) / 4 - (year - 1) / 100 + (year - 1) / 400

/-- How many days the calendar has. -/
def dayCount : Nat := 3652059

/-- Finds the month that holds a day counted from the start of the first of
some months, and the place of the day in it, both from zero. -/
def splitDays : List Nat → Nat → Nat × Nat
  | [], n => (0, n)
  | length :: rest, n =>
    if n < length then (0, n)
    else ((splitDays rest (n - length)).1 + 1, (splitDays rest (n - length)).2)

/-- The sum of some month lengths. -/
def totalDays (lengths : List Nat) : Nat := lengths.foldr (· + ·) 0

/-- A day inside some months lies in one of them. -/
theorem splitDays_lt {lengths : List Nat} {n : Nat} (h : n < totalDays lengths) :
    (splitDays lengths n).2 < lengths[(splitDays lengths n).1]?.getD 0 := by
  induction lengths generalizing n with
  | nil => simp [totalDays] at h
  | cons length rest ih =>
    by_cases hn : n < length
    · simp [splitDays, hn]
    · have hrest : n - length < totalDays rest := by
        simp only [totalDays, List.foldr_cons] at h ⊢
        omega
      simpa [splitDays, hn] using ih hrest

/-- A year has 366 days when it is a leap year and 365 otherwise. -/
theorem totalDays_monthLengths (year : Nat) :
    totalDays (monthLengths year) = if IsLeap year then 366 else 365 := by
  unfold monthLengths
  split <;> simp [totalDays]

/-- The year of a numbered day, and the place of the day in it from zero. -/
def splitYear (n : Nat) : Nat × Nat :=
  let inCycle := n % 146097
  let centuries := min 3 (inCycle / 36524)
  let inCentury := inCycle - centuries * 36524
  let inQuad := inCentury % 1461
  let years := min 3 (inQuad / 365)
  (n / 146097 * 400 + centuries * 100 + inCentury / 1461 * 4 + years + 1, inQuad - years * 365)

/-- The year found for a numbered day is one of the calendar's. -/
theorem splitYear_year {n : Nat} (h : n < dayCount) :
    1 ≤ (splitYear n).1 ∧ (splitYear n).1 ≤ 9999 := by
  simp only [splitYear, dayCount] at *
  omega

/-- The place found for a numbered day lies in its year. -/
theorem splitYear_day (n : Nat) :
    (splitYear n).2 < totalDays (monthLengths (splitYear n).1) := by
  rw [totalDays_monthLengths]
  by_cases hleap : IsLeap (splitYear n).1
  · rw [if_pos hleap]
    simp only [splitYear]
    omega
  · rw [if_neg hleap]
    have hyear : ¬((splitYear n).1 % 4 = 0 ∧
        ((splitYear n).1 % 100 ≠ 0 ∨ (splitYear n).1 % 400 = 0)) := hleap
    simp only [splitYear] at hyear ⊢
    omega

namespace Date

/-- The day with the given numbers, if the calendar has it. -/
def of? (year month day : Nat) : Option Date :=
  if h : ValidDate year month day then some ⟨year, month, day, h⟩ else none

/-- The number of days before a date. -/
def dayNumber (d : Date) : Nat :=
  daysBeforeYear d.year + totalDays ((monthLengths d.year).take (d.month - 1)) + (d.day - 1)

/-- The date with a given number of days before it. -/
def ofDayNumber (n : Nat) (h : n < dayCount) : Date where
  year := (splitYear n).1
  month := (splitDays (monthLengths (splitYear n).1) (splitYear n).2).1 + 1
  day := (splitDays (monthLengths (splitYear n).1) (splitYear n).2).2 + 1
  valid := by
    have hday := splitDays_lt (splitYear_day n)
    refine ⟨splitYear_year h, by omega, ?_⟩
    simpa [monthLength, Nat.succ_le_iff] using hday

end Date

/-- A day of the week. -/
inductive Weekday where
  | monday
  | tuesday
  | wednesday
  | thursday
  | friday
  | saturday
  | sunday
  deriving DecidableEq

namespace Weekday

/-- The English name. -/
def name : Weekday → String
  | .monday => "Monday"
  | .tuesday => "Tuesday"
  | .wednesday => "Wednesday"
  | .thursday => "Thursday"
  | .friday => "Friday"
  | .saturday => "Saturday"
  | .sunday => "Sunday"

/-- Saturday and Sunday. -/
def isWeekend : Weekday → Bool
  | .saturday | .sunday => true
  | _ => false

/-- The weekday of a numbered day. -/
def ofDayNumber (n : Nat) : Weekday :=
  match n % 7 with
  | 0 => .monday
  | 1 => .tuesday
  | 2 => .wednesday
  | 3 => .thursday
  | 4 => .friday
  | 5 => .saturday
  | _ => .sunday

end Weekday

namespace Date

/-- The day number of the Monday of the first week of a year: the week that holds
its first Thursday. It can lie in the year before. -/
def firstMonday (year : Nat) : Int :=
  let first := daysBeforeYear year
  if first % 7 ≤ 3 then (first : Int) - (first % 7 : Nat) else (first : Int) - (first % 7 : Nat) + 7

/-- A year of 53 weeks begins on a Thursday, or on a Wednesday when it is leap. -/
def hasWeek53 (year : Nat) : Bool :=
  daysBeforeYear year % 7 = 3 ∨ (daysBeforeYear year % 7 = 2 ∧ IsLeap year)

/-- The day of a numbered week, weeks from one and days from one for Monday. -/
def ofWeek? (year week day : Nat) : Option Date :=
  let number := firstMonday year + (week - 1 : Nat) * 7 + (day - 1 : Nat)
  if 1 ≤ year ∧ year ≤ 9999 ∧ 1 ≤ week ∧ (week ≤ 52 ∨ (week = 53 ∧ hasWeek53 year)) ∧
      1 ≤ day ∧ day ≤ 7 ∧ 0 ≤ number then
    if h : number.toNat < dayCount then some (ofDayNumber number.toNat h) else none
  else none

end Date

end Loyalty
