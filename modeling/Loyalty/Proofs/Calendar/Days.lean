import Loyalty.Calendar.Date
import Mathlib.Tactic.IntervalCases

/-!
# The days of the calendar in turn

A day is followed by the next of its month, the last of a month by the first of the next one, and
the last of December by the first of January of the next year. Counting from the first day, a
Monday, gives every date its number of days before it and its weekday. The arithmetic with
centuries and leap years comes to the same count, and so its way back comes to the same date.
-/

namespace Loyalty

/-- The weekday that follows another. -/
def Weekday.next : Weekday → Weekday
  | .monday => .tuesday
  | .tuesday => .wednesday
  | .wednesday => .thursday
  | .thursday => .friday
  | .friday => .saturday
  | .saturday => .sunday
  | .sunday => .monday

namespace Date

/-- The first day of the calendar. -/
def first : Date := ⟨1, 1, 1, by decide⟩

/-- A day is followed by another. -/
inductive Next : Date → Date → Prop
  | day {d e : Date} (hyear : e.year = d.year) (hmonth : e.month = d.month)
    (hday : e.day = d.day + 1) : Next d e
  | month {d e : Date} (hlast : d.day = monthLength d.year d.month) (hyear : e.year = d.year)
    (hmonth : e.month = d.month + 1) (hday : e.day = 1) : Next d e
  | year {d e : Date} (hlast : d.month = 12 ∧ d.day = 31) (hyear : e.year = d.year + 1)
    (hmonth : e.month = 1) (hday : e.day = 1) : Next d e

/-- A date is reached by counting days, and weekdays along with them, from the first day. -/
inductive IsDay : Date → Nat → Weekday → Prop
  | first : IsDay first 0 .monday
  | next {d e : Date} {n : Nat} {w : Weekday} (h : IsDay d n w) (hnext : Next d e) :
    IsDay e (n + 1) w.next

end Date

/-! ## The number of a date -/

/-- The days of some months are those of the first of them and those of the others. -/
theorem totalDays_append (lengths others : List Nat) :
    totalDays (lengths ++ others) = totalDays lengths + totalDays others := List.sum_append

/-- The days before a month are those before the month in front of it, and that month's. -/
theorem totalDays_take_succ (lengths : List Nat) (k : Nat) :
    totalDays (lengths.take (k + 1)) = totalDays (lengths.take k) + lengths[k]?.getD 0 := by
  rw [List.take_add_one, totalDays_append]
  cases lengths[k]? with
  | none => rfl
  | some length => rfl

/-- The days before some month and those of the month lie in the year. -/
theorem totalDays_take_add_le (lengths : List Nat) (k : Nat) :
    totalDays (lengths.take k) + lengths[k]?.getD 0 ≤ totalDays lengths := by
  have hsplit := totalDays_append (lengths.take (k + 1)) (lengths.drop (k + 1))
  rw [List.take_append_drop, totalDays_take_succ] at hsplit
  omega

/-- One more number completes a block of them exactly if it is a multiple of the length. -/
private theorem succ_div_eq (n k : Nat) :
    (n + 1) / k = n / k + if (n + 1) % k = 0 then 1 else 0 := by
  rw [Nat.succ_div]
  simp only [Nat.dvd_iff_mod_eq_zero]

/-- The days before a year are those before the year in front of it, and that year's. -/
theorem daysBeforeYear_succ {year : Nat} (h : 1 ≤ year) :
    daysBeforeYear (year + 1) = daysBeforeYear year + totalDays (monthLengths year) := by
  obtain ⟨before, rfl⟩ := Nat.exists_eq_add_of_le' h
  have hle : before / 100 ≤ before / 4 := Nat.div_le_div_left (by decide) (by decide)
  rw [totalDays_monthLengths]
  simp only [daysBeforeYear, Nat.add_sub_cancel, succ_div_eq before]
  by_cases hcycle : (before + 1) % 400 = 0
  · have hleap : IsLeap (before + 1) := ⟨by omega, .inr hcycle⟩
    rw [if_pos hleap, if_pos hcycle, if_pos (by omega), if_pos (by omega)]
    omega
  · by_cases hcentury : (before + 1) % 100 = 0
    · have hleap : ¬ IsLeap (before + 1) := fun h => h.2.elim (· hcentury) hcycle
      rw [if_neg hleap, if_neg hcycle, if_pos hcentury, if_pos (by omega)]
      omega
    · by_cases hquad : (before + 1) % 4 = 0
      · have hleap : IsLeap (before + 1) := ⟨hquad, .inl hcentury⟩
        rw [if_pos hleap, if_neg hcycle, if_neg hcentury, if_pos hquad]
        omega
      · have hleap : ¬ IsLeap (before + 1) := fun h => hquad h.1
        rw [if_neg hleap, if_neg hcycle, if_neg hcentury, if_neg hquad]
        omega

/-- A month with days in it is one of the twelve, with its days in their place. -/
theorem monthLength_of_pos {year month : Nat} (h : 0 < monthLength year month) :
    1 ≤ month ∧ month ≤ 12 ∧
      (monthLengths year)[month - 1]?.getD 0 = monthLength year month := by
  unfold monthLength at h ⊢
  split at h
  · omega
  · rename_i hmonth
    have htwelve : (monthLengths year).length = 12 := rfl
    rw [if_neg hmonth]
    by_cases hlong : 12 ≤ month - 1
    · rw [List.getElem?_eq_none (by omega)] at h
      exact absurd h (by decide)
    · exact ⟨by omega, by omega, rfl⟩

/-- No month has more than 31 days. -/
theorem monthLength_le (year month : Nat) : monthLength year month ≤ 31 := by
  have hdays : ∀ length ∈ monthLengths year, length ≤ 31 := by
    unfold monthLengths
    split <;> decide
  unfold monthLength
  split
  · omega
  · cases hlength : (monthLengths year)[month - 1]? with
    | none => exact Nat.zero_le 31
    | some length => exact hdays length (List.mem_of_getElem? hlength)

/-- Every month of the twelve has days. -/
theorem monthLength_pos {year month : Nat} (h : 1 ≤ month ∧ month ≤ 12) :
    0 < monthLength year month := by
  have hdays : ∀ length ∈ monthLengths year, 0 < length := by
    unfold monthLengths
    split <;> decide
  have htwelve : (monthLengths year).length = 12 := rfl
  rw [monthLength, if_neg (by omega), List.getElem?_eq_getElem (by omega)]
  exact hdays _ (List.getElem_mem _)

/-- The weekday of a number follows that of the number before. -/
theorem Weekday.ofDayNumber_succ (n : Nat) :
    Weekday.ofDayNumber (n + 1) = (Weekday.ofDayNumber n).next := by
  have hlt : n % 7 < 7 := Nat.mod_lt _ (by decide)
  have hsucc : (n + 1) % 7 = if n % 7 = 6 then 0 else n % 7 + 1 := by
    split <;> omega
  simp only [Weekday.ofDayNumber, hsucc]
  generalize n % 7 = k at hlt
  interval_cases k <;> rfl

namespace Date

variable {d e : Date}

/-- The month of a date is one of the twelve, with its days in their place. -/
theorem month_spec (d : Date) : 1 ≤ d.month ∧ d.month ≤ 12 ∧
    (monthLengths d.year)[d.month - 1]?.getD 0 = monthLength d.year d.month := by
  obtain ⟨-, hday, hlength⟩ := d.valid
  exact monthLength_of_pos (by omega)

/-- Dates with the same numbers are the same. -/
theorem ext_parts (hyear : d.year = e.year) (hmonth : d.month = e.month) (hday : d.day = e.day) :
    d = e := by
  cases d
  cases e
  cases hyear
  cases hmonth
  cases hday
  rfl

/-- Every date is one of the calendar's days. -/
theorem dayNumber_lt (d : Date) : d.dayNumber < dayCount := by
  obtain ⟨⟨hfirst, hend⟩, hday, hlast⟩ := d.valid
  obtain ⟨-, -, hlength⟩ := d.month_spec
  have hyear := totalDays_take_add_le (monthLengths d.year) (d.month - 1)
  have hyears : daysBeforeYear (d.year + 1) ≤ dayCount := by
    unfold daysBeforeYear dayCount
    omega
  rw [daysBeforeYear_succ hfirst] at hyears
  rw [hlength] at hyear
  rw [dayNumber]
  omega

/-- One more day lies before the date that follows another. -/
theorem Next.dayNumber_eq (h : Next d e) : e.dayNumber = d.dayNumber + 1 := by
  obtain ⟨⟨hfirst, -⟩, hday, -⟩ := d.valid
  obtain ⟨hone, -, hlength⟩ := d.month_spec
  have hmonths := totalDays_take_succ (monthLengths d.year) (d.month - 1)
  rw [Nat.sub_add_cancel hone, hlength] at hmonths
  cases h with
  | day hyear hmonth hnext =>
    rw [dayNumber, dayNumber, hyear, hmonth, hnext]
    omega
  | month hlast hyear hmonth hnext =>
    rw [dayNumber, dayNumber, hyear, hmonth, hnext, Nat.add_sub_cancel, hmonths]
    omega
  | year hlast hyear hmonth hnext =>
    have hdecember : totalDays ((monthLengths d.year).take d.month) =
        totalDays (monthLengths d.year) := by
      rw [hlast.1]
      rfl
    have hlength' : monthLength d.year d.month = 31 := by
      rw [hlast.1]
      rfl
    have hjanuary : totalDays ((monthLengths (d.year + 1)).take (1 - 1)) = 0 := rfl
    rw [dayNumber, dayNumber, hyear, hmonth, hnext, daysBeforeYear_succ hfirst]
    omega

/-- A date follows another one, unless it is the first. -/
theorem exists_next_of_ne (h : d ≠ first) : ∃ before, Next before d := by
  obtain ⟨⟨hone, hend⟩, hday, hlength⟩ := d.valid
  obtain ⟨hmonth, htwelve, -⟩ := d.month_spec
  by_cases hfirstDay : d.day = 1
  · by_cases hjanuary : d.month = 1
    · have hyear : d.year ≠ 1 := fun hyear => h (ext_parts hyear hjanuary hfirstDay)
      have hdecember : monthLength (d.year - 1) 12 = 31 := rfl
      refine ⟨⟨d.year - 1, 12, 31, ⟨by omega, by omega⟩, by omega, by omega⟩, ?_⟩
      exact .year ⟨rfl, rfl⟩ (by simp only; omega) hjanuary hfirstDay
    · have hpos := @monthLength_pos d.year (d.month - 1) (by omega)
      refine ⟨⟨d.year, d.month - 1, monthLength d.year (d.month - 1), ⟨hone, hend⟩, hpos,
        Nat.le_refl _⟩, ?_⟩
      exact .month rfl rfl (by simp only; omega) hfirstDay
  · refine ⟨⟨d.year, d.month, d.day - 1, ⟨hone, hend⟩, by omega, by omega⟩, ?_⟩
    exact .day rfl rfl (by simp only; omega)

/-- A date is followed by one date at most. -/
theorem Next.unique {e' : Date} (h : Next d e) (h' : Next d e') : e = e' := by
  obtain ⟨hone, htwelve, -⟩ := d.month_spec
  have he := e.valid.2.2
  have he' := e'.valid.2.2
  have hdecember : monthLength d.year 12 = 31 := rfl
  cases h with
  | day hyear hmonth hday =>
    cases h' with
    | day hyear' hmonth' hday' =>
      exact ext_parts (by omega) (by omega) (by omega)
    | month hlast' hyear' hmonth' hday' =>
      rw [hyear, hmonth, hday] at he
      omega
    | year hlast' hyear' hmonth' hday' =>
      rw [hyear, hmonth, hday, hlast'.1, hdecember] at he
      omega
  | month hlast hyear hmonth hday =>
    cases h' with
    | day hyear' hmonth' hday' =>
      rw [hyear', hmonth', hday'] at he'
      omega
    | month hlast' hyear' hmonth' hday' =>
      exact ext_parts (by omega) (by omega) (by omega)
    | year hlast' hyear' hmonth' hday' =>
      have hvalid := e.month_spec.2.1
      omega
  | year hlast hyear hmonth hday =>
    cases h' with
    | day hyear' hmonth' hday' =>
      rw [hyear', hmonth', hday', hlast.1, hdecember] at he'
      omega
    | month hlast' hyear' hmonth' hday' =>
      have hvalid := e'.month_spec.2.1
      omega
    | year hlast' hyear' hmonth' hday' =>
      exact ext_parts (by omega) (by omega) (by omega)

/-! ## Counting -/

/-- The first day has none before it. -/
theorem dayNumber_first : first.dayNumber = 0 := by decide

variable {n n' : Nat} {w w' : Weekday}

/-- Counting comes to the number of a date, and to the weekday of that number. -/
theorem IsDay.eq_of_dayNumber (h : d.IsDay n w) :
    n = d.dayNumber ∧ w = Weekday.ofDayNumber d.dayNumber := by
  induction h with
  | first =>
    rw [dayNumber_first]
    exact ⟨rfl, rfl⟩
  | next h hnext ih =>
    obtain ⟨rfl, rfl⟩ := ih
    rw [hnext.dayNumber_eq, Weekday.ofDayNumber_succ]
    exact ⟨rfl, rfl⟩

/-- Counting comes to every date. -/
theorem isDay_dayNumber (d : Date) : d.IsDay d.dayNumber (.ofDayNumber d.dayNumber) := by
  induction hn : d.dayNumber generalizing d with
  | zero =>
    by_cases hd : d = first
    · rw [hd]
      exact .first
    · obtain ⟨before, hnext⟩ := exists_next_of_ne hd
      have := hnext.dayNumber_eq
      omega
  | succ n ih =>
    have hd : d ≠ first := by
      rintro rfl
      rw [dayNumber_first] at hn
      omega
    obtain ⟨before, hnext⟩ := exists_next_of_ne hd
    have hbefore := hnext.dayNumber_eq
    rw [Weekday.ofDayNumber_succ]
    exact .next (ih before (by omega)) hnext

/-- So the number of a date and its weekday are what counting comes to, and nothing else is. -/
theorem isDay_iff : d.IsDay n w ↔ n = d.dayNumber ∧ w = .ofDayNumber d.dayNumber := by
  refine ⟨IsDay.eq_of_dayNumber, ?_⟩
  rintro ⟨rfl, rfl⟩
  exact d.isDay_dayNumber

/-- Counting comes to one date with each number. -/
theorem IsDay.unique (h : d.IsDay n w) (h' : e.IsDay n w') : d = e := by
  induction h generalizing e w' with
  | first =>
    cases h' with
    | first => rfl
  | next h hnext ih =>
    cases h' with
    | next h' hnext' =>
      cases ih h'
      exact hnext.unique hnext'

/-- Dates with as many days before them are the same. -/
theorem eq_of_dayNumber_eq (h : d.dayNumber = e.dayNumber) : d = e := by
  have hd := d.isDay_dayNumber
  rw [h] at hd
  exact hd.unique e.isDay_dayNumber

end Date

/-! ## The date of a number -/

/-- The days before a year are those of the whole cycles, centuries, leap cycles and years before
it. -/
private theorem daysBeforeYear_parts {cycles centuries quads years : Nat} (hcenturies : centuries ≤ 3)
    (hquads : quads ≤ 24) (hyears : years ≤ 3) :
    daysBeforeYear (cycles * 400 + centuries * 100 + quads * 4 + years + 1) =
      cycles * 146097 + centuries * 36524 + quads * 1461 + years * 365 := by
  have hquad : (cycles * 400 + centuries * 100 + quads * 4 + years) / 4 =
      cycles * 100 + centuries * 25 + quads := by omega
  have hcentury : (cycles * 400 + centuries * 100 + quads * 4 + years) / 100 =
      cycles * 4 + centuries := by omega
  have hcycle : (cycles * 400 + centuries * 100 + quads * 4 + years) / 400 = cycles := by omega
  rw [daysBeforeYear, Nat.add_sub_cancel, hquad, hcentury, hcycle]
  omega

/-- The year of a numbered day and its place in it give the number back. -/
theorem daysBeforeYear_splitYear (n : Nat) :
    daysBeforeYear (splitYear n).1 + (splitYear n).2 = n := by
  simp only [splitYear]
  rw [daysBeforeYear_parts (by omega) (by omega) (by omega)]
  omega

/-- The month of a day and its place in it give the place in the year back. -/
theorem totalDays_splitDays (lengths : List Nat) (n : Nat) :
    totalDays (lengths.take (splitDays lengths n).1) + (splitDays lengths n).2 = n := by
  induction lengths generalizing n with
  | nil => simp [splitDays, totalDays]
  | cons length rest ih =>
    by_cases hn : n < length
    · simp [splitDays, hn, totalDays]
    · have hrest := ih (n - length)
      simp only [splitDays, if_neg hn, List.take_succ_cons, totalDays, List.foldr_cons] at hrest ⊢
      omega

namespace Date

variable {d e : Date}

/-- The date of a number has that many days before it. -/
theorem dayNumber_ofDayNumber {n : Nat} (h : n < dayCount) : (ofDayNumber n h).dayNumber = n := by
  have hmonth := totalDays_splitDays (monthLengths (splitYear n).1) (splitYear n).2
  have hyear := daysBeforeYear_splitYear n
  simp only [dayNumber, ofDayNumber, Nat.add_sub_cancel]
  omega

end Date

end Loyalty
