import Loyalty.Calendar.Moment
import Loyalty.Proofs.Calendar.Days

/-!
# Moments placed in time

An instant is the day of UTC that holds it, counted from the first day of the calendar, and the
time of that day. A moment is placed there unless it shows the first or the last day of the
calendar and its distance from UTC takes it beyond.
-/

namespace Loyalty

/-- The last day of the calendar. -/
def Date.last : Date := ⟨9999, 12, 31, by decide⟩

namespace Instant

/-- Counting the days comes to the date of an instant, and to its weekday. -/
theorem isDay_date (i : Instant) : i.date.IsDay i.dayNumber i.weekday := by
  rw [Date.isDay_iff, date, Date.dayNumber_ofDayNumber]
  exact ⟨rfl, rfl⟩

/-- An instant is a time of its day. -/
theorem micros_eq (i : Instant) : i.micros = i.dayNumber * microsPerDay + i.time.micros :=
  (Nat.div_add_mod' i.micros microsPerDay).symm

/-- The instant of some microseconds has them. -/
theorem of?_eq_some_iff {micros : Int} {i : Instant} : of? micros = some i ↔ i.micros = micros := by
  have hlt := i.lt
  unfold of?
  split
  · rename_i hinside
    rw [Option.some.injEq]
    constructor
    · rintro rfl
      exact Int.toNat_of_nonneg hinside.1
    · rintro rfl
      rfl
  · rename_i houtside
    refine iff_of_false (by simp) ?_
    omega

end Instant

namespace Moment

variable {m : Moment}

/-- A moment lies less than a day from what it would be in UTC. -/
theorem utcMicros_near (m : Moment) : (m.utcMicros - m.localMicros).natAbs < microsPerDay := by
  rw [utcMicros]
  cases m.offset with
  | none => simp [microsPerDay]
  | some o =>
    have hlt := o.lt
    simp only
    omega

/-- Only on the first and the last day of the calendar is a moment taken beyond. -/
theorem date_of_outside (h : m.utcMicros < 0 ∨ (dayCount * microsPerDay : Nat) ≤ m.utcMicros) :
    m.date = .first ∨ m.date = .last := by
  have hnear := m.utcMicros_near
  have htime := m.time.lt
  have hfirst := Date.dayNumber_first
  have hlast : Date.last.dayNumber = 3652058 := by decide
  have hlocal : m.localMicros = m.date.dayNumber * microsPerDay + m.time.micros := rfl
  unfold microsPerDay dayCount at *
  rcases h with hbefore | hbehind
  · exact .inl (Date.eq_of_dayNumber_eq (by omega))
  · have hend := m.date.dayNumber_lt
    unfold dayCount at hend
    exact .inr (Date.eq_of_dayNumber_eq (by omega))

/-- A moment that shows neither the first nor the last year lies in the calendar of UTC,
whatever its distance from UTC is. -/
theorem utcMicros_of_year (hfirst : m.date.year ≠ 1) (hlast : m.date.year ≠ 9999) :
    0 ≤ m.utcMicros ∧ m.utcMicros < (dayCount * microsPerDay : Nat) := by
  by_contra houtside
  rcases date_of_outside (m := m) (by omega) with h | h
  · exact hfirst (congrArg Date.year h)
  · exact hlast (congrArg Date.year h)

/-- So it has an instant. -/
theorem exists_instant_of_year (hfirst : 2 ≤ m.date.year) (hlast : m.date.year ≤ 9998) :
    ∃ i : Instant, i.micros = m.utcMicros := by
  obtain ⟨hlow, hhigh⟩ := @utcMicros_of_year m (by omega) (by omega)
  have hmicros : (m.utcMicros.toNat : Int) = m.utcMicros := Int.toNat_of_nonneg hlow
  exact ⟨⟨m.utcMicros.toNat, by omega⟩, hmicros⟩

/-- A moment is at its microseconds in UTC. -/
theorem instant?_eq_some_iff {i : Instant} : m.instant? = some i ↔ i.micros = m.utcMicros :=
  Instant.of?_eq_some_iff

end Moment

end Loyalty
