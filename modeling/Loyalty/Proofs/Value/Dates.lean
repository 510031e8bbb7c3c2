import Loyalty.Proofs.Action
import Loyalty.Proofs.Calendar.IsoForms
import Loyalty.Proofs.Value.Refusals

/-!
# Values as dates

A value shows a moment if it is one, a date, or a text in ISO form. What is asked of dates is
answered from the instant of that moment alone, so that texts of one instant are interchangeable.
There is no answer where the moment leaves the calendar on its way to UTC.
-/

namespace Loyalty.Value

/-- A value shows a moment. -/
inductive Shows : Value → Moment → Prop
  | moment (m : Moment) : Shows (.moment m) m
  | date (d : Date) : Shows (.date d) (.ofDate d)
  | text {s : String} {m : Moment} (h : Moment.ofText? s = some m) : Shows (.text s) m

/-- A value shows some moment. -/
def IsDate (v : Value) : Prop := ∃ m, v.Shows m

variable {v w start stop : Value} {m : Moment} {i : Instant}

/-! ## The instant of a value -/

/-- The instant of a value is that of the moment it shows. -/
theorem instant_of_shows (h : v.Shows m) : v.instant = instantOf m := by
  cases h with
  | moment => rfl
  | date => rfl
  | text h => simp only [instant, h]

/-- A value that shows no moment has no instant. -/
theorem instant_of_not_isDate (h : ¬ v.IsDate) : v.instant = .ok none := by
  cases v with
  | moment m => exact absurd ⟨m, .moment m⟩ h
  | date d => exact absurd ⟨_, .date d⟩ h
  | text s =>
    cases hread : Moment.ofText? s with
    | none => simp only [instant, hread]
    | some m => exact absurd ⟨m, .text hread⟩ h
  | _ => rfl

/-- A moment has the instant at its microseconds in UTC. -/
theorem instantOf_eq_ok (h : i.micros = m.utcMicros) : instantOf m = .ok (some i) := by
  rw [instantOf, Moment.instant?_eq_some_iff.mpr h]

/-- The only fault of a value as a date is to leave the calendar. -/
theorem instant_of_leavesCalendar (h : v.LeavesCalendar) :
    v.instant = .error .momentOutOfRange := by
  obtain ⟨f, hf⟩ := instant_eq_error_iff.mpr h
  have hfault : ∀ {m}, instantOf m = .error f → f = .momentOutOfRange := by
    intro m hm
    unfold instantOf at hm
    split at hm
    · cases hm
    · exact (Except.error.inj hm).symm
  have hdate : v.IsDate := by
    by_contra hnone
    rw [instant_of_not_isDate hnone] at hf
    cases hf
  obtain ⟨m, hm⟩ := hdate
  rw [hf, hfault ((instant_of_shows hm).symm.trans hf)]

/-- A value that leaves the calendar shows its first or its last day. -/
theorem LeavesCalendar.exists_shows (h : v.LeavesCalendar) :
    ∃ m, v.Shows m ∧ (m.date = .first ∨ m.date = .last) := by
  obtain ⟨m, hv, houtside⟩ := h
  refine ⟨m, ?_, Moment.date_of_outside houtside⟩
  rcases hv with rfl | ⟨s, rfl, hread⟩
  · exact .moment m
  · exact .text hread

/-- A value that leaves the calendar counts as true. -/
theorem LeavesCalendar.isTruthy (h : v.LeavesCalendar) : v.isTruthy = true := by
  obtain ⟨m, rfl | ⟨s, rfl, hread⟩, -⟩ := h
  · rfl
  · rw [Value.isTruthy, bne_iff_ne]
    rintro rfl
    have hnone : Moment.ofText? "" = none := by decide +kernel
    cases hnone.symm.trans hread

/-- Every other value has an instant or none. -/
theorem exists_instant_iff : (∃ i?, v.instant = .ok i?) ↔ ¬ v.LeavesCalendar := by
  rw [exists_ok_iff, instant_eq_error_iff]

/-! ## What is asked of dates -/

/-- Whether a value lies on a weekend is told by its weekday. -/
theorem isWeekend_of_instant (h : v.instant = .ok (some i)) :
    v.isWeekend = .ok i.weekday.isWeekend := by
  rw [isWeekend, h]
  rfl

/-- The name of the day of a value is that of its weekday. -/
theorem dayName_of_instant (h : v.instant = .ok (some i)) :
    v.dayName = .ok (some i.weekday.name) := by
  rw [dayName, h]
  rfl

/-- Values are in order if their instants are. -/
theorem isBetween_of_instant {first last : Instant} (h : v.instant = .ok (some i))
    (hstart : start.instant = .ok (some first)) (hstop : stop.instant = .ok (some last)) :
    v.isBetween start stop =
      .ok (decide (first.micros ≤ i.micros ∧ i.micros ≤ last.micros)) := by
  rw [isBetween, h, hstart, hstop, Bool.decide_and]
  rfl

/-- A value without an instant lies on no weekend and on no day, and it is in order with no
others. -/
theorem isWeekend_of_not_isDate (h : ¬ v.IsDate) :
    v.isWeekend = .ok false ∧ v.dayName = .ok none := by
  rw [isWeekend, dayName, instant_of_not_isDate h]
  exact ⟨rfl, rfl⟩

/-- Values of which one shows no moment are in no order. -/
theorem isBetween_of_not_isDate (h : ¬ v.IsDate ∨ ¬ start.IsDate ∨ ¬ stop.IsDate) {b : Bool}
    (hb : v.isBetween start stop = .ok b) : b = false := by
  obtain ⟨i?, hi, hrest⟩ := bind_eq_ok.mp hb
  obtain ⟨first?, hfirst, hrest⟩ := bind_eq_ok.mp hrest
  obtain ⟨last?, hlast, hrest⟩ := bind_eq_ok.mp hrest
  split at hrest
  · rename_i i first last
    have hsome : ∀ {u : Value} {j}, u.instant = .ok (some j) → u.IsDate := by
      intro u j hu
      by_contra hnone
      rw [instant_of_not_isDate hnone] at hu
      cases hu
    rcases h with h | h | h
    · exact absurd (hsome hi) h
    · exact absurd (hsome hfirst) h
    · exact absurd (hsome hlast) h
  · exact (Except.ok.inj hrest).symm

/-- Values with the same instant are interchangeable where dates are asked for. -/
theorem dates_congr (h : v.instant = w.instant) :
    v.isWeekend = w.isWeekend ∧ v.dayName = w.dayName ∧ ∀ x y,
      v.isBetween x y = w.isBetween x y ∧ x.isBetween v y = x.isBetween w y ∧
        x.isBetween y v = x.isBetween y w := by
  simp only [isWeekend, dayName, isBetween, h, and_self, implies_true]

/-! ## Texts in ISO form -/

/-- A value is a text in ISO form of a moment in the years 2 to 9998. -/
def IsFormOf (v : Value) (m : Moment) : Prop :=
  ∃ s, v = .text s ∧ m.IsIso s.toList ∧ 2 ≤ m.date.year ∧ m.date.year ≤ 9998

/-- A form has the instant of its moment. -/
theorem IsFormOf.exists_instant (h : v.IsFormOf m) :
    ∃ i : Instant, v.instant = .ok (some i) ∧ i.micros = m.utcMicros := by
  obtain ⟨s, rfl, hform, hfirst, hlast⟩ := h
  obtain ⟨i, hi⟩ := Moment.exists_instant_of_year hfirst hlast
  exact ⟨i, (instant_of_shows (.text hform.ofText?_eq)).trans (instantOf_eq_ok hi), hi⟩

/-- Every moment of these years at a distance of whole minutes from UTC has a form. Its forms have
the instant that lies that distance back from the time they show: counting the days of the calendar
comes to the date that is shown and to the date of the instant, and the weekday counted along with
the latter is the one that is asked for. Forms of one instant are interchangeable, and forms are in
order if their instants are. -/
theorem dates_of_isFormOf :
    (∀ {m : Moment} {o : UtcOffset}, m.offset = some o → 60000000 ∣ o.micros →
      2 ≤ m.date.year → m.date.year ≤ 9998 → (∃ v, IsFormOf v m) ∧
      ∀ v, IsFormOf v m → ∃ (i : Instant) (shown counted : Nat) (w w' : Weekday),
        v.instant = .ok (some i) ∧ m.date.IsDay shown w ∧ i.date.IsDay counted w' ∧
        (counted * microsPerDay + i.time.micros : Int) =
          shown * microsPerDay + m.time.micros - o.micros ∧
        v.isWeekend = .ok w'.isWeekend ∧ v.dayName = .ok (some w'.name)) ∧
    (∀ {v w m m'}, IsFormOf v m → IsFormOf w m' → m.utcMicros = m'.utcMicros →
      v.isWeekend = w.isWeekend ∧ v.dayName = w.dayName ∧ ∀ x y,
        v.isBetween x y = w.isBetween x y ∧ x.isBetween v y = x.isBetween w y ∧
          x.isBetween y v = x.isBetween y w) ∧
    ∀ {v start stop m first last}, IsFormOf v m → IsFormOf start first → IsFormOf stop last →
      v.isBetween start stop =
        .ok (decide (first.utcMicros ≤ m.utcMicros ∧ m.utcMicros ≤ last.utcMicros)) := by
  refine ⟨fun {m o} ho hminutes hfirst hlast => ⟨?_, fun v hv => ?_⟩, ?_, ?_⟩
  · refine ⟨.text (String.ofList (m.iso 'T')), _, rfl, ?_, hfirst, hlast⟩
    rw [String.toList_ofList]
    exact Moment.isIso_iso ho hminutes
  · obtain ⟨i, hi, hmicros⟩ := hv.exists_instant
    refine ⟨i, _, _, _, _, hi, m.date.isDay_dayNumber, i.isDay_date, ?_, isWeekend_of_instant hi,
      dayName_of_instant hi⟩
    have hsplit := i.micros_eq
    rw [Moment.utcMicros, ho, Moment.localMicros] at hmicros
    simp only at hmicros
    push_cast at hmicros
    rw [← hmicros, hsplit]
    push_cast
    rfl
  · intro v w m m' hv hw hsame
    obtain ⟨i, hi, hmicros⟩ := hv.exists_instant
    obtain ⟨j, hj, hmicros'⟩ := hw.exists_instant
    have hij : instantOf m = instantOf m' := by
      rw [instantOf, instantOf, Moment.instant?, Moment.instant?, hsame]
    rw [instantOf_eq_ok hmicros, instantOf_eq_ok hmicros'] at hij
    exact dates_congr (by rw [hi, hj, hij])
  · intro v start stop m first last hv hstart hstop
    obtain ⟨i, hi, hmicros⟩ := hv.exists_instant
    obtain ⟨j, hj, hmicros'⟩ := hstart.exists_instant
    obtain ⟨k, hk, hmicros''⟩ := hstop.exists_instant
    rw [isBetween_of_instant hi hj hk, ← hmicros, ← hmicros', ← hmicros'']
    simp only [Int.ofNat_le]

/-- Half an hour before midnight of a leap day, an hour behind UTC. -/
def leapEvening : Moment :=
  ⟨⟨2024, 2, 29, by decide⟩, ⟨84600000000, by decide⟩, some ⟨-3600000000, by decide⟩⟩

/-- The same instant by a clock of UTC. -/
def leapNight : Moment := ⟨⟨2024, 3, 1, by decide⟩, ⟨1800000000, by decide⟩, some .utc⟩

/-- The evening of a leap day is the first of March in UTC, a Friday. -/
theorem dates_of_isFormOf_leapEvening :
    IsFormOf (.text "2024-02-29T23:30:00-01:00") leapEvening ∧
    IsFormOf (.text "2024-03-01T00:30:00Z") leapNight ∧
    (∃ (i : Instant) (shown counted : Nat) (w w' : Weekday),
      (Value.text "2024-02-29T23:30:00-01:00").instant = .ok (some i) ∧
      leapEvening.date.IsDay shown w ∧ i.date.IsDay counted w' ∧
      (counted * microsPerDay + i.time.micros : Int) =
        shown * microsPerDay + 84600000000 + 3600000000 ∧
      (Value.text "2024-02-29T23:30:00-01:00").dayName = .ok (some w'.name)) ∧
    (Value.text "2024-02-29T23:30:00-01:00").dayName =
      (Value.text "2024-03-01T00:30:00Z").dayName ∧
    (Value.text "2024-02-29T23:30:00-01:00").isBetween (.text "2024-03-01T00:30:00Z")
      (.text "2024-03-01T00:30:00Z") = .ok true := by
  have hevening : IsFormOf (.text "2024-02-29T23:30:00-01:00") leapEvening := by
    refine ⟨_, rfl, ?_, by decide, by decide⟩
    have hform := Moment.isIso_iso (m := leapEvening) rfl (by decide)
    exact hform
  have hnight : IsFormOf (.text "2024-03-01T00:30:00Z") leapNight := by
    refine ⟨_, rfl, ?_, by decide, by decide⟩
    exact Moment.IsIso.parts (Date.isIso_iso _) (TimeOfDay.isIso_iso _) (.zulu rfl (.inl rfl))
  have hsame : leapEvening.utcMicros = leapNight.utcMicros := by decide +kernel
  obtain ⟨i, shown, counted, w, w', hi, hshown, hcounted, hmicros, -, hname⟩ :=
    (dates_of_isFormOf.1 (m := leapEvening) rfl (by decide) (by decide) (by decide)).2 _ hevening
  refine ⟨hevening, hnight, ⟨i, shown, counted, w, w', hi, hshown, hcounted, ?_, hname⟩,
    (dates_of_isFormOf.2.1 hevening hnight hsame).2.1, ?_⟩
  · rw [hmicros]
    rfl
  · rw [dates_of_isFormOf.2.2 hevening hnight hnight, hsame]
    simp

end Loyalty.Value
