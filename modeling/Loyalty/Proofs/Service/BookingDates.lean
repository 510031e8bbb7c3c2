import Loyalty.Proofs.Engine.LostDates
import Loyalty.Proofs.Engine.Undiscounted
import Loyalty.Proofs.Service.Bookings

/-!
# The date of a booking

What is asked of a date is answered unless the date leaves the calendar on its way to UTC, and so
is a booking on it. A booking without a date is one for today in UTC, written as a date, which is
read back as the midnight of that day.
-/

namespace Loyalty.Service

open Loyalty.Action

variable {engine : Engine} {payload : Fields} {tier : String} {amount : Double} {now : Moment}
  {date : Value} {s : Service}

/-! ## Dates that leave the calendar -/

/-- A booking for a date that leaves the calendar comes to nothing, whatever the rules are. -/
theorem result_onDate_of_leavesCalendar (h : date.LeavesCalendar) :
    (onDate engine tier amount date).result s = (.error .momentOutOfRange, s) := by
  have hday : date.dayName = .error .momentOutOfRange := by
    rw [Value.dayName, Value.instant_of_leavesCalendar h]
    rfl
  rw [onDate, hday, result_ofExcept_error_bind]

/-- A booking for a given date is passed on to the engine in use with that date. -/
theorem result_calculate_of_date (h : Books payload tier amount) (hengine : s.engine = some engine)
    (hgiven : (payload.get "booking_date").isTruthy = true) :
    (calculate payload now).result s =
      (onDate engine tier amount (payload.get "booking_date")).result s := by
  rw [result_calculate h hengine, result_calculateBooking hgiven]

/-- What is asked of dates is answered unless one of them leaves the calendar, which only its first
and its last day do, and the answer is no for what shows no moment. Conditions end in that fault
exactly if they visit a test that reads such a date, calculations only then, and no calculation
returns then. A booking is answered by the calculation for its record unless its date does so. -/
theorem dates_answer_iff (v start stop : Value) (marks : Identity) (record : Value)
    (c : Condition) (engine : Engine) :
    (((∃ b, v.isWeekend = .ok b) ↔ ¬ v.LeavesCalendar) ∧
      ((∃ day, v.dayName = .ok day) ↔ ¬ v.LeavesCalendar) ∧
      (¬ v.IsDate → v.isWeekend = .ok false ∧ v.dayName = .ok none) ∧
      (v.LeavesCalendar → ∃ m, v.Shows m ∧ (m.date = .first ∨ m.date = .last))) ∧
    (((∃ b, v.isBetween start stop = .ok b) ↔
        ¬ (v.LeavesCalendar ∨ start.LeavesCalendar ∨ stop.LeavesCalendar)) ∧
      (¬ v.IsDate ∨ ¬ start.IsDate ∨ ¬ stop.IsDate →
        ∀ b, v.isBetween start stop = .ok b → b = false)) ∧
    ((c.evaluate marks record).outcome = .error .momentOutOfRange ↔
      ∃ node, Condition.Visits marks record c node ∧ node.LosesDate record) ∧
    (((engine.apply record).outcome = .error .momentOutOfRange → engine.LosesDate record) ∧
      (engine.LosesDate record → ∀ c, (engine.apply record).outcome ≠ .ok c)) ∧
    ∀ {payload : Fields} {tier : String} {amount : Double} {s : Service} (now : Moment),
      Books payload tier amount → s.engine = some engine →
      (payload.get "booking_date").isTruthy = true →
      ((payload.get "booking_date").LeavesCalendar →
        (calculate payload now).result s = (.error .momentOutOfRange, s)) ∧
      (¬ (payload.get "booking_date").LeavesCalendar → ∃ day record,
        (payload.get "booking_date").dayName = .ok day ∧
        record = bookingRecord tier amount (payload.get "booking_date") day ∧
        (calculate payload now).result s =
          ((engine.apply record).outcome.map (calculated record), s)) := by
  refine ⟨⟨?_, ?_, Value.isWeekend_of_not_isDate, Value.LeavesCalendar.exists_shows⟩,
    ⟨?_, fun h b => Value.isBetween_of_not_isDate h⟩, Condition.outcome_eq_momentOutOfRange_iff,
    ⟨Engine.losesDate_of_apply, fun h c => h.apply_ne_ok⟩, ?_⟩
  · rw [exists_ok_iff, Value.isWeekend, exists_error_map, Value.instant_eq_error_iff]
  · rw [exists_ok_iff, Value.dayName, exists_error_map, Value.instant_eq_error_iff]
  · rw [exists_ok_iff, Operator.isBetween_eq_error_iff]
  · intro payload tier amount s now hbooks hengine hgiven
    rw [result_calculate_of_date hbooks hengine hgiven]
    refine ⟨result_onDate_of_leavesCalendar, fun hstays => ?_⟩
    obtain ⟨i?, hi⟩ := Value.exists_instant_iff.mpr hstays
    have hday : (payload.get "booking_date").dayName =
        .ok (i?.map fun i => i.weekday.name) := by
      rw [Value.dayName, hi]
      rfl
    exact ⟨_, _, hday, rfl, result_onDate hday⟩

/-- The first midnight of the calendar by a clock an hour ahead of UTC. -/
def firstMorning : String := "0001-01-01T00:00:00+01:00"

/-- In UTC it is not in the calendar yet. -/
theorem leavesCalendar_firstMorning : (Value.text firstMorning).LeavesCalendar := by
  refine ⟨⟨.first, .midnight, some ⟨3600000000, by decide⟩⟩, .inr ⟨_, rfl, ?_⟩, .inl ?_⟩
  · decide +kernel
  · decide +kernel

/-- A payload that books gold with some amount for that midnight. -/
def firstPayload (amount : Double) : Fields :=
  [("tier", .text "gold"), ("total_spend", .double amount), ("booking_date", .text firstMorning)]

/-- A hundred can be booked for it. -/
theorem books_firstPayload : Books (firstPayload hundred) "gold" hundred :=
  books_hundred.congr rfl rfl

/-- A Monday does not leave the calendar, and that midnight is on its first day. -/
theorem dates_answer_iff_monday :
    Books (mondayPayload hundred) "gold" hundred ∧
    (∃ day record, (Value.text "2025-11-03").dayName = .ok day ∧
      record = bookingRecord "gold" hundred (.text "2025-11-03") day ∧
      (calculate (mondayPayload hundred) bookingTime).result (inUse []) =
        ((Engine.apply ⟨Engine.defaultAmountField, [], .shared⟩ record).outcome.map
          (calculated record), inUse [])) ∧
    (∃ m, (Value.text firstMorning).Shows m ∧ (m.date = .first ∨ m.date = .last)) ∧
    (Value.text "soon").isWeekend = .ok false := by
  have hmonday : ¬ (Value.text "2025-11-03").LeavesCalendar := by
    rw [← Value.exists_instant_iff]
    exact ⟨_, rfl⟩
  have hsoon : ¬ (Value.text "soon").IsDate := by
    have hread : Moment.ofText? "soon" = none := by decide +kernel
    rintro ⟨m, hm⟩
    cases hm with
    | text hm => cases hread.symm.trans hm
  have hanswers := fun v => dates_answer_iff v v v .distinct (mondayBooking hundred)
    (.ofValue Condition.nestedCondition) ⟨Engine.defaultAmountField, [], .shared⟩
  obtain ⟨-, -, -, -, hbooking⟩ := hanswers .null
  exact ⟨books_hundred, (hbooking bookingTime books_hundred rfl (by decide)).2 hmonday,
    (hanswers _).1.2.2.2 leavesCalendar_firstMorning, ((hanswers _).1.2.2.1 hsoon).1⟩

/-- Nothing is answered for that midnight: neither what is asked of dates nor a booking on it. -/
theorem not_answered_firstMorning :
    (∀ b, (Value.text firstMorning).isWeekend ≠ .ok b) ∧
    (∀ day, (Value.text firstMorning).dayName ≠ .ok day) ∧
    (∀ b, (Value.text "2025-11-03").isBetween (.text firstMorning) .null ≠ .ok b) ∧
    (calculate (firstPayload hundred) bookingTime).result (inUse []) =
      (.error .momentOutOfRange, inUse []) := by
  have hinstant := Value.instant_of_leavesCalendar leavesCalendar_firstMorning
  refine ⟨fun b => ?_, fun day => ?_, fun b hb => ?_, ?_⟩
  · simp [Value.isWeekend, hinstant, Except.map]
  · simp [Value.dayName, hinstant, Except.map]
  · obtain ⟨i?, -, hrest⟩ := bind_eq_ok.mp hb
    rw [hinstant] at hrest
    cases hrest
  · rw [result_calculate_of_date books_firstPayload rfl (by decide)]
    exact result_onDate_of_leavesCalendar leavesCalendar_firstMorning

/-! ## Today -/

/-- The date of today in UTC is written in its form. -/
theorem exists_today {i : Instant} (hnow : i.micros = now.utcMicros) :
    ∃ today, now.utcDate = .ok today ∧ i.date.IsIso today.toList := by
  refine ⟨String.ofList i.date.iso, ?_, ?_⟩
  · simp only [Moment.utcDate, Moment.instant?_eq_some_iff.mpr hnow]
  · rw [String.toList_ofList]
    exact i.date.isIso_iso

/-- It is not empty. -/
theorem isTruthy_of_isIso {d : Date} {s : String} (h : d.IsIso s.toList) :
    (Value.text s).isTruthy = true := by
  rw [Value.isTruthy, bne_iff_ne]
  rintro rfl
  exact h.ne_nil rfl

/-- The form of the date of an instant is read as the midnight before it. -/
theorem exists_midnight {i : Instant} {s : String} (h : i.date.IsIso s.toList) :
    ∃ midnight : Instant, (Value.text s).instant = .ok (some midnight) ∧
      midnight.micros = i.dayNumber * microsPerDay := by
  have hlt := Nat.mul_lt_mul_of_pos_right i.dayNumber_lt (show 0 < microsPerDay by decide)
  refine ⟨⟨i.dayNumber * microsPerDay, hlt⟩, ?_, rfl⟩
  rw [Value.instant_of_shows (.text (Moment.ofText?_of_date h))]
  refine Value.instantOf_eq_ok ?_
  have hday : i.date.dayNumber = i.dayNumber := Date.dayNumber_ofDayNumber i.dayNumber_lt
  simp [Moment.utcMicros, Moment.localMicros, Moment.ofDate, TimeOfDay.midnight, hday]

/-- Where no date is given, today takes its place. -/
theorem calculateBooking_today {today : String} (htoday : now.utcDate = .ok today)
    (hgiven : (Value.text today).isTruthy = true) (hnone : date.isTruthy = false) :
    calculateBooking engine tier amount date now =
      calculateBooking engine tier amount (.text today) now := by
  unfold calculateBooking
  rw [if_pos hgiven, if_neg (by rw [hnone]; decide), htoday]
  rfl

/-- A booking without a date is one for today. -/
theorem calculate_put_today {today : String} (htoday : now.utcDate = .ok today)
    (hgiven : (Value.text today).isTruthy = true)
    (hnone : (payload.get "booking_date").isTruthy = false) :
    calculate payload now = calculate (payload.put "booking_date" (.text today)) now := by
  have hget : ∀ {key : String}, key ≠ "booking_date" →
      (payload.put "booking_date" (.text today)).get key = payload.get key := by
    intro key hkey
    rw [Fields.get, Fields.lookup_put_of_ne hkey, Fields.get]
  have hdate : (payload.put "booking_date" (.text today)).get "booking_date" = .text today := by
    rw [Fields.get, Fields.lookup_put_self, Option.getD_some]
  simp only [calculate, hget (show "tier" ≠ "booking_date" by decide),
    hget (show "total_spend" ≠ "booking_date" by decide), hdate,
    calculateBooking_today htoday hgiven hnone]

/-- Such a booking is made for today. -/
theorem result_calculate_of_no_date {today : String} (htoday : now.utcDate = .ok today)
    (hgiven : (Value.text today).isTruthy = true)
    (hnone : (payload.get "booking_date").isTruthy = false) (h : Books payload tier amount)
    (hengine : s.engine = some engine) :
    (calculate payload now).result s = (onDate engine tier amount (.text today)).result s := by
  rw [result_calculate h hengine, calculateBooking_today htoday hgiven hnone,
    result_calculateBooking hgiven]

/-- Today is the day of UTC that holds the instant shown by the clock: its date is written in its
form, and that is read back as the midnight of the day. A booking without a date is the same as one
for today, and if it is answered with success, the answer names that day of the week. -/
theorem calculate_today {i : Instant} (hnow : i.micros = now.utcMicros) :
    ∃ (today : String) (n : Nat) (w : Weekday), now.utcDate = .ok today ∧
      i.date.IsDay n w ∧ n * microsPerDay ≤ i.micros ∧ i.micros < (n + 1) * microsPerDay ∧
      i.date.IsIso today.toList ∧
      (∃ midnight : Instant, (Value.text today).instant = .ok (some midnight) ∧
        midnight.micros = n * microsPerDay) ∧
      ∀ payload : Fields, (payload.get "booking_date").isTruthy = false →
        calculate payload now = calculate (payload.put "booking_date" (.text today)) now ∧
        ∀ {s s' : Service} {response : Response},
          (calculate payload now).result s = (.ok response, s') → response.status = 200 →
          ∃ engine tier amount c, s.engine = some engine ∧ Books payload tier amount ∧
            response =
              calculated (bookingRecord tier amount (.text today) (some w.name)) c := by
  obtain ⟨today, htoday, hform⟩ := exists_today hnow
  have hgiven := isTruthy_of_isIso hform
  obtain ⟨midnight, hmidnight, hmicros⟩ := exists_midnight hform
  have hday : (Value.text today).dayName = .ok (some i.weekday.name) := by
    have hweekday : midnight.weekday = i.weekday := by
      rw [Instant.weekday, Instant.dayNumber, hmicros, Nat.mul_div_cancel _ (by decide)]
      rfl
    rw [Value.dayName_of_instant hmidnight, hweekday]
  have htime := i.time.lt
  have hsplit := i.micros_eq
  refine ⟨today, i.dayNumber, i.weekday, htoday, i.isDay_date, by omega, ?_, hform,
    ⟨midnight, hmidnight, hmicros⟩, fun payload hnone => ?_⟩
  · rw [Nat.succ_mul]
    omega
  · have hsame := calculate_put_today htoday hgiven hnone
    refine ⟨hsame, fun {s s' response} h hstatus => ?_⟩
    obtain ⟨engine, tier, amount, hengine, hbooks⟩ := books_of_calculate h hstatus
    rw [result_calculate_of_no_date htoday hgiven hnone hbooks hengine, result_onDate hday] at h
    obtain ⟨c, -, hc⟩ := map_eq_ok.mp (congrArg Prod.fst h)
    exact ⟨engine, tier, amount, c, hengine, hbooks, hc.symm⟩

/-- A payload that books gold with some amount, for no date. -/
def undatedPayload (amount : Double) : Fields :=
  [("tier", .text "gold"), ("total_spend", .double amount)]

/-- The evening of a leap day, an hour behind UTC, is on a Friday there. -/
theorem calculate_today_leapEvening :
    ∃ (i : Instant) (n : Nat) (w : Weekday), i.micros = Value.leapEvening.utcMicros ∧
      i.date.IsDay n w ∧ Value.leapEvening.utcDate = .ok "2024-03-01" ∧
      calculate (undatedPayload hundred) Value.leapEvening =
        calculate ((undatedPayload hundred).put "booking_date" (.text "2024-03-01"))
          Value.leapEvening ∧
      ∃ response tier amount c,
        (calculate (undatedPayload hundred) Value.leapEvening).result (inUse []) =
          (.ok response, inUse []) ∧
        response = calculated (bookingRecord tier amount (.text "2024-03-01") (some w.name)) c := by
  obtain ⟨i, hnow⟩ := Moment.exists_instant_of_year (m := Value.leapEvening) (by decide) (by decide)
  obtain ⟨today, n, w, htoday, hday, -, -, -, -, hpayload⟩ := calculate_today hnow
  obtain rfl : today = "2024-03-01" := Except.ok.inj (htoday.symm.trans (by rfl))
  have hnone : ((undatedPayload hundred).get "booking_date").isTruthy = false := rfl
  obtain ⟨hsame, hanswer⟩ := hpayload _ hnone
  have hbooks : Books (undatedPayload hundred) "gold" hundred := books_hundred.congr rfl rfl
  have hmarch : (Value.text "2024-03-01").dayName = .ok (some "Friday") := by rfl
  have huse : (inUse []).engine = some ⟨Engine.defaultAmountField, [], .shared⟩ := rfl
  have hread := @recordAmount_bookingRecord "gold" hundred (.text "2024-03-01") (some "Friday")
    hbooks.finite
  obtain ⟨c, hc, -⟩ := @Engine.exists_undiscounted hundred
    ⟨Engine.defaultAmountField, [], .shared⟩ _ rfl hread hbooks.finite
    ((Double.lt_zero_eq_false_iff hbooks.finite).mp hbooks.nonneg)
  have hresult := result_calculate_of_no_date htoday (by decide) hnone hbooks huse
  rw [result_onDate hmarch, hc] at hresult
  obtain ⟨engine, tier, amount, c', -, -, hresponse⟩ := hanswer hresult rfl
  exact ⟨i, n, w, hnow, hday, htoday, hsame, _, tier, amount, c', hresult, hresponse⟩

end Loyalty.Service
