import Loyalty.Proofs.Engine.Undiscounted
import Loyalty.Proofs.Service.BookingDates

/-!
# Payloads that are accepted

A booking is accepted if it names a tier in any case and posts a finite amount that is not
negative, and refused otherwise with the reason. An engine without rules then charges the amount as
it is. No answer is given where the posted integer is too large to be an amount, or where an
accepted booking is for a date that leaves the calendar.
-/

namespace Loyalty.Service

open Loyalty.Action

/-- A payload that names one of the tiers, in any case. -/
def NamesTier (payload : Fields) : Prop :=
  ∃ s word, payload.get "tier" = .text s ∧ word ∈ tiers ∧ s.toList.map Char.toLower = word.toList

/-- A payload that names a tier and posts a finite amount that is not negative. -/
structure Accepts (payload : Fields) (amount : Double) : Prop where
  tier : NamesTier payload
  posted : (payload.get "total_spend").postedAmount = .ok (some amount)
  finite : amount.isFinite = true
  nonneg : 0 ≤ amount.value

/-- An answer that refuses a request and tells the reason first. -/
structure Refuses (response : Response) : Prop where
  status : response.status = 400
  body : ∃ reason more, response.body = .object (("error", .text reason) :: more)

variable {engine : Engine} {payload : Fields} {tier : String} {amount : Double} {now : Moment}
  {s s' : Service} {response : Response}

/-! ## The checks of a payload -/

/-- A tier is found for the payloads that name one. -/
theorem exists_tier?_iff : (∃ tier, tier? (payload.get "tier") = some tier) ↔ NamesTier payload := by
  unfold NamesTier
  cases payload.get "tier" with
  | text s =>
    simp only [tier?, ← Option.isSome_iff_exists, List.find?_isSome, isWord, beq_iff_eq,
      Value.text.injEq, exists_and_left, exists_eq_left']
  | _ => simp [tier?]

/-- A payload that names a tier gives one. -/
theorem NamesTier.isTruthy (h : NamesTier payload) : (payload.get "tier").isTruthy = true := by
  obtain ⟨s, word, hs, hword, hlower⟩ := h
  rw [hs, Value.isTruthy, bne_iff_ne]
  rintro rfl
  have hne : ∀ word ∈ tiers, word.toList ≠ [] := by decide
  exact hne word hword hlower.symm

/-- A payload is accepted if it books. -/
theorem accepts_iff : Accepts payload amount ↔ ∃ tier, Books payload tier amount := by
  constructor
  · rintro ⟨hnames, hposted, hfinite, hnonneg⟩
    obtain ⟨tier, htier⟩ := exists_tier?_iff.mpr hnames
    exact ⟨tier, hnames.isTruthy, htier, hposted, hfinite,
      (Double.lt_zero_eq_false_iff hfinite).mpr hnonneg⟩
  · rintro ⟨tier, -, htier, hposted, hfinite, hnonneg⟩
    exact ⟨exists_tier?_iff.mp ⟨tier, htier⟩, hposted, hfinite,
      (Double.lt_zero_eq_false_iff hfinite).mp hnonneg⟩

/-- Only integers that are too large are no amounts and no reasons to refuse. -/
theorem postedAmount_eq_error_iff {v : Value} {f : Fault} :
    v.postedAmount = .error f ↔ v.IsTooLarge ∧ f = .integerTooLarge := by
  constructor
  · intro h
    cases v with
    | number n =>
      have hamount := map_eq_error.mp h
      exact ⟨Value.amount_eq_error_iff.mp ⟨f, hamount⟩, Value.amount_fault hamount⟩
    | bool b => cases b <;> cases h
    | _ => cases h
  · rintro ⟨⟨n, rfl, hn⟩, rfl⟩
    simp only [Value.postedAmount, Value.amount, Number.toDouble?, hn]
    rfl

/-- An action that refuses a request in some state and leaves it as it is. -/
def Rebuffs (action : Action Service Response) (s : Service) : Prop :=
  ∃ response, action.result s = (.ok response, s) ∧ Refuses response

/-- An answer that only gives the reason refuses. -/
theorem rebuffs_because (reason : String) :
    Rebuffs (Action.ofExcept (Response.because 400 reason)) s :=
  ⟨_, rfl, rfl, _, _, rfl⟩

/-- The answer to a payload without a tier or an amount refuses it. -/
theorem rebuffs_missingFields : Rebuffs (Action.ofExcept missingFields) s :=
  ⟨_, rfl, rfl, _, _, rfl⟩

/-- A payload without a tier is refused. -/
theorem rebuffs_of_not_namesTier (hengine : s.engine = some engine) (h : ¬ NamesTier payload) :
    Rebuffs (calculate payload now) s := by
  have htier : tier? (payload.get "tier") = none :=
    Option.eq_none_iff_forall_ne_some.mpr fun tier htier => h (exists_tier?_iff.mp ⟨tier, htier⟩)
  unfold Rebuffs calculate
  rw [result_get_bind, hengine]
  simp only
  split
  · exact rebuffs_missingFields
  · exact rebuffs_missingFields
  · simp only [htier]
    exact rebuffs_because _

/-- A payload whose amount is none, or not finite, or negative, is refused. -/
theorem rebuffs_of_postedAmount (hengine : s.engine = some engine) (hnames : NamesTier payload)
    {amount? : Option Double} (hposted : (payload.get "total_spend").postedAmount = .ok amount?)
    (hbad : ∀ amount, ¬ Accepts payload amount) : Rebuffs (calculate payload now) s := by
  obtain ⟨tier, htier⟩ := exists_tier?_iff.mpr hnames
  unfold Rebuffs calculate
  rw [result_get_bind, hengine]
  simp only [hnames.isTruthy, htier]
  split
  · exact rebuffs_missingFields
  · exact rebuffs_missingFields
  · rw [hposted, result_ofExcept_ok_bind]
    cases amount? with
    | none => exact rebuffs_because _
    | some amount =>
      simp only
      split
      · exact rebuffs_because _
      · split
        · exact rebuffs_because _
        · rename_i hfinite hnonneg
          have hfinite : amount.isFinite = true := by simpa using hfinite
          have hnonneg : 0 ≤ amount.value := by simpa [Double.lt_zero_eq_false_iff hfinite] using hnonneg
          exact absurd ⟨hnames, hposted, hfinite, hnonneg⟩ (hbad amount)

/-- A payload whose amount is too large comes to nothing. -/
theorem result_calculate_of_isTooLarge (hengine : s.engine = some engine)
    (hnames : NamesTier payload) (hlarge : (payload.get "total_spend").IsTooLarge) :
    (calculate payload now).result s = (.error .integerTooLarge, s) := by
  obtain ⟨tier, htier⟩ := exists_tier?_iff.mpr hnames
  have hposted := postedAmount_eq_error_iff.mpr ⟨hlarge, rfl⟩
  unfold calculate
  rw [result_get_bind, hengine]
  simp only [hnames.isTruthy, htier]
  generalize payload.get "total_spend" = posted at hposted ⊢
  cases posted with
  | null => cases hposted
  | _ => simp [hposted]

/-- A payload that is not accepted is refused unless its amount is too large. -/
theorem rebuffs_of_not_accepts (hengine : s.engine = some engine)
    (hsmall : ¬ (NamesTier payload ∧ (payload.get "total_spend").IsTooLarge))
    (hbad : ∀ amount, ¬ Accepts payload amount) : Rebuffs (calculate payload now) s := by
  by_cases hnames : NamesTier payload
  · cases hposted : (payload.get "total_spend").postedAmount with
    | ok amount? => exact rebuffs_of_postedAmount hengine hnames hposted hbad
    | error f => exact absurd ⟨hnames, (postedAmount_eq_error_iff.mp hposted).1⟩ hsmall
  · exact rebuffs_of_not_namesTier hengine hnames

/-! ## Bookings without a discount -/

/-- A booking is made for its date, or for today, which does not leave the calendar. -/
theorem exists_onDate {i : Instant} (hnow : i.micros = now.utcMicros)
    (h : Books payload tier amount) (hengine : s.engine = some engine) :
    ∃ date, (calculate payload now).result s = (onDate engine tier amount date).result s ∧
      (date.LeavesCalendar ↔ (payload.get "booking_date").LeavesCalendar) := by
  cases hgiven : (payload.get "booking_date").isTruthy with
  | true => exact ⟨_, result_calculate_of_date h hengine hgiven, Iff.rfl⟩
  | false =>
    obtain ⟨today, htoday, hform⟩ := exists_today hnow
    obtain ⟨midnight, hmidnight, -⟩ := exists_midnight hform
    refine ⟨.text today,
      result_calculate_of_no_date htoday (isTruthy_of_isIso hform) hgiven h hengine, ?_⟩
    refine iff_of_false (Value.exists_instant_iff.mp ⟨_, hmidnight⟩) fun hleaves => ?_
    rw [hleaves.isTruthy] at hgiven
    cases hgiven

/-- What an engine without rules makes of a payload. -/
inductive Outcome (payload : Fields) : Except Fault Response → Prop
  /-- The amount is an integer that is too large. -/
  | tooLarge (hnames : NamesTier payload) (hlarge : (payload.get "total_spend").IsTooLarge) :
    Outcome payload (.error .integerTooLarge)
  /-- The booking is for a date that leaves the calendar. -/
  | outOfRange {amount : Double} (h : Accepts payload amount)
    (hleaves : (payload.get "booking_date").LeavesCalendar) :
    Outcome payload (.error .momentOutOfRange)
  /-- The payload is refused. -/
  | refused {response : Response}
    (hsmall : ¬ (NamesTier payload ∧ (payload.get "total_spend").IsTooLarge))
    (hbad : ∀ amount, ¬ Accepts payload amount) (h : Refuses response) :
    Outcome payload (.ok response)
  /-- The amount is charged as it is. -/
  | charged {amount : Double} {record : Value} {c : Calculation} (h : Accepts payload amount)
    (hstays : ¬ (payload.get "booking_date").LeavesCalendar) (hc : c.Undiscounted amount) :
    Outcome payload (.ok (calculated record c))

/-- Every payload comes to one of these, and the state is left as it is. -/
theorem exists_outcome {i : Instant} (hengine : s.engine = some engine)
    (hrules : engine.rules = []) (hfield : engine.amountField = Engine.defaultAmountField)
    (hnow : i.micros = now.utcMicros) :
    ∃ outcome, (calculate payload now).result s = (outcome, s) ∧ Outcome payload outcome := by
  by_cases haccepts : ∃ amount, Accepts payload amount
  · obtain ⟨amount, haccepts⟩ := haccepts
    obtain ⟨tier, hbooks⟩ := accepts_iff.mp haccepts
    obtain ⟨date, hresult, hleaves⟩ := exists_onDate hnow hbooks hengine
    by_cases hdate : date.LeavesCalendar
    · rw [hresult, result_onDate_of_leavesCalendar hdate]
      exact ⟨_, rfl, .outOfRange haccepts (hleaves.mp hdate)⟩
    · obtain ⟨i?, hi⟩ := Value.exists_instant_iff.mpr hdate
      have hday : date.dayName = .ok (i?.map fun i => i.weekday.name) :=
        map_eq_ok.mpr ⟨i?, hi, rfl⟩
      have hread := @recordAmount_bookingRecord tier amount date
        (i?.map fun i => i.weekday.name) haccepts.finite
      rw [← hfield] at hread
      obtain ⟨c, hc, hundiscounted⟩ :=
        Engine.exists_undiscounted hrules hread haccepts.finite haccepts.nonneg
      rw [hresult, result_onDate hday, hc]
      exact ⟨_, rfl, .charged haccepts (mt hleaves.mpr hdate) hundiscounted⟩
  · have hbad : ∀ amount, ¬ Accepts payload amount := not_exists.mp haccepts
    by_cases hlarge : NamesTier payload ∧ (payload.get "total_spend").IsTooLarge
    · exact ⟨_, result_calculate_of_isTooLarge hengine hlarge.1 hlarge.2,
        .tooLarge hlarge.1 hlarge.2⟩
    · obtain ⟨response, hresponse, hrefuses⟩ :=
        @rebuffs_of_not_accepts _ _ now _ hengine hlarge hbad
      exact ⟨_, hresponse, .refused hlarge hbad hrefuses⟩

/-- An amount that is accepted is not too large. -/
theorem Accepts.not_isTooLarge (h : Accepts payload amount) :
    ¬ (payload.get "total_spend").IsTooLarge := by
  intro hlarge
  cases h.posted.symm.trans (postedAmount_eq_error_iff.mpr ⟨hlarge, rfl⟩)

/-- A payload has one amount that is accepted. -/
theorem Accepts.unique {amount' : Double} (h : Accepts payload amount)
    (h' : Accepts payload amount') : amount = amount' :=
  Option.some.inj (Except.ok.inj (h.posted.symm.trans h'.posted))

/-- An engine without rules answers every payload except in two cases: a tier is named and the
integer that is posted is too large to be an amount, or an accepted booking is for a date that
leaves the calendar. The status is that of success exactly if the booking is accepted, and then
the amount is charged as it is; every other answer refuses and tells the reason. -/
theorem calculate_answers_iff (hengine : s.engine = some engine) (hrules : engine.rules = [])
    (hfield : engine.amountField = Engine.defaultAmountField) (hfirst : 2 ≤ now.date.year)
    (hlast : now.date.year ≤ 9998) :
    ((∃ response s', (calculate payload now).result s = (.ok response, s')) ↔
      ¬ (NamesTier payload ∧ (payload.get "total_spend").IsTooLarge) ∧
        ¬ ((∃ amount, Accepts payload amount) ∧ (payload.get "booking_date").LeavesCalendar)) ∧
    (NamesTier payload ∧ (payload.get "total_spend").IsTooLarge →
      (calculate payload now).result s = (.error .integerTooLarge, s)) ∧
    ((∃ amount, Accepts payload amount) ∧ (payload.get "booking_date").LeavesCalendar →
      (calculate payload now).result s = (.error .momentOutOfRange, s)) ∧
    ∀ {response s'}, (calculate payload now).result s = (.ok response, s') → s' = s ∧
      (response.status = 200 ↔ ∃ amount, Accepts payload amount) ∧
      (response.status ≠ 200 → Refuses response) ∧
      ∀ amount, Accepts payload amount →
        ∃ record c, response = calculated record c ∧ c.Undiscounted amount := by
  obtain ⟨i, hnow⟩ := Moment.exists_instant_of_year hfirst hlast
  obtain ⟨outcome, hresult, houtcome⟩ :=
    @exists_outcome _ payload _ _ _ hengine hrules hfield hnow
  rw [hresult]
  cases houtcome with
  | tooLarge hnames hlarge =>
    have hnone : ¬ ∃ amount, Accepts payload amount := fun ⟨_, h⟩ => h.not_isTooLarge hlarge
    refine ⟨iff_of_false (by simp) fun h => h.1 ⟨hnames, hlarge⟩, fun _ => rfl,
      fun h => absurd h.1 hnone, fun h => ?_⟩
    cases h
  | outOfRange h hleaves =>
    refine ⟨iff_of_false (by simp) fun h' => h'.2 ⟨⟨_, h⟩, hleaves⟩,
      fun h' => absurd h'.2 h.not_isTooLarge, fun _ => rfl, fun h => ?_⟩
    cases h
  | refused hsmall hbad hrefuses =>
    have hnone : ¬ ∃ amount, Accepts payload amount := not_exists.mpr hbad
    refine ⟨iff_of_true ⟨_, _, rfl⟩ ⟨hsmall, fun h => hnone h.1⟩, fun h => absurd h hsmall,
      fun h => absurd h.1 hnone, fun h => ?_⟩
    cases h
    have hstatus := hrefuses.status
    exact ⟨rfl, iff_of_false (by omega) hnone, fun _ => hrefuses,
      fun amount h => absurd h (hbad amount)⟩
  | charged h hstays hc =>
    refine ⟨iff_of_true ⟨_, _, rfl⟩ ⟨fun h' => h.not_isTooLarge h'.2, fun h' => hstays h'.2⟩,
      fun h' => absurd h'.2 h.not_isTooLarge, fun h' => absurd h'.2 hstays, fun h' => ?_⟩
    cases h'
    refine ⟨rfl, iff_of_true rfl ⟨_, h⟩, fun hne => absurd rfl hne, fun amount' h' => ?_⟩
    rw [← h.unique h']
    exact ⟨_, _, rfl, hc⟩

/-- A payload that books a tier with some integer. -/
def integerPayload (tier : String) (n : Int) : Fields :=
  [("tier", .text tier), ("total_spend", .int n)]

/-- A hundred is charged for a Monday, and a tier that there is not is refused. -/
theorem calculate_answers_iff_hundred :
    (∃ response record c,
      (calculate (mondayPayload hundred) Value.leapEvening).result (inUse []) =
        (.ok response, inUse []) ∧
      response.status = 200 ∧ response = calculated record c ∧ c.Undiscounted hundred) ∧
    ∃ response,
      (calculate (integerPayload "bronze" 100) Value.leapEvening).result (inUse []) =
        (.ok response, inUse []) ∧ Refuses response := by
  have huse : (inUse []).engine = some ⟨Engine.defaultAmountField, [], .shared⟩ := rfl
  constructor
  · have haccepts : Accepts (mondayPayload hundred) hundred := accepts_iff.mpr ⟨_, books_hundred⟩
    have hmonday : ¬ ((mondayPayload hundred).get "booking_date").LeavesCalendar := by
      rw [← Value.exists_instant_iff]
      exact ⟨_, rfl⟩
    obtain ⟨hreturns, -, -, hspec⟩ := @calculate_answers_iff _ (mondayPayload hundred)
      Value.leapEvening _ huse rfl rfl (by decide) (by decide)
    obtain ⟨response, s', hresponse⟩ :=
      hreturns.mpr ⟨fun h => haccepts.not_isTooLarge h.2, fun h => hmonday h.2⟩
    obtain ⟨rfl, hstatus, -, hcharged⟩ := hspec hresponse
    obtain ⟨record, c, hc, hundiscounted⟩ := hcharged _ haccepts
    exact ⟨response, record, c, hresponse, hstatus.mpr ⟨_, haccepts⟩, hc, hundiscounted⟩
  · have hnone : ¬ NamesTier (integerPayload "bronze" 100) := by
      rw [← exists_tier?_iff]
      rintro ⟨tier, ⟨⟩⟩
    have hrejects : ¬ ∃ amount, Accepts (integerPayload "bronze" 100) amount :=
      fun ⟨_, h⟩ => hnone h.tier
    obtain ⟨hreturns, -, -, hspec⟩ := @calculate_answers_iff _ (integerPayload "bronze" 100)
      Value.leapEvening _ huse rfl rfl (by decide) (by decide)
    obtain ⟨response, s', hresponse⟩ :=
      hreturns.mpr ⟨fun h => hnone h.1, fun h => hrejects h.1⟩
    obtain ⟨rfl, hstatus, hrefuses, -⟩ := hspec hresponse
    exact ⟨response, hresponse, hrefuses fun h => hrejects (hstatus.mp h)⟩

/-- Ten to the power 400 is no amount, and yet it is not refused, and neither is a booking for the
first midnight of the calendar by a clock ahead of UTC. -/
theorem not_answered_powerOfTen :
    (calculate (integerPayload "gold" (10 ^ 400)) Value.leapEvening).result (inUse []) =
      (.error .integerTooLarge, inUse []) ∧
    Accepts (firstPayload hundred) hundred ∧
    (calculate (firstPayload hundred) Value.leapEvening).result (inUse []) =
      (.error .momentOutOfRange, inUse []) := by
  have hlarge : Double.ofInt? (10 ^ 400) = none := by decide +kernel
  have hnames : NamesTier (integerPayload "gold" (10 ^ 400)) :=
    ⟨"gold", "gold", rfl, by decide, by decide⟩
  have hbooks := books_firstPayload
  refine ⟨result_calculate_of_isTooLarge rfl hnames ⟨_, rfl, hlarge⟩, accepts_iff.mpr ⟨_, hbooks⟩, ?_⟩
  rw [result_calculate_of_date hbooks rfl (by decide)]
  exact result_onDate_of_leavesCalendar leavesCalendar_firstMorning

end Loyalty.Service
