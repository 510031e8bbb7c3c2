import Loyalty.Proofs.Engine.Charges
import Loyalty.Proofs.Rule.Problems
import Loyalty.Proofs.Service.Requests

/-!
# What a booking is charged

A booking is answered with success only by a calculation of the engine in use for the amount
that was posted, which is finite and not negative. What remains of an amount up to ten to the
twelfth is then negative only if the total of the discounts is above a hundred, or by a cent
where it is a hundred but for the last digits and the amount is no number of cents.
-/

namespace Loyalty.Service

open Loyalty.Action

/-- A payload that books a tier with an amount. -/
structure Books (payload : Fields) (tier : String) (amount : Double) : Prop where
  given : (payload.get "tier").isTruthy = true
  tier : tier? (payload.get "tier") = some tier
  posted : (payload.get "total_spend").postedAmount = .ok (some amount)
  finite : amount.isFinite = true
  nonneg : amount.lt (.zero false) = false

variable {engine : Engine} {payload : Fields} {tier : String} {amount : Double} {now : Moment}
  {s s' : Service} {response : Response}

/-- Whether a payload books depends only on the tier and the amount that it posts. -/
theorem Books.congr {payload' : Fields} (h : Books payload tier amount)
    (htier : payload'.get "tier" = payload.get "tier")
    (hposted : payload'.get "total_spend" = payload.get "total_spend") :
    Books payload' tier amount := by
  obtain ⟨hgiven, hnamed, hamount, hfinite, hnonneg⟩ := h
  rw [← htier] at hgiven hnamed
  rw [← hposted] at hamount
  exact ⟨hgiven, hnamed, hamount, hfinite, hnonneg⟩

/-- A payload that books is passed on to the engine in use. -/
theorem result_calculate (h : Books payload tier amount) (hengine : s.engine = some engine) :
    (calculate payload now).result s =
      (calculateBooking engine tier amount (payload.get "booking_date") now).result s := by
  obtain ⟨hgiven, htier, hposted, hfinite, hnonneg⟩ := h
  unfold calculate
  rw [result_get_bind, hengine]
  simp only [hgiven, htier]
  generalize payload.get "total_spend" = posted at hposted ⊢
  cases posted with
  | null => cases hposted
  | _ => simp [hposted, hfinite, hnonneg]

/-- Only a payload that books is answered with success. -/
theorem books_of_calculate (h : (calculate payload now).result s = (.ok response, s'))
    (hstatus : response.status = 200) :
    ∃ engine tier amount, s.engine = some engine ∧ Books payload tier amount := by
  have hrefused : ∀ {status body} {s₁ : Service}, status ≠ 200 →
      (Action.ofExcept (Response.refusal status body)).result s₁ ≠ (.ok response, s') := by
    intro status body s₁ hne h
    have hsame := status_of_refusal (congrArg Prod.fst h)
    omega
  unfold calculate at h
  rw [result_get_bind] at h
  cases hengine : s.engine with
  | none =>
    rw [hengine] at h
    exact absurd h (hrefused (by decide))
  | some engine =>
    rw [hengine] at h
    simp only at h
    split at h
    · exact absurd h (hrefused (by decide))
    · exact absurd h (hrefused (by decide))
    · rename_i hgiven _
      split at h
      · exact absurd h (hrefused (by decide))
      · rename_i tier htier
        obtain ⟨amount, s₁, hamount, h⟩ := result_bind_eq_ok.mp h
        split at h
        · exact absurd h (hrefused (by decide))
        · rename_i amount
          split at h
          · exact absurd h (hrefused (by decide))
          · split at h
            · exact absurd h (hrefused (by decide))
            · rename_i hfinite hnonneg
              exact ⟨engine, tier, amount, rfl, hgiven, htier, congrArg Prod.fst hamount,
                by simpa using hfinite, by simpa using hnonneg⟩

/-- What a booking comes to on some date. -/
def onDate (engine : Engine) (tier : String) (amount : Double) (date : Value) :
    Action Service Response := do
  let day ← Action.ofExcept date.dayName
  let c ← Action.lift (engine.apply (bookingRecord tier amount date day))
  return calculated (bookingRecord tier amount date day) c

/-- A date that is given is not replaced. -/
theorem result_calculateBooking {date : Value} (hgiven : date.isTruthy = true) :
    (calculateBooking engine tier amount date now).result s =
      (onDate engine tier amount date).result s := by
  unfold calculateBooking
  simp only
  rw [if_pos hgiven]
  exact result_bind_of_ok (result_pure _ _) _

/-- A booking on a date whose day can be told is answered by the calculation for its record. -/
theorem result_onDate {date : Value} {day : Option String} (hday : date.dayName = .ok day) :
    (onDate engine tier amount date).result s =
      ((engine.apply (bookingRecord tier amount date day)).outcome.map
        (calculated (bookingRecord tier amount date day)), s) := by
  rw [onDate, hday, result_ofExcept_ok_bind]
  cases hc : (engine.apply (bookingRecord tier amount date day)).outcome with
  | ok c => exact result_bind_of_ok (congrArg (Prod.mk · s) hc) _
  | error f => exact result_bind_of_error (congrArg (Prod.mk · s) hc) _

/-- A booking with a good tier and amount is answered by a calculation. -/
private theorem calculated_of_calculateBooking {bookingDate : Value}
    (h : (calculateBooking engine tier amount bookingDate now).result s = (.ok response, s')) :
    ∃ date day c, (engine.apply (bookingRecord tier amount date day)).outcome = .ok c ∧
      response = calculated (bookingRecord tier amount date day) c := by
  have hdate : ∃ date s₁, (onDate engine tier amount date).result s₁ = (.ok response, s') := by
    unfold calculateBooking at h
    simp only at h
    split at h
    · obtain ⟨date, s₁, -, h⟩ := result_bind_eq_ok.mp h
      exact ⟨date, s₁, h⟩
    · obtain ⟨date, s₁, -, h⟩ := result_bind_eq_ok.mp h
      exact ⟨date, s₁, h⟩
  obtain ⟨date, s₁, h⟩ := hdate
  obtain ⟨day, s₂, -, h⟩ := result_bind_eq_ok.mp h
  obtain ⟨c, s₃, hc, h⟩ := result_bind_eq_ok.mp h
  exact ⟨date, day, c, congrArg Prod.fst hc, (Except.ok.inj (congrArg Prod.fst h)).symm⟩

/-- The amount of the record of a booking is the one that was posted. -/
theorem recordAmount_bookingRecord (date : Value) (day : Option String)
    (hfinite : amount.isFinite = true) :
    recordAmount Engine.defaultAmountField (bookingRecord tier amount date day) = .ok amount := by
  have hfield : Engine.defaultAmountField.resolve (bookingRecord tier amount date day) .null =
      .ok (.double amount) := rfl
  refine bind_eq_ok.mpr ⟨_, hfield, bind_eq_ok.mpr ⟨amount, rfl, ?_⟩⟩
  rw [if_pos hfinite]
  rfl

/-- A calculation that is answered with success, by an engine without negative discounts that
reads the amount that is posted. If the total is not above a hundred, no more than a cent too
much is taken of an amount up to ten to the twelfth, and nothing too much of whole cents or
by a total that is not a hundred but for the last digits. -/
theorem final_of_calculate (hengine : s.engine = some engine)
    (hfield : engine.amountField = Engine.defaultAmountField)
    (hdiscounts : ∀ r ∈ engine.rules.filterMap Rule.ofValue?, 0 ≤ r.effectiveDiscount.value)
    (h : (calculate payload now).result s = (.ok response, s')) (hstatus : response.status = 200) :
    ∃ record c, response = calculated record c ∧ (engine.apply record).outcome = .ok c ∧
      (payload.get "total_spend").postedAmount = .ok (some c.amount) ∧
      (c.amount.value ≤ 10 ^ 12 → c.total.Finite → c.total.value ≤ 100 →
        c.final.isFinite = true ∧
        (0 ≤ c.final.value ∨ c.final.eq (.ofRatio true 1 100) = true) ∧
        ((∃ n, c.amount.IsCents n) ∨ c.total.value ≤ 100 - 1 / 10 ^ 12 → 0 ≤ c.final.value)) := by
  obtain ⟨engine', tier, amount, hengine', hbooks⟩ := books_of_calculate h hstatus
  cases hengine.symm.trans hengine'
  rw [result_calculate hbooks hengine] at h
  obtain ⟨date, day, c, hc, hresponse⟩ := calculated_of_calculateBooking h
  have hamount : c.amount = amount := by
    obtain ⟨_, _, _, hread, -⟩ := Engine.apply_eq_ok_iff.mp hc
    rw [hfield, recordAmount_bookingRecord date day hbooks.finite] at hread
    exact (Except.ok.inj hread).symm
  have hnonneg : 0 ≤ c.amount.value := by
    have hzero : (Double.zero false).isFinite = true := rfl
    have hlt := Double.lt_iff_of_isFinite hbooks.finite hzero
    rw [hbooks.nonneg, Double.value_zero] at hlt
    rw [hamount]
    exact not_lt.mp fun hneg => Bool.false_ne_true (hlt.mpr hneg)
  refine ⟨_, c, hresponse, hc, hamount ▸ hbooks.posted, fun hle hfinite hhigh => ?_⟩
  exact (Engine.charges_of_apply hc hnonneg hdiscounts hfinite hhigh).final_spec hle hc

/-- A payload that books gold with some amount for a Monday. -/
def mondayPayload (amount : Double) : Fields :=
  [("tier", .text "gold"), ("total_spend", .double amount), ("booking_date", .text "2025-11-03")]

/-- The record of that booking. -/
def mondayBooking (amount : Double) : Value :=
  bookingRecord "gold" amount (.text "2025-11-03") (some "Monday")

/-- A service that has some rules in use. -/
def inUse (rules : List Rule) : Service := holding [] (rules.map fun r => .object r.fields)

/-- A booking for a Monday is answered by the calculation for its record. -/
private theorem result_calculate_monday {rules : List Rule} {c : Calculation}
    (hbooks : Books (mondayPayload amount) "gold" amount)
    (hc : (Engine.apply ⟨Engine.defaultAmountField, rules.map fun r => .object r.fields, .shared⟩
      (mondayBooking amount)).outcome = .ok c) :
    (calculate (mondayPayload amount) now).result (inUse rules) =
      (.ok (calculated (mondayBooking amount) c), inUse rules) := by
  have hdate : (mondayPayload amount).get "booking_date" = .text "2025-11-03" := rfl
  have hgiven : (Value.text "2025-11-03").isTruthy = true := by decide +kernel
  have hday : (Value.text "2025-11-03").dayName = .ok (some "Monday") := by rfl
  rw [result_calculate hbooks rfl, hdate, result_calculateBooking hgiven, result_onDate hday]
  exact congrArg (fun r => (Except.map (calculated (mondayBooking amount)) r, inUse rules)) hc

/-- The rules in use are read back from what is stored of them. -/
private theorem filterMap_ofValue?_fields (rules : List Rule) :
    (rules.map fun r => Value.object r.fields).filterMap Rule.ofValue? = rules := by
  rw [List.filterMap_map]
  exact List.filterMap_some

/-- What a booking for a Monday comes to is worked out from the total of its rules. -/
private theorem exists_calculate_monday {rules : List Rule} (total : Number)
    (discount final : Double) (hbooks : Books (mondayPayload amount) "gold" amount)
    (htaken : byPriority rules = .ok rules)
    (htotal : (Tally.empty.addAll .shared (mondayBooking amount) rules).outcome.toOption.map
      Tally.total = some total)
    (hdiscount : (discountAmount amount total).toOption = some discount)
    (hfinal : (Value.double (amount.sub discount)).round2.toOption = some final) (now : Moment) :
    ∃ c, (calculate (mondayPayload amount) now).result (inUse rules) =
      (.ok (calculated (mondayBooking amount) c), inUse rules) ∧ c.final = final := by
  obtain ⟨t, ht, rfl⟩ := Option.map_eq_some_iff.mp htotal
  refine ⟨⟨amount, t.applied, t.total, discount, final, t.message⟩,
    result_calculate_monday hbooks (Engine.apply_eq_ok_iff.mpr ⟨rules, t, ?_,
      recordAmount_bookingRecord _ _ hbooks.finite, eq_ok_of_toOption ht,
      eq_ok_of_toOption hdiscount, eq_ok_of_toOption hfinal, rfl, rfl, rfl⟩), rfl⟩
  rw [filterMap_ofValue?_fields, htaken]

/-- A rule that takes some percents for gold. -/
def percentRule (id : String) (priority percent : Int) : Rule :=
  rivalRule (.text id) (.int priority) (.int percent)

/-- The discount of such a rule is counted as it stands. -/
private theorem value_effectiveDiscount_percentRule {id : String} {priority percent : Int}
    (h : percent.natAbs < 9007199254740992) :
    (percentRule id priority percent).effectiveDiscount.value = percent := by
  have hdiscount : (percentRule id priority percent).discount = .ok (.int percent) :=
    Value.finiteNumberOr_int h
  rw [← Number.value_int, Value.finiteNumberOr_eq hdiscount]
  rfl

/-- One such rule is taken by itself. -/
private theorem byPriority_percentRule {id : String} {priority percent : Int}
    (h : priority.natAbs < 9007199254740992) :
    byPriority [percentRule id priority percent] = .ok [percentRule id priority percent] :=
  byPriority_singleton (Value.finiteNumberOr_int h)

/-- A rule that takes five percent for gold. -/
def fivePercent : List Rule := [percentRule "FIVE" 1 5]

/-- A hundred. -/
def hundred : Double := .ofRatio false 100 1

/-- A hundred can be booked. -/
theorem books_hundred : Books (mondayPayload hundred) "gold" hundred :=
  ⟨rfl, by decide +kernel, rfl, by decide +kernel, by decide +kernel⟩

/-- The time at which the bookings are made, by the clock of the service. -/
def bookingTime : Moment := (inUse []).now.moment

/-- Five percent of a hundred are no more than a hundred. -/
theorem final_of_calculate_fivePercent : ∃ response,
    (∀ r ∈ fivePercent, 0 ≤ r.effectiveDiscount.value) ∧
    (calculate (mondayPayload hundred) bookingTime).result (inUse fivePercent) =
      (.ok response, inUse fivePercent) ∧ response.status = 200 ∧
    ∃ record c, response = calculated record c ∧
      (c.amount.value ≤ 10 ^ 12 → c.total.Finite → c.total.value ≤ 100 →
        c.final.isFinite = true ∧
        (0 ≤ c.final.value ∨ c.final.eq (.ofRatio true 1 100) = true) ∧
        ((∃ n, c.amount.IsCents n) ∨ c.total.value ≤ 100 - 1 / 10 ^ 12 → 0 ≤ c.final.value)) := by
  have hfive : (percentRule "FIVE" 1 5).effectiveDiscount.value = 5 := by
    rw [value_effectiveDiscount_percentRule (by decide)]
    norm_num
  have hdiscounts : ∀ r ∈ fivePercent, 0 ≤ r.effectiveDiscount.value := by
    rw [fivePercent, List.forall_mem_singleton, hfive]
    norm_num
  have htaken : byPriority fivePercent = .ok fivePercent :=
    byPriority_percentRule (by decide)
  obtain ⟨c, hc, -⟩ := exists_calculate_monday (.int 5) (.ofRatio false 5 1) (.ofRatio false 95 1)
    books_hundred htaken (by decide +kernel) (by decide +kernel) (by decide +kernel) bookingTime
  have hengine : (inUse fivePercent).engine =
      some ⟨Engine.defaultAmountField, fivePercent.map fun r => .object r.fields, .shared⟩ := rfl
  obtain ⟨record, c', hresponse, -, -, hspec⟩ :=
    final_of_calculate hengine rfl (by rwa [filterMap_ofValue?_fields]) hc rfl
  exact ⟨_, hdiscounts, hc, rfl, record, c', hresponse, hspec⟩

/-- Two rules that take sixty percent for gold each. -/
def stacked : List Rule := [percentRule "FIRST" 1 60, percentRule "SECOND" 2 60]

/-- A rule that takes a hundred percent for gold. -/
def wholeDiscount : List Rule := [percentRule "ALL" 1 100]

/-- Half a cent. -/
def halfCent : Double := .ofRatio false 5 1000

/-- Rules with the discounts of the documented range are accepted, and yet they take more than
the amount: two of sixty percent take a hundred and twenty of a hundred, and one of a hundred
percent takes a cent of half a cent. -/
theorem not_final_nonneg :
    (AllValid (stacked.map fun r => .object r.fields) ∧
      (∀ r ∈ stacked, 0 ≤ r.effectiveDiscount.value ∧ r.effectiveDiscount.value ≤ 100) ∧
      ∃ c, (calculate (mondayPayload hundred) bookingTime).result (inUse stacked) =
        (.ok (calculated (mondayBooking hundred) c), inUse stacked) ∧
        c.final = .ofRatio true 20 1 ∧ c.final.lt (.zero false) = true) ∧
    AllValid (wholeDiscount.map fun r => .object r.fields) ∧
      (∀ r ∈ wholeDiscount, 0 ≤ r.effectiveDiscount.value ∧ r.effectiveDiscount.value ≤ 100) ∧
      ∃ c, (calculate (mondayPayload halfCent) bookingTime).result (inUse wholeDiscount) =
        (.ok (calculated (mondayBooking halfCent) c), inUse wholeDiscount) ∧
        c.final = .ofRatio true 1 100 ∧ c.final.lt (.zero false) = true := by
  have hrange : ∀ {id : String} {priority percent : Int}, 0 ≤ percent ∧ percent ≤ 100 →
      0 ≤ (percentRule id priority percent).effectiveDiscount.value ∧
        (percentRule id priority percent).effectiveDiscount.value ≤ 100 := by
    intro id priority percent h
    rw [value_effectiveDiscount_percentRule (by omega)]
    exact_mod_cast h
  constructor
  · have htaken : byPriority stacked = .ok stacked := by
      obtain ⟨keyed, hkeyed⟩ := exists_ok_of_isOk (r := withPriorities stacked) (by decide +kernel)
      have hsorted : (percentRule "FIRST" 1 60).mayPrecede (percentRule "SECOND" 2 60) = true := by
        decide +kernel
      rw [byPriority_eq hkeyed]
      simp [stacked, List.mergeSort, hsorted]
    obtain ⟨c, hc, hfinal⟩ := exists_calculate_monday (.int 120) (.ofRatio false 120 1)
      (.ofRatio true 20 1) books_hundred htaken (by decide +kernel) (by decide +kernel)
      (by decide +kernel) bookingTime
    refine ⟨?_, ?_, c, hc, hfinal, ?_⟩
    · rw [AllValid, stacked, List.map_cons, List.forall_mem_cons, List.map_singleton,
        List.forall_mem_singleton]
      exact ⟨rfl, rfl⟩
    · rw [stacked, List.forall_mem_cons, List.forall_mem_singleton]
      exact ⟨hrange (by decide), hrange (by decide)⟩
    · rw [hfinal]
      decide +kernel
  · have hbooks : Books (mondayPayload halfCent) "gold" halfCent :=
      ⟨rfl, by decide +kernel, rfl, by decide +kernel, by decide +kernel⟩
    have htaken : byPriority wholeDiscount = .ok wholeDiscount := byPriority_percentRule (by decide)
    obtain ⟨c, hc, hfinal⟩ := exists_calculate_monday (.int 100) (.ofRatio false 1 100)
      (.ofRatio true 1 100) hbooks htaken (by decide +kernel) (by decide +kernel)
      (by decide +kernel) bookingTime
    refine ⟨?_, ?_, c, hc, hfinal, ?_⟩
    · rw [AllValid, wholeDiscount, List.map_singleton, List.forall_mem_singleton]
      rfl
    · rw [wholeDiscount, List.forall_mem_singleton]
      exact hrange (by decide)
    · rw [hfinal]
      decide +kernel

end Loyalty.Service
