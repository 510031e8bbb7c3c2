import Loyalty.Proofs.Engine.Resilience
import Loyalty.Proofs.Number.Settlement

/-!
# What an engine charges

Once the rules of an engine come to a total between zero and a hundred, the only thing
that can fail is the product of amount and total, and it fails where it is beyond the
doubles although the percentage is not. Otherwise the discount is not negative, neither is
what remains unless the total is a hundred but for the last digits, and no cent of a whole
number of cents gets lost.
-/

namespace Loyalty

namespace Number

/-- Integers with up to 53 binary digits are among the doubles. -/
theorem toDouble?_int {i : Int} (h : i.natAbs < 9007199254740992) :
    (Number.int i).toDouble? = some (Double.nearestInt i) := by
  rw [toDouble?]
  exact Double.ofInt?_eq_some_iff.mpr ⟨(Double.nearestInt_of_lt h).1, rfl⟩

/-- A number between zero and a hundred is itself among the doubles. -/
theorem exists_toDouble?_of_between {n : Number} (hfinite : n.Finite) (hlow : 0 ≤ n.value)
    (hhigh : n.value ≤ 100) :
    ∃ x, n.toDouble? = some x ∧ x.isFinite = true ∧ x.value = n.value := by
  cases n with
  | int i =>
    rw [value_int] at hlow hhigh
    have hlow : 0 ≤ i := by exact_mod_cast hlow
    have hhigh : i ≤ 100 := by exact_mod_cast hhigh
    have hsmall : i.natAbs < 9007199254740992 := by omega
    obtain ⟨hnearest, hvalue⟩ := Double.nearestInt_of_lt hsmall
    exact ⟨_, toDouble?_int hsmall, hnearest, by rw [hvalue, value_int]⟩
  | double x => exact ⟨x, rfl, hfinite, rfl⟩

/-- A sum is one of integers, or one of the doubles in place of two numbers. -/
private theorem add?_cases {a b total : Number} (h : a.add? b = some total) :
    (∃ i j, a = .int i ∧ b = .int j ∧ total = .int (i + j)) ∨
      ∃ x y, a.toDouble? = some x ∧ b.toDouble? = some y ∧ total = .double (x.add y) := by
  have hdoubles : (do
      let x ← a.toDouble?
      let y ← b.toDouble?
      return Number.double (x.add y)) = some total →
      ∃ x y, a.toDouble? = some x ∧ b.toDouble? = some y ∧ total = .double (x.add y) := by
    intro h
    obtain ⟨x, hx, h⟩ := Option.bind_eq_some_iff.mp h
    obtain ⟨y, hy, h⟩ := Option.bind_eq_some_iff.mp h
    exact ⟨x, y, hx, hy, (Option.some.inj h).symm⟩
  cases a with
  | int i =>
    cases b with
    | int j => exact .inl ⟨i, j, rfl, rfl, (Option.some.inj h).symm⟩
    | double y => exact .inr (hdoubles h)
  | double x => exact .inr (hdoubles h)

/-- A number with a finite double in its place is finite. -/
private theorem finite_of_toDouble? {n : Number} {x : Double} (h : n.toDouble? = some x)
    (hx : x.isFinite = true) : n.Finite := by
  cases n with
  | int i => trivial
  | double y => rwa [Option.some.inj h]

/-- A finite sum has finite parts, and is not negative if they are not. -/
theorem add?_spec {a b total : Number} (h : a.add? b = some total) (hfinite : total.Finite) :
    a.Finite ∧ (0 ≤ a.value → 0 ≤ b.value → 0 ≤ total.value) := by
  rcases add?_cases h with ⟨i, j, rfl, rfl, rfl⟩ | ⟨x, y, hx, hy, rfl⟩
  · refine ⟨trivial, fun ha hb => ?_⟩
    rw [value_int] at ha hb ⊢
    push_cast
    linarith
  · obtain ⟨hx_finite, hy_finite⟩ := Double.isFinite_of_add hfinite
    have ha := finite_of_toDouble? hx hx_finite
    have hb := finite_of_toDouble? hy hy_finite
    refine ⟨ha, fun ha_nonneg hb_nonneg => ?_⟩
    have hx_nonneg := (isNearest_of_toDouble? hx ha).2.value_nonneg hx_finite ha_nonneg
    have hy_nonneg := (isNearest_of_toDouble? hy hb).2.value_nonneg hy_finite hb_nonneg
    exact (Double.isNearest_add hx_finite hy_finite).value_nonneg hfinite (by linarith)

/-- Numbers that are not negative have no negative sum. -/
theorem foldlM_add?_spec {start total : Number} {parts : List Number}
    (hparts : ∀ n ∈ parts, 0 ≤ n.value) (h : parts.foldlM add? start = some total)
    (hfinite : total.Finite) : start.Finite ∧ (0 ≤ start.value → 0 ≤ total.value) := by
  induction parts generalizing start with
  | nil =>
    have hsame : start = total := Option.some.inj h
    subst hsame
    exact ⟨hfinite, id⟩
  | cons n parts ih =>
    obtain ⟨hn, hrest⟩ := List.forall_mem_cons.mp hparts
    rw [List.foldlM_cons] at h
    obtain ⟨sum, hsum, h⟩ := Option.bind_eq_some_iff.mp h
    obtain ⟨hsum_finite, htotal⟩ := ih hrest h
    obtain ⟨hstart, hstep⟩ := add?_spec hsum hsum_finite
    exact ⟨hstart, fun hnonneg => htotal (hstep hnonneg hn)⟩

end Number

/-- Whole numbers with up to 53 binary digits are read as they are. -/
theorem Value.finiteNumberOr_int {default : Number} {i : Int} (h : i.natAbs < 9007199254740992) :
    (Value.int i).finiteNumberOr default = .ok (.int i) := by
  obtain ⟨hnearest, -⟩ := Double.nearestInt_of_lt h
  simp only [Value.int, Value.finiteNumberOr, Number.isFinite, Number.toDouble?_int h, hnearest,
    Except.map, if_true]

/-- The amount of a record is finite. -/
theorem isFinite_recordAmount {path record : Value} {amount : Double}
    (h : recordAmount path record = .ok amount) : amount.isFinite = true := by
  obtain ⟨v, -, h⟩ := bind_eq_ok.mp h
  obtain ⟨x, -, h⟩ := bind_eq_ok.mp h
  by_cases hx : x.isFinite = true
  · rw [if_pos hx] at h
    rwa [← Except.ok.inj h]
  · rw [if_neg hx] at h
    rw [← Except.ok.inj h]
    rfl

namespace Engine

/-- The rules of an engine can be taken for a record, and the discounts of those that are
applied have a total. -/
structure Totals (engine : Engine) (record : Value) (total : Number) : Prop where
  priorities : ∀ r ∈ engine.taken, ¬ (Fields.get r.fields "priority").IsTooLarge
  conditions : ∀ r ∈ engine.taken, ∀ node, Condition.Visits .distinct record r.condition node →
    ¬ node.Breaks record
  discounts : ∀ r ∈ selected engine.nan record engine.taken,
    ¬ (r.action.get "discountPercent").IsTooLarge
  sum : ((selected engine.nan record engine.taken).map Rule.effectiveDiscount).foldlM Number.add?
    (.int 0) = some total

/-- A record that an engine charges: its amount is not negative, and the total of the
discounts is between zero and a hundred. -/
structure Charges (engine : Engine) (record : Value) (amount : Double) (total : Number) :
    Prop where
  read : recordAmount engine.amountField record = .ok amount
  nonneg : 0 ≤ amount.value
  totals : engine.Totals record total
  finite : total.Finite
  low : 0 ≤ total.value
  high : total.value ≤ 100

variable {engine : Engine} {record : Value} {amount percent : Double} {total : Number}

/-- There is a total exactly if the run over the rules returns, and it is that of the
run. -/
theorem totals_iff : engine.Totals record total ↔
    ∃ rules t, byPriority (engine.rules.filterMap Rule.ofValue?) = .ok rules ∧
      (Tally.empty.addAll engine.nan record rules).outcome = .ok t ∧ t.total = total := by
  constructor
  · rintro ⟨hpriorities, hconditions, hdiscounts, hsum⟩
    obtain ⟨t, ht⟩ := (Tally.exists_addAll_iff Tally.covers_empty).mpr
      ⟨fun r hr => Condition.exists_evaluate_iff.mpr (hconditions r hr), hdiscounts, total, hsum⟩
    have hsame := (Tally.addAll_selected Tally.covers_empty ht).2
    exact ⟨engine.taken, t, byPriority_eq_ok_iff.mpr ⟨hpriorities, rfl⟩, ht,
      Option.some.inj (hsame.symm.trans hsum)⟩
  · rintro ⟨rules, t, hrules, ht, rfl⟩
    obtain ⟨hpriorities, rfl⟩ := byPriority_eq_ok_iff.mp hrules
    obtain ⟨hconditions, hdiscounts, -⟩ := (Tally.exists_addAll_iff Tally.covers_empty).mp ⟨t, ht⟩
    exact ⟨hpriorities, fun r hr => Condition.exists_evaluate_iff.mp (hconditions r hr), hdiscounts,
      (Tally.addAll_selected Tally.covers_empty ht).2⟩

/-- A calculation that returns has formed a finite product. -/
private theorem isFinite_mul_of_apply {c : Calculation} (h : engine.Charges record amount total)
    (hpercent : total.toDouble? = some percent) (hfinite : percent.isFinite = true)
    (hc : (engine.apply record).outcome = .ok c) : (amount.mul percent).isFinite = true := by
  obtain ⟨rules, t, hrules, ht, htotal⟩ := totals_iff.mp h.totals
  obtain ⟨rules', t', hrules', hamount, ht', hdiscount, -⟩ := apply_eq_ok_iff.mp hc
  cases hrules.symm.trans hrules'
  cases h.read.symm.trans hamount
  cases ht.symm.trans ht'
  simp only [discountAmount, htotal, hpercent] at hdiscount
  by_contra hinfinite
  obtain ⟨negative, hinfinity⟩ :=
    (Double.isNearest_mul (isFinite_recordAmount h.read) hfinite).eq_infinity hinfinite
  rw [hinfinity, Double.divNat, Double.round2_infinity] at hdiscount
  cases hdiscount

/-- What is charged has a percentage among the doubles. -/
private theorem Charges.exists_percent (h : engine.Charges record amount total) :
    ∃ percent, total.toDouble? = some percent ∧ percent.isFinite = true ∧
      percent.value = total.value :=
  Number.exists_toDouble?_of_between h.finite h.low h.high

/-- A record that is charged has its amount divided if that has a product with the
percentage. -/
private theorem Charges.divisible (h : engine.Charges record amount total)
    (hfinite : percent.isFinite = true) (hvalue : percent.value = total.value)
    (hproduct : (amount.mul percent).isFinite = true) : amount.Divisible percent :=
  ⟨isFinite_recordAmount h.read, h.nonneg, hfinite, hvalue ▸ h.low, hvalue ▸ h.high, hproduct⟩

/-- A calculation settles the amount if it has a product with the percentage. -/
private theorem Charges.exists_settled (h : engine.Charges record amount total)
    (hpercent : total.toDouble? = some percent) (hdivisible : amount.Divisible percent) :
    ∃ c cents rest, (engine.apply record).outcome = .ok c ∧ c.amount = amount ∧ c.total = total ∧
      amount.Settled percent c.discount c.final cents rest := by
  obtain ⟨rules, t, hrules, ht, htotal⟩ := totals_iff.mp h.totals
  obtain ⟨discount, final, cents, rest, hdiscount, hfinal, hsettled⟩ := hdivisible.exists_settled
  refine ⟨⟨amount, t.applied, t.total, discount, final, t.message⟩, cents, rest,
    apply_eq_ok_iff.mpr ⟨rules, t, hrules, h.read, ht, ?_, hfinal, rfl, rfl, rfl⟩, rfl, htotal,
    hsettled⟩
  simp only [discountAmount, htotal, hpercent]
  exact hdiscount

/-- A calculation that returns has settled the amount. -/
theorem Charges.settled_of_apply {c : Calculation} (h : engine.Charges record amount total)
    (hc : (engine.apply record).outcome = .ok c) :
    ∃ percent cents rest, percent.value = total.value ∧ amount.Divisible percent ∧
      amount.Settled percent c.discount c.final cents rest := by
  obtain ⟨percent, hpercent, hfinite, hvalue⟩ := h.exists_percent
  have hdivisible := h.divisible hfinite hvalue (isFinite_mul_of_apply h hpercent hfinite hc)
  obtain ⟨c', cents, rest, hc', -, -, hsettled⟩ := h.exists_settled hpercent hdivisible
  cases hc.symm.trans hc'
  exact ⟨percent, cents, rest, hvalue, hdivisible, hsettled⟩

/-- A calculation with a total between zero and a hundred returns exactly if amount and total
have a product among the doubles. Then the discount and what remains are finite, the discount
is not negative, and neither is what remains unless the total is a hundred but for the last
digits. -/
theorem exists_apply_iff_mul_lt (h : engine.Charges record amount total) :
    ((∃ c, (engine.apply record).outcome = .ok c) ↔
        amount.value * total.value < 2 ^ 1024 - 2 ^ 970) ∧
      ∀ c, (engine.apply record).outcome = .ok c →
        c.discount.isFinite = true ∧ c.final.isFinite = true ∧ 0 ≤ c.discount.value ∧
        (total.value ≤ 100 - 1 / 10 ^ 12 → 0 ≤ c.final.value) := by
  constructor
  · obtain ⟨percent, hpercent, hfinite, hvalue⟩ := h.exists_percent
    have hproduct :=
      (Double.isNearest_mul (isFinite_recordAmount h.read) hfinite).isFinite_iff
    rw [hvalue, abs_of_nonneg (mul_nonneg h.nonneg h.low)] at hproduct
    rw [← hproduct]
    constructor
    · rintro ⟨c, hc⟩
      exact isFinite_mul_of_apply h hpercent hfinite hc
    · intro hmul
      obtain ⟨c, -, -, hc, -⟩ := h.exists_settled hpercent (h.divisible hfinite hvalue hmul)
      exact ⟨c, hc⟩
  · intro c hc
    obtain ⟨percent, cents, rest, hvalue, hdivisible, hsettled⟩ := h.settled_of_apply hc
    refine ⟨hsettled.share.finite, hsettled.remainder.finite,
      (hsettled.cents_nonneg hdivisible).2, fun hbelow => ?_⟩
    rw [← hvalue] at hbelow
    exact hsettled.final_nonneg (hsettled.rest_nonneg hdivisible hbelow)

/-- An engine with one rule, which takes a percentage for gold. -/
def singleEngine (percent : Value) : Engine :=
  ⟨defaultAmountField, [.object (rivalRule (.text "ONLY") (.int 1) percent).fields], .shared⟩

/-- A booking for gold with some amount. -/
def spendRecord (amount : Number) : Value :=
  .object [("tier", .text "gold"), ("total_spend", .number amount)]

/-- The amount of a booking is the double in place of it. -/
private theorem recordAmount_spendRecord {amount : Number} {x : Double}
    (h : amount.toDouble? = some x) (hx : x.isFinite = true) :
    recordAmount defaultAmountField (spendRecord amount) = .ok x := by
  have hfield : defaultAmountField.resolve (spendRecord amount) .null = .ok (.number amount) := rfl
  have hread : Value.amount (.number amount) = .ok x := by simp only [Value.amount, h]
  refine bind_eq_ok.mpr ⟨_, hfield, bind_eq_ok.mpr ⟨x, hread, ?_⟩⟩
  rw [if_pos hx]
  rfl

/-- The total of the one rule of an engine. -/
private theorem totals_single {percent amount : Number}
    (hpercent : (Value.number percent).finiteNumberOr (.int 0) = .ok percent)
    (hsum : (Number.int 0).add? percent = some percent) :
    (singleEngine (.number percent)).Totals (spendRecord amount) percent := by
  obtain ⟨r, hr⟩ : ∃ r, r = rivalRule (.text "ONLY") (.int 1) (.number percent) := ⟨_, rfl⟩
  have hpriority : r.priority = .ok (.int 1) := by
    rw [hr]
    exact Value.finiteNumberOr_int (by decide)
  have hdiscount : r.discount = .ok percent := by
    rw [hr]
    exact hpercent
  have hholds : (r.condition.evaluate .distinct (spendRecord amount)).outcome = .ok true := by
    rw [hr]
    rfl
  have hpush : Tally.empty.push r = .ok ⟨[⟨r.id, r.description, percent, r.message⟩], percent⟩ := by
    refine bind_eq_ok.mpr ⟨percent, hdiscount, ?_⟩
    simp only [Tally.empty, hsum]
    rfl
  have hblocks : Tally.empty.blocks (singleEngine (.number percent)).nan r = false := by
    rw [hr]
    rfl
  refine totals_iff.mpr ⟨[r], ⟨[⟨r.id, r.description, percent, r.message⟩], percent⟩, ?_, ?_, rfl⟩
  · have hrules : (singleEngine (.number percent)).rules.filterMap Rule.ofValue? = [r] := by
      rw [hr]
      rfl
    rw [hrules]
    exact byPriority_singleton hpriority
  · rw [Tally.addAll]
    refine Report.outcome_bind_eq_ok.mpr ⟨true, hholds, ?_⟩
    rw [if_pos rfl, hblocks, if_neg Bool.false_ne_true, hpush]
    rfl

/-- Five percent of a hundred are charged. -/
private theorem charges_fivePercent :
    (singleEngine (.int 5)).Charges (spendRecord (.int 100)) (.nearestInt 100) (.int 5) := by
  obtain ⟨hfinite, hvalue⟩ := @Double.nearestInt_of_lt 100 (by decide)
  have hfive : (Number.int 5).value = 5 := by
    rw [Number.value_int]
    norm_num
  refine ⟨recordAmount_spendRecord (Number.toDouble?_int (by decide)) hfinite, ?_,
    totals_single (Value.finiteNumberOr_int (by decide)) rfl, trivial, ?_, ?_⟩
  · rw [hvalue]
    norm_num
  · rw [hfive]
    norm_num
  · rw [hfive]
    norm_num

/-- The calculation of five percent of a hundred returns if five hundred is small enough. -/
theorem exists_apply_iff_mul_lt_fivePercent :
    (singleEngine (.int 5)).Charges (spendRecord (.int 100)) (.nearestInt 100) (.int 5) ∧
      ((∃ c, ((singleEngine (.int 5)).apply (spendRecord (.int 100))).outcome = .ok c) ↔
        (Double.nearestInt 100).value * (Number.int 5).value < 2 ^ 1024 - 2 ^ 970) :=
  ⟨charges_fivePercent, (exists_apply_iff_mul_lt charges_fivePercent).1⟩

/-- Ten to the power 307. -/
def hugeAmount : Double := .ofRatio false (10 ^ 307) 1

/-- Half of ten to the power 307 is a double, but no booking of that amount can be calculated
with a rule that takes half of it. -/
theorem not_exists_apply_hugeAmount :
    hugeAmount.isFinite = true ∧
      (singleEngine (.int 50)).Charges (spendRecord (.double hugeAmount)) hugeAmount (.int 50) ∧
      ¬ ∃ c, ((singleEngine (.int 50)).apply (spendRecord (.double hugeAmount))).outcome =
        .ok c := by
  have hfinite : hugeAmount.isFinite = true := by decide +kernel
  have hproduct : hugeAmount.mul (.nearestInt 50) = .infinity false := by decide +kernel
  have hcharges : (singleEngine (.int 50)).Charges (spendRecord (.double hugeAmount)) hugeAmount
      (.int 50) := by
    have hfifty : (Number.int 50).value = 50 := by
      rw [Number.value_int]
      norm_num
    refine ⟨recordAmount_spendRecord rfl hfinite, Double.value_ofRatio_nonneg (by decide) hfinite,
      totals_single (Value.finiteNumberOr_int (by decide)) rfl, trivial, ?_, ?_⟩
    · rw [hfifty]
      norm_num
    · rw [hfifty]
      norm_num
  refine ⟨hfinite, hcharges, ?_⟩
  rintro ⟨c, hc⟩
  obtain ⟨hfifty, -⟩ := @Double.nearestInt_of_lt 50 (by decide)
  have hmul := isFinite_mul_of_apply hcharges (Number.toDouble?_int (by decide)) hfifty hc
  rw [hproduct] at hmul
  cases hmul

/-- Up to ten to the thirteenth no cent gets lost where a record is charged: the discount and
what remains are whole cents that make up the cents of the amount, and their sum is rounded
to the amount. -/
theorem exists_apply_of_isCents {n : Nat} (hn : n ≤ 10 ^ 13)
    (h : engine.Charges record amount total) (hcents : amount.IsCents n) :
    ∃ c, (engine.apply record).outcome = .ok c ∧ c.total = total ∧ c.amount = amount ∧
      ∃ m, m ≤ n ∧ c.discount.IsCents m ∧ c.final.IsCents (n - m) ∧
        ∃ sum, (Value.double (c.discount.add c.final)).round2 = .ok sum ∧
          sum.eq c.amount = true := by
  obtain ⟨percent, hpercent, hfinite, hvalue⟩ := h.exists_percent
  have hamount := isFinite_recordAmount h.read
  have hbound : n ≤ 10 ^ 14 := by omega
  have hle := hcents.value_le hamount hbound
  have hdivisible := h.divisible hfinite hvalue
    (Double.isFinite_mul_of_le hamount h.nonneg hle hfinite (hvalue ▸ h.low) (hvalue ▸ h.high))
  obtain ⟨c, cents, rest, hc, hsame, htotal, hsettled⟩ := h.exists_settled hpercent hdivisible
  obtain ⟨sum, hround, hsum⟩ := hsettled.exists_round2_add hdivisible hbound hcents
  obtain ⟨m, hm, hdiscount, hfinal⟩ := hsettled.exists_isCents hdivisible hbound hcents
  exact ⟨c, hc, htotal, hsame, m, hm, hdiscount, hfinal, sum, hround, hsame ▸ hsum⟩

/-- No cent of a hundred gets lost when five percent are taken. -/
theorem exists_apply_of_isCents_fivePercent :
    (singleEngine (.int 5)).Charges (spendRecord (.int 100)) (.nearestInt 100) (.int 5) ∧
      (Double.nearestInt 100).IsCents 10000 ∧
      ∃ c, ((singleEngine (.int 5)).apply (spendRecord (.int 100))).outcome = .ok c ∧
        ∃ m, m ≤ 10000 ∧ c.discount.IsCents m ∧ c.final.IsCents (10000 - m) := by
  have hcents : (Double.nearestInt 100).eq (Double.ofRatio false 10000 100) = true := by
    decide +kernel
  obtain ⟨c, hc, -, -, m, hm, hdiscount, hfinal, -⟩ :=
    exists_apply_of_isCents (by decide) charges_fivePercent hcents
  exact ⟨charges_fivePercent, hcents, c, hc, m, hm, hdiscount, hfinal⟩

/-- A calculation whose discounts are not negative charges a record unless its total is
above a hundred. -/
theorem charges_of_apply {c : Calculation} (hc : (engine.apply record).outcome = .ok c)
    (hnonneg : 0 ≤ c.amount.value)
    (hdiscounts : ∀ r ∈ engine.rules.filterMap Rule.ofValue?, 0 ≤ r.effectiveDiscount.value)
    (hfinite : c.total.Finite) (hhigh : c.total.value ≤ 100) :
    engine.Charges record c.amount c.total := by
  obtain ⟨rules, t, hrules, hamount, ht, -, -, -, htotal, -⟩ := apply_eq_ok_iff.mp hc
  have htotals : engine.Totals record c.total := totals_iff.mpr ⟨rules, t, hrules, ht, htotal.symm⟩
  have hlow : 0 ≤ c.total.value := by
    have hparts : ∀ n ∈ (selected engine.nan record engine.taken).map Rule.effectiveDiscount,
        0 ≤ n.value := by
      intro n hn
      obtain ⟨r, hr, rfl⟩ := List.mem_map.mp hn
      have htaken := (mem_of_mem_selected hr).1
      exact hdiscounts r ((List.mergeSort_perm _ Rule.mayPrecede).mem_iff.mp htaken)
    refine (Number.foldlM_add?_spec hparts htotals.sum hfinite).2 ?_
    rw [Number.value_int, Int.cast_zero]
  exact ⟨hamount, hnonneg, htotals, hfinite, hlow, hhigh⟩

/-- Of an amount up to ten to the twelfth that is charged no more than a cent too much is
taken, and nothing too much of whole cents or by a total that is not a hundred but for the
last digits. -/
theorem Charges.final_spec {c : Calculation} (h : engine.Charges record amount total)
    (hle : amount.value ≤ 10 ^ 12) (hc : (engine.apply record).outcome = .ok c) :
    c.final.isFinite = true ∧ (0 ≤ c.final.value ∨ c.final.eq (.ofRatio true 1 100) = true) ∧
      ((∃ n, amount.IsCents n) ∨ total.value ≤ 100 - 1 / 10 ^ 12 → 0 ≤ c.final.value) := by
  obtain ⟨percent, cents, rest, hvalue, hdivisible, hsettled⟩ := h.settled_of_apply hc
  refine ⟨hsettled.remainder.finite, ?_, ?_⟩
  · have hlow := hsettled.neg_one_le_rest hdivisible hle
    rcases Int.le_iff_eq_or_lt.mp hlow with rfl | hnonneg
    · exact .inr (Double.eq_cent_of_isNearest hsettled.remainder.finite hsettled.remainder.nearest)
    · exact .inl (hsettled.final_nonneg (by omega))
  · rintro (⟨n, hcents⟩ | hbelow)
    · have hn := hcents.le_of_value_le hdivisible.finite hle
      obtain ⟨hcents_le, hrest⟩ := hsettled.rest_eq hdivisible hn hcents
      exact hsettled.final_nonneg (by omega)
    · rw [← hvalue] at hbelow
      exact hsettled.final_nonneg (hsettled.rest_nonneg hdivisible hbelow)

end Engine

end Loyalty
