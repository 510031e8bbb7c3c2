import Loyalty.Proofs.Engine.Resilience
import Loyalty.Proofs.Value.Rounding

/-!
# Amounts without a discount

An engine without rules takes nothing off an amount: the discount is zero, and taking it off
changes no amount but negative zero, which becomes zero. What remains is the amount, rounded half
up to cents.
-/

namespace Loyalty

namespace Double

variable {x : Double}

/-! ## Zeros -/

/-- A finite double of the value zero is a zero. -/
theorem exists_eq_zero (hx : x.isFinite = true) (h : x.value = 0) :
    ∃ negative, x = zero negative := by
  cases x with
  | finite negative m s hcanonical =>
    obtain rfl := value_finite_eq_zero_iff.mp h
    obtain rfl : s = 0 := by
      obtain ⟨-, -, hs | hfull⟩ := hcanonical
      · exact hs
      · omega
    exact ⟨negative, rfl⟩
  | nan => cases hx
  | infinity negative => cases hx

/-- Rounding a zero to cents changes nothing. -/
theorem round2_zero (negative : Bool) :
    (Value.double (zero negative)).round2 = .ok (zero negative) := by
  cases negative with
  | false => exact eq_ok_of_toOption (by decide +kernel)
  | true => exact eq_ok_of_toOption (by decide +kernel)

/-- Taking a zero off an amount leaves it as it is. -/
theorem sub_zero_eq (hx : x.isFinite = true) (h : x.value ≠ 0) (negative : Bool) :
    x.sub (zero negative) = x := by
  have hsub := isNearest_sub (y := zero negative) hx rfl
  rw [value_zero, sub_zero] at hsub
  exact hsub.eq_of_ne_zero (isNearest_value hx) h

/-- A zero taken off itself is positive. -/
theorem zero_sub_self (negative : Bool) : (zero negative).sub (zero negative) = zero false := by
  cases negative with
  | false => decide +kernel
  | true => decide +kernel

/-- No percent of a zero are the zero itself. -/
theorem divNat_mul_zero (negative : Bool) :
    ((zero negative).mul (zero false)).divNat 100 = zero negative := by
  cases negative with
  | false => decide +kernel
  | true => decide +kernel

end Double

open Double

/-! ## Nothing taken off -/

/-- A calculation that takes nothing off an amount: no rule is applied, and what remains is the
decimal that the amount is written as, rounded half up to cents and then to the nearest double. -/
structure Calculation.Undiscounted (c : Calculation) (amount : Double) : Prop where
  amount_eq : c.amount = amount
  applied_eq : c.applied = []
  discount_finite : c.discount.isFinite = true
  discount_value : c.discount.value = 0
  final : ∃ d cents, (Number.double amount).IsWritten d ∧ IsHalfUp d.value cents ∧
    IsRounding false (cents / 100) c.final

variable {amount : Double}

/-- No percent of an amount are a zero. -/
theorem exists_discountAmount_zero (hfinite : amount.isFinite = true) :
    ∃ negative, discountAmount amount (.int 0) = .ok (.zero negative) ∧
      (amount = zero negative ∨ amount.value ≠ 0) := by
  have hdiscount : ∀ {negative},
      (amount.mul (zero false)).divNat 100 = zero negative →
      discountAmount amount (.int 0) = .ok (.zero negative) := by
    intro negative h
    have hpercent : (Number.int 0).toDouble? = some (zero false) := by decide +kernel
    simp only [discountAmount, hpercent, h, round2_zero]
  by_cases hzero : amount.value = 0
  · obtain ⟨negative, rfl⟩ := exists_eq_zero hfinite hzero
    exact ⟨negative, hdiscount (divNat_mul_zero negative), .inl rfl⟩
  · have hproduct := isNearest_mul (y := zero false) hfinite rfl
    rw [value_zero, mul_zero] at hproduct
    have hfinite' := hproduct.isFinite_of_le (by norm_num)
    have hshare := isNearest_divNat hfinite' (show 0 < 100 by decide)
    rw [hproduct.value_eq_zero hfinite', zero_div] at hshare
    have hfinite'' := hshare.isFinite_of_le (by norm_num)
    obtain ⟨negative, h⟩ := exists_eq_zero hfinite'' (hshare.value_eq_zero hfinite'')
    exact ⟨negative, hdiscount h, .inr hzero⟩

/-- A number above zero is written without a minus. -/
theorem negative_of_shortest? {d : Decimal} (hfinite : amount.isFinite = true)
    (hpos : 0 < amount.value) (h : amount.shortest? = some d) : d.negative = false := by
  rw [← d.isNegative_toDouble, toDouble_of_shortest? h]
  have hvalue := value_eq_abs hfinite
  cases hsign : amount.isNegative with
  | false => rfl
  | true =>
    rw [hsign, if_pos rfl] at hvalue
    have habs := abs_nonneg amount.value
    linarith

/-- What is left of an amount that is not negative, nothing being taken off it, is the amount in
cents. -/
theorem exists_round2_sub_zero {negative : Bool} (hfinite : amount.isFinite = true)
    (hnonneg : 0 ≤ amount.value) (hamount : amount = zero negative ∨ amount.value ≠ 0) :
    ∃ final d cents, (Value.double (amount.sub (zero negative))).round2 = .ok final ∧
      (Number.double amount).IsWritten d ∧ IsHalfUp d.value cents ∧
      IsRounding false (cents / 100) final := by
  obtain ⟨d, hshortest, hround⟩ := exists_cents hfinite
  have hwritten := isWritten_of_shortest? hfinite hshortest
  rcases hamount with rfl | hne
  · obtain rfl := eq_of_shortest?_of_value_eq_zero (value_zero negative) hshortest
    have hcents : IsHalfUp (Decimal.value ⟨(zero negative).isNegative, 0, 0⟩) 0 := by
      have h := Decimal.isHalfUp_cents ⟨(zero negative).isNegative, 0, 0⟩
      cases negative with
      | false => exact h
      | true => exact h
    have hfinal : IsRounding false ((0 : Int) / 100) (zero false) := isRounding_ofRatio false 0
      (show 0 < 100 by decide)
    exact ⟨zero false, _, 0, by rw [zero_sub_self, round2_zero], hwritten, hcents, hfinal⟩
  · have hsign := negative_of_shortest? hfinite (lt_of_le_of_ne hnonneg (Ne.symm hne)) hshortest
    have hrounding := d.isRounding_cents
    have hcents := d.isHalfUp_cents
    rw [hsign] at hround hrounding hcents
    exact ⟨_, d, _, by rw [sub_zero_eq hfinite hne, hround], hwritten, hcents, hrounding⟩

/-- An engine without rules takes nothing off an amount that is not negative. -/
theorem Engine.exists_undiscounted {engine : Engine} {record : Value} (hrules : engine.rules = [])
    (hread : recordAmount engine.amountField record = .ok amount)
    (hfinite : amount.isFinite = true) (hnonneg : 0 ≤ amount.value) :
    ∃ c, (engine.apply record).outcome = .ok c ∧ c.Undiscounted amount := by
  obtain ⟨negative, hdiscount, hamount⟩ := exists_discountAmount_zero hfinite
  obtain ⟨final, d, cents, hround, hwritten, hcents, hfinal⟩ :=
    exists_round2_sub_zero hfinite hnonneg hamount
  have htaken : byPriority (engine.rules.filterMap Rule.ofValue?) = .ok [] := by
    rw [hrules]
    simp [byPriority, withPriorities, Except.map]
  refine ⟨⟨amount, [], .int 0, .zero negative, final, Tally.empty.message⟩,
    apply_eq_ok_iff.mpr ⟨[], .empty, htaken, hread, rfl, hdiscount, hround, rfl, rfl, rfl⟩, ?_⟩
  exact ⟨rfl, rfl, rfl, value_zero negative, d, cents, hwritten, hcents, hfinal⟩

end Loyalty
