import Loyalty.Proofs.Number.HalfUp
import Loyalty.Value.Reading

/-!
# Rounding doubles to cents

The decimal of a finite double is less than two to the power 1025, and its cents
have far less than 400 digits. So every double but an infinity can be rounded to
cents, and what comes of it is not much larger than the double.
-/

namespace Loyalty

namespace Decimal

/-- A count of cents that is half a cent too many at most has not many digits. -/
private theorem lt_of_cents {n num den k j digits : Nat} (hten : 2 ^ k ≤ 10 ^ j)
    (hj : 2 + j < digits) (hnum : num < 2 ^ k * den) (hn : 2 * (n * den) ≤ 2 * (100 * num) + den) :
    n < Nat.pow 10 digits := by
  change n < 10 ^ digits
  have hhundred : 100 * 10 ^ j < 10 ^ digits :=
    calc 100 * 10 ^ j = 10 ^ (2 + j) := (Nat.pow_add 10 2 j).symm
      _ < 10 ^ digits := Nat.pow_lt_pow_right (by decide) hj
  have hbound : n ≤ 100 * 2 ^ k := by
    by_contra hlt
    have hmul := Nat.mul_le_mul_right den (show 100 * 2 ^ k + 1 ≤ n by omega)
    rw [Nat.succ_mul, Nat.mul_assoc] at hmul
    omega
  omega

/-- A decimal that is not too large has cents. -/
theorem cents?_of_lt {d : Decimal} {k : Nat} (hk : k ≤ 1041)
    (h : d.numerator < 2 ^ k * d.denominator) : d.cents? = some d.cents := by
  obtain ⟨j, hj, hkj⟩ : ∃ j, 2 + j < 400 ∧ k ≤ 3 * j := ⟨k / 3 + 1, by omega, by omega⟩
  obtain ⟨digits, hdigits⟩ : ∃ digits, digits = 400 := ⟨_, rfl⟩
  have hdown : 2 * (d.cents * d.denominator) ≤ 2 * (100 * d.numerator) + d.denominator :=
    two_mul_roundQuotient_le .up _ _
  rw [← hdigits] at hj
  have hlt := lt_of_cents (two_pow_le_ten_pow hkj) hj h hdown
  rw [cents?_eq, ← hdigits, Option.filter_some, if_pos (decide_eq_true hlt)]

end Decimal

namespace Double

section Rounding

variable {x : Double} {d : Decimal}

/-- A decimal that is read as a finite double is less than twice every power of two
that bounds the double. -/
private theorem numerator_lt (hx : x.isFinite = true) (hd : d.toDouble = x) {k : Nat}
    (hk : x.magnitude ≤ 2 ^ k) : d.numerator * unitsPerOne < 2 ^ (k + 1) * d.denominator := by
  rw [Decimal.toDouble_eq, ofRatio_eq] at hd
  subst hd
  exact lt_of_magnitude_ofUnits_le d.denominator_pos hx hk

/-- A decimal that is read as a finite double is less than two to the power 1025. -/
private theorem numerator_lt_of_isFinite (hx : x.isFinite = true) (hd : d.toDouble = x) {k : Nat}
    (hk : 1025 ≤ k) : d.numerator < 2 ^ k * d.denominator := by
  obtain ⟨j, hj⟩ : ∃ j, j = 1074 := ⟨_, rfl⟩
  have hmagnitude := magnitude_lt_of_isFinite hx (show 2098 ≤ k - 1 + j by omega)
  have hlt := numerator_lt hx hd (Nat.le_of_lt hmagnitude)
  rw [unitsPerOne_eq hj, show k - 1 + j + 1 = k + j by omega, Nat.pow_add,
    Nat.mul_right_comm] at hlt
  exact Nat.lt_of_mul_lt_mul_right hlt

/-- A finite double is rounded to the cents of its shortest decimal. -/
theorem exists_cents (hx : x.isFinite = true) :
    ∃ d, x.shortest? = some d ∧ (Value.double x).round2 = .ok (ofRatio d.negative d.cents 100) := by
  cases x with
  | finite negative m s hcanonical =>
    obtain ⟨d, hshortest, hd⟩ := exists_shortest negative hcanonical
    obtain ⟨k, hlow, hhigh⟩ : ∃ k, 1025 ≤ k ∧ k ≤ 1041 := ⟨1025, by decide, by decide⟩
    have hcents := Decimal.cents?_of_lt hhigh (numerator_lt_of_isFinite hx hd hlow)
    refine ⟨d, hshortest, ?_⟩
    simp only [Value.double, Value.round2, hshortest, Value.round2.rounded, Decimal.round2?, hcents]
    rfl
  | nan => cases hx
  | infinity negative => cases hx

/-- The cents of a decimal are not much more than a double that bounds it. -/
private theorem cents_mul_le {k : Nat} (hk : 1074 ≤ k)
    (hd : d.numerator * unitsPerOne < 2 ^ (k + 1) * d.denominator) :
    d.cents * unitsPerOne ≤ 2 ^ (k + 2) * 100 := by
  have hn : 2 * (d.cents * d.denominator) ≤ 2 * (100 * d.numerator) + d.denominator :=
    two_mul_roundQuotient_le .up _ _
  have hone : unitsPerOne ≤ 2 ^ k := by
    obtain ⟨j, hj⟩ : ∃ j, j = 1074 := ⟨_, rfl⟩
    rw [unitsPerOne_eq hj]
    exact Nat.pow_le_pow_right (by decide) (by omega)
  refine Nat.le_of_mul_le_mul_right ?_ d.denominator_pos
  have hplace := Nat.mul_le_mul_right d.denominator hone
  have hunits := Nat.mul_le_mul_right unitsPerOne hn
  have hleft : 2 * (d.cents * d.denominator) * unitsPerOne =
      2 * (d.cents * unitsPerOne * d.denominator) := by ring
  have hright : (2 * (100 * d.numerator) + d.denominator) * unitsPerOne =
      200 * (d.numerator * unitsPerOne) + unitsPerOne * d.denominator := by ring
  have htwice : 2 ^ (k + 1) * d.denominator = 2 * (2 ^ k * d.denominator) := by ring
  have hbound : 2 ^ (k + 2) * 100 * d.denominator = 400 * (2 ^ k * d.denominator) := by ring
  omega

/-- A finite double is rounded to some number of cents, which are not much more than
the double. -/
theorem exists_round2_of_isFinite (hx : x.isFinite = true) :
    ∃ negative n, (Value.double x).round2 = .ok (ofRatio negative n 100) ∧
      ∀ k, 1074 ≤ k → x.magnitude ≤ 2 ^ k → n * unitsPerOne ≤ 2 ^ (k + 2) * 100 := by
  obtain ⟨d, hshortest, hround⟩ := exists_cents hx
  exact ⟨d.negative, d.cents, hround, fun k hk hmagnitude =>
    cents_mul_le hk (numerator_lt hx (toDouble_of_shortest? hshortest) hmagnitude)⟩

/-- Not-a-number stays not-a-number. -/
theorem round2_nan : (Value.double .nan).round2 = .ok .nan := rfl

/-- Infinities have no cents. -/
theorem round2_infinity (negative : Bool) :
    (Value.double (.infinity negative)).round2 = .error .notRoundable := rfl

end Rounding

/-- A hundredth of a finite double is rounded to cents that are far below the largest
double. -/
private theorem exists_round2_hundredth {x : Double} (hx : x.isFinite = true) {k : Nat}
    (hk : 2094 ≤ k) : ∃ y, (Value.double (x.divNat 100)).round2 = .ok y ∧
      y.isFinite = true ∧ y.magnitude ≤ 2 ^ k := by
  obtain ⟨j, hj⟩ : ∃ j, j = 2092 := ⟨_, rfl⟩
  have hmagnitude : x.magnitude ≤ 2 ^ j * 100 := by
    have hlt := magnitude_lt_of_isFinite hx (show 2098 ≤ j + 6 by omega)
    rw [Nat.pow_add] at hlt
    omega
  obtain ⟨hfinite, hle⟩ := magnitude_divNat_le hx (by decide) (by omega) hmagnitude
  obtain ⟨negative, n, hround, hbound⟩ := exists_round2_of_isFinite hfinite
  obtain ⟨hcents, hcents_le⟩ :=
    magnitude_ofUnits_le (by decide) (by omega) (hbound j (by omega) hle) negative
  rw [← ofRatio_eq] at hcents hcents_le
  exact ⟨_, hround, hcents,
    Nat.le_trans hcents_le (Nat.pow_le_pow_right (by decide) (by omega))⟩

/-- A percentage of an amount and what remains of the amount can be rounded to cents
unless their product is an infinity. -/
theorem exists_discount_iff {amount percent : Double} (hfinite : amount.isFinite = true) {k : Nat}
    (hlow : 2094 ≤ k) (hhigh : k < 2097) (hamount : amount.magnitude ≤ 2 ^ k) :
    (∃ discount final, (Value.double ((amount.mul percent).divNat 100)).round2 = .ok discount ∧
        (Value.double (amount.sub discount)).round2 = .ok final) ↔
      ∀ negative, amount.mul percent ≠ .infinity negative := by
  cases hproduct : amount.mul percent with
  | nan =>
    have hsub : amount.sub .nan = .nan := by
      cases amount <;> rfl
    refine iff_of_true ⟨.nan, .nan, round2_nan, ?_⟩ fun _ h => by cases h
    rw [hsub]
    exact round2_nan
  | infinity negative =>
    rw [divNat, round2_infinity]
    simp
  | finite negative m s hcanonical =>
    refine iff_of_true ?_ fun _ h => by cases h
    rw [← hproduct]
    have hproduct : (amount.mul percent).isFinite = true := by
      rw [hproduct]
      rfl
    obtain ⟨discount, hround, hdiscount, hle⟩ := exists_round2_hundredth hproduct hlow
    obtain ⟨_, n, hfinal, -⟩ :=
      exists_round2_of_isFinite (isFinite_sub hfinite hdiscount hhigh hamount hle)
    exact ⟨discount, _, hround, hfinal⟩

/-- A double is the one nearest to a whole number of cents, and the cents are those of
another double: they are half a cent away from it at most, but for its last digits. -/
structure RoundedToCents (x y : Double) (cents : Int) : Prop where
  finite : y.isFinite = true
  nearest : y.IsNearest (cents / 100)
  close : |cents - 100 * x.value| ≤ 1 / 2 + |x.value| / 2 ^ 46 + 1 / 10 ^ 28

/-- Cents that are half a cent away from a number are nearly as close to the double nearest to
it. -/
private theorem close_of_decimal {x : Double} {q cents : ℚ} (hx : x.isFinite = true)
    (hq : x.IsNearest q) (hcents : |cents - 100 * q| ≤ 1 / 2) :
    |cents - 100 * x.value| ≤ 1 / 2 + |x.value| / 2 ^ 46 + 1 / 10 ^ 28 := by
  have herror := hq.abs_sub_le hx
  have hvalue := abs_nonneg x.value
  calc |cents - 100 * x.value| = |cents - 100 * q + -100 * (x.value - q)| := by ring_nf
    _ ≤ |cents - 100 * q| + |-100 * (x.value - q)| := abs_add_le _ _
    _ = |cents - 100 * q| + 100 * |x.value - q| := by rw [abs_mul]; norm_num
    _ ≤ 1 / 2 + |x.value| / 2 ^ 46 + 1 / 10 ^ 28 := by linarith

/-- Every finite double is rounded to a finite number of cents. -/
theorem exists_roundedToCents {x : Double} (hx : x.isFinite = true) :
    ∃ y cents, (Value.double x).round2 = .ok y ∧ x.RoundedToCents y cents := by
  obtain ⟨d, hshortest, hround⟩ := exists_cents hx
  have hq := isNearest_toDouble d
  rw [toDouble_of_shortest? hshortest] at hq
  have hclose := close_of_decimal hx hq d.isHalfUp_cents.abs_sub_le
  have hnearest := isNearest_ofRatio d.negative d.cents (show 0 < 100 by decide)
  refine ⟨_, signed d.negative d.cents, hround, ?_, hnearest, hclose⟩
  by_cases hlarge : 10 ^ 16 * unitsPerOne ≤ x.magnitude
  · -- The decimal is its own number of cents.
    have hexponent := exponent_nonneg_of_shortest? hshortest hlarge
    refine hnearest.isFinite_of_abs_le hq hx (le_of_eq (congrArg _ ?_))
    exact d.cents_div (Int.le_trans (by decide) hexponent)
  · have hsmall : |x.value| < 10 ^ 16 := by
      refine lt_of_mul_lt_mul_right ?_ (Nat.cast_nonneg unitsPerOne)
      rw [abs_value_mul]
      exact_mod_cast Nat.lt_of_not_le hlarge
    refine hnearest.isFinite_of_le ?_
    have habs := abs_le.mp hclose
    have hvalue := abs_le.mp hsmall.le
    rw [abs_le]
    push_cast
    constructor <;> linarith

end Double

end Loyalty
