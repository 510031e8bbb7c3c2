import Loyalty.Proofs.Number.Values

/-!
# Half up to cents

An amount rounded half up is the closest whole number of cents, and the one of larger magnitude
where two are as close. This determines the cents, keeps the order of amounts and changes sign
with them. The cents of a decimal are its value rounded half up: the shortcuts for exponents far
out of range change nothing but whether there are too many digits.
-/

namespace Loyalty

/-- No whole number of cents is closer to an amount than these cents, and none that is as close
is of larger magnitude. -/
structure IsHalfUp (q : ℚ) (cents : Int) : Prop where
  closest : ∀ n : Int, |q - cents / 100| ≤ |q - n / 100|
  larger : ∀ n : Int, |q - n / 100| = |q - cents / 100| → n.natAbs ≤ cents.natAbs

section Order

variable {q r low high : ℚ} {m n : Int}

/-- What is not closer to the lower of two numbers is not below the middle between them. -/
private theorem middle_le (h : low < high) (hclose : |q - high| ≤ |q - low|) :
    low + high ≤ 2 * q := by
  have hsquares := sq_le_sq.mpr hclose
  by_contra hlt
  nlinarith [mul_pos (sub_pos.mpr h) (sub_pos.mpr (not_le.mp hlt))]

/-- What is not closer to the higher of two numbers is not above the middle between them. -/
private theorem le_middle (h : low < high) (hclose : |q - low| ≤ |q - high|) :
    2 * q ≤ low + high := by
  have hsquares := sq_le_sq.mpr hclose
  by_contra hlt
  nlinarith [mul_pos (sub_pos.mpr h) (sub_pos.mpr (not_le.mp hlt))]

/-- Cents are half a cent away from the amount at most. -/
theorem IsHalfUp.abs_sub_le (h : IsHalfUp q n) : |(n : ℚ) - 100 * q| ≤ 1 / 2 := by
  have hbelow := h.closest (n - 1)
  have habove := h.closest (n + 1)
  push_cast at hbelow habove
  have hlow := middle_le (by linarith) hbelow
  have hhigh := le_middle (by linarith) habove
  rw [abs_sub_le_iff]
  constructor <;> linarith

/-- Cents of a larger amount are not less. -/
theorem IsHalfUp.mono (hq : IsHalfUp q m) (hr : IsHalfUp r n) (h : q ≤ r) : m ≤ n := by
  by_contra hlt
  have hlt' : (n : ℚ) / 100 < m / 100 := by
    have hcast : (n : ℚ) < m := by exact_mod_cast not_le.mp hlt
    linarith
  have hlow := middle_le hlt' (hq.closest n)
  have hhigh := le_middle hlt' (hr.closest m)
  -- Both amounts are half way between the two, so neither of these is larger in magnitude.
  have hqm : 2 * q = n / 100 + m / 100 := by linarith
  have hqr : q = r := by linarith
  subst hqr
  have htie := le_antisymm (hq.closest n) (hr.closest m)
  have hmagnitude := hq.larger n htie.symm
  have hmagnitude' := hr.larger m htie
  have hopposite : n = -m := by omega
  have hzero := hq.closest 0
  have hqzero : q = 0 := by
    rw [hopposite] at hqm
    push_cast at hqm
    linarith
  rw [hqzero, Int.cast_zero, zero_div, sub_zero, abs_zero, zero_sub, abs_neg] at hzero
  have hm := abs_eq_zero.mp (le_antisymm hzero (abs_nonneg _))
  linarith [show (n : ℚ) = -m by exact_mod_cast hopposite]

/-- An amount has one number of cents. -/
theorem IsHalfUp.unique (hm : IsHalfUp q m) (hn : IsHalfUp q n) : m = n :=
  le_antisymm (hm.mono hn le_rfl) (hn.mono hm le_rfl)

/-- The opposite amount has the opposite cents. -/
theorem IsHalfUp.neg (h : IsHalfUp q n) : IsHalfUp (-q) (-n) := by
  have hdistance : ∀ k : Int, |-q - (-k : Int) / 100| = |q - k / 100| := by
    intro k
    rw [← abs_neg]
    congr 1
    push_cast
    ring
  have hdistance' : ∀ k : Int, |-q - k / 100| = |q - (-k : Int) / 100| := by
    intro k
    rw [← hdistance, neg_neg]
  refine ⟨fun k => ?_, fun k hk => ?_⟩
  · rw [hdistance, hdistance']
    exact h.closest (-k)
  · rw [hdistance, hdistance'] at hk
    have hlarger := h.larger (-k) hk
    omega

/-- A whole number that is at most half a cent more than an amount and less than half a cent
less is the amount in cents. -/
theorem isHalfUp_of_bounds {cents : Nat} (hq : 0 ≤ q) (hdown : cents ≤ 100 * q + 1 / 2)
    (hup : 100 * q < cents + 1 / 2) : IsHalfUp q cents := by
  have hhalf : |q - cents / 100| ≤ 1 / 200 := by
    rw [abs_sub_le_iff]
    constructor <;> linarith
  have habove : ∀ k : Int, (cents : Int) < k → 1 / 200 < |q - k / 100| := by
    intro k hk
    have hcast : (cents : ℚ) + 1 ≤ k := by exact_mod_cast hk
    refine lt_of_lt_of_le ?_ (neg_le_abs _)
    linarith
  have hbelow : ∀ k : Int, k < (cents : Int) → 1 / 200 ≤ |q - k / 100| := by
    intro k hk
    have hcast : (k : ℚ) + 1 ≤ cents := by exact_mod_cast hk
    refine le_trans ?_ (le_abs_self _)
    linarith
  refine ⟨fun k => ?_, fun k hk => ?_⟩
  · rw [Int.cast_natCast]
    rcases lt_trichotomy k cents with hlt | rfl | hgt
    · exact hhalf.trans (hbelow k hlt)
    · exact le_of_eq (by rw [Int.cast_natCast])
    · exact hhalf.trans (habove k hgt).le
  · rw [Int.cast_natCast] at hk
    by_contra hlarger
    rcases lt_or_ge (cents : Int) k with hgt | hle
    · have := habove k hgt
      linarith
    · -- A negative number of cents is farther away than none.
      have hnegative : (k : ℚ) + 1 ≤ 0 := by exact_mod_cast show k + 1 ≤ 0 by omega
      have hself := le_abs_self (q - k / 100)
      linarith

end Order

/-- A quotient that goes up at a half is rounded down by less than half a unit. -/
theorem two_mul_lt_of_roundQuotient_up {num den : Nat} (hden : 0 < den) :
    2 * num < 2 * (roundQuotient .up num den * den) + den := by
  have hmod := Nat.mod_lt num hden
  have hfloor := Nat.div_add_mod' num den
  have hceil := Nat.add_one_mul (num / den) den
  unfold roundQuotient
  split
  · omega
  · split
    · omega
    · simp only
      omega

namespace Decimal

/-- The cents of a decimal, however many digits there are. -/
def cents (d : Decimal) : Nat := roundQuotient .up (100 * d.numerator) d.denominator

/-- The decimal is rounded half up. -/
theorem isHalfUp_cents (d : Decimal) : IsHalfUp d.value (Double.signed d.negative d.cents) := by
  have hden : (0 : ℚ) < d.denominator := by exact_mod_cast d.denominator_pos
  have hdown := two_mul_roundQuotient_le .up (100 * d.numerator) d.denominator
  have hup := @two_mul_lt_of_roundQuotient_up (100 * d.numerator) d.denominator d.denominator_pos
  have hdown' : (2 * (d.cents * d.denominator) : ℚ) ≤ 2 * (100 * d.numerator) + d.denominator := by
    exact_mod_cast hdown
  have hup' : (2 * (100 * d.numerator) : ℚ) < 2 * (d.cents * d.denominator) + d.denominator := by
    exact_mod_cast hup
  have hquotient : (d.numerator / d.denominator : ℚ) * d.denominator = d.numerator :=
    div_mul_cancel₀ _ hden.ne'
  have hhalfUp : IsHalfUp (d.numerator / d.denominator) d.cents := by
    refine isHalfUp_of_bounds (by positivity) ?_ ?_
    · refine le_of_mul_le_mul_right ?_ hden
      linarith
    · refine lt_of_mul_lt_mul_right ?_ hden.le
      linarith
  rw [value_eq]
  cases d.negative with
  | false => exact hhalfUp
  | true =>
    have hneg := hhalfUp.neg
    rwa [← neg_div, ← Int.cast_natCast (R := ℚ) d.numerator, ← Int.cast_neg] at hneg

/-- A decimal with two places at most is its number of cents. -/
theorem cents_mul (d : Decimal) (h : -2 ≤ d.exponent) :
    d.cents * d.denominator = 100 * d.numerator := by
  have hdvd : d.denominator ∣ 100 * d.numerator := by
    refine Dvd.dvd.mul_right ?_ _
    exact Nat.pow_dvd_pow 10 (show (-d.exponent).toNat ≤ 2 by omega)
  obtain ⟨k, hk⟩ := hdvd
  rw [cents, hk, Nat.mul_comm d.denominator k, roundQuotient_mul_self .up k d.denominator_pos]

/-- Its value is that number of cents. -/
theorem cents_div (d : Decimal) (h : -2 ≤ d.exponent) :
    ((Double.signed d.negative d.cents : Int) : ℚ) / (100 : Nat) = d.value := by
  have hden : (d.denominator : ℚ) ≠ 0 := by exact_mod_cast d.denominator_pos.ne'
  have hsigned : Double.signed d.negative d.cents * d.denominator =
      Double.signed d.negative d.numerator * (100 : Nat) := by
    rw [← Double.signed_mul_natCast, d.cents_mul h, Nat.mul_comm, Double.signed_mul_natCast]
  rw [value_eq, div_eq_div_iff (by norm_num) hden]
  exact_mod_cast hsigned

/-- Where the last digit is behind the cents, they are the coefficient without these places. -/
private theorem cents_of_places_neg {d : Decimal} (h : d.exponent + 2 < 0) :
    d.cents = roundQuotient .up d.coefficient (10 ^ (d.exponent + 2).natAbs) := by
  have hnum : d.exponent.toNat = 0 := by omega
  have hden : (-d.exponent).toNat = (d.exponent + 2).natAbs + 2 := by omega
  rw [cents, numerator, denominator, hnum, hden, Nat.pow_zero, Nat.mul_one, Nat.pow_add,
    Nat.mul_comm 100]
  exact roundQuotient_scale (by decide) _ _

/-- Elsewhere they are the coefficient with more zeros. -/
private theorem cents_of_places_nonneg {d : Decimal} (h : 0 ≤ d.exponent + 2) :
    d.cents = d.coefficient * 10 ^ (d.exponent + 2).toNat := by
  have hpow : 10 ^ (d.exponent + 2).toNat * 10 ^ (-d.exponent).toNat =
      100 * 10 ^ d.exponent.toNat :=
    calc 10 ^ (d.exponent + 2).toNat * 10 ^ (-d.exponent).toNat
        = 10 ^ ((d.exponent + 2).toNat + (-d.exponent).toNat) := (Nat.pow_add _ _ _).symm
      _ = 10 ^ (2 + d.exponent.toNat) := by congr 1; omega
      _ = 100 * 10 ^ d.exponent.toNat := Nat.pow_add _ _ _
  refine Nat.eq_of_mul_eq_mul_right d.denominator_pos ?_
  rw [d.cents_mul (by omega), numerator, denominator, Nat.mul_assoc, hpow, Nat.mul_left_comm]

/-- The cents are given unless they have more than 400 digits. -/
theorem cents?_eq (d : Decimal) :
    d.cents? = (some d.cents).filter fun n => n < Nat.pow 10 400 := by
  unfold cents?
  simp only
  split
  · rename_i hzero
    have hcents : d.cents = 0 := by
      rw [cents, numerator, hzero, Nat.zero_mul, Nat.mul_zero]
      exact roundQuotient_eq_of_near (by have := d.denominator_pos; omega)
        (by have := d.denominator_pos; omega)
    rw [hcents]
  · rename_i hne
    split
    · rename_i hplaces
      rw [cents_of_places_nonneg hplaces]
      split
      · rename_i hlarge
        obtain ⟨limit, hlimit⟩ : ∃ limit, limit = 400 := ⟨_, rfl⟩
        rw [← hlimit]
        have hpow : Nat.pow 10 limit ≤ d.coefficient * 10 ^ (d.exponent + 2).toNat :=
          (Nat.pow_le_pow_right (by decide) (by omega)).trans
            (Nat.le_mul_of_pos_left _ (Nat.pos_of_ne_zero hne))
        rw [Option.filter_none, Option.filter_some,
          if_neg fun hlt => Nat.not_lt.mpr hpow (of_decide_eq_true hlt)]
      · rfl
    · rename_i hplaces
      rw [cents_of_places_neg (by omega)]
      split
      · rename_i hsmall
        have hhalf := @two_mul_shiftLeft_lt d.coefficient (d.exponent + 2).natAbs 0 (by omega)
        rw [Nat.shiftLeft_zero] at hhalf
        have hcents : roundQuotient .up d.coefficient (10 ^ (d.exponent + 2).natAbs) = 0 :=
          roundQuotient_eq_of_near (by omega) (by omega)
        rw [hcents]
      · rfl

end Decimal

end Loyalty
