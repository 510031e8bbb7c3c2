import Loyalty.Number.Decimal
import Loyalty.Proofs.Number.Double
import Mathlib.Algebra.Order.Field.Rat
import Mathlib.Tactic.FieldSimp
import Mathlib.Tactic.Ring

/-!
# The double nearest to a decimal

A decimal is a quotient, and its double is that quotient rounded: the shortcuts
for exponents far out of range change nothing. So decimals of equal value have
the same double, however many zeros their coefficients end in.
-/

namespace Loyalty

namespace Double

/-- The double nearest to a quotient depends on its value alone. -/
theorem ofRatio_congr {num den num' den' : Nat} (hden : 0 < den) (hden' : 0 < den')
    (h : num * den' = num' * den) (negative : Bool) :
    ofRatio negative num den = ofRatio negative num' den' := by
  unfold ofRatio
  rw [Nat.shiftLeft_eq, Nat.shiftLeft_eq, ← ofUnits_scale hden' negative _ den,
    ← ofUnits_scale hden negative _ den', Nat.mul_right_comm, h, Nat.mul_right_comm num',
    Nat.mul_comm den den']

end Double

namespace Decimal

/-- The numerator of the magnitude of a decimal. -/
def numerator (d : Decimal) : Nat := d.coefficient * 10 ^ d.exponent.toNat

/-- The denominator of the magnitude of a decimal. -/
def denominator (d : Decimal) : Nat := 10 ^ (-d.exponent).toNat

/-- Quotients of decimals are quotients. -/
theorem denominator_pos (d : Decimal) : 0 < d.denominator := Nat.pow_pos (by decide)

/-- Powers of two in terms of powers of ten. -/
theorem two_pow_le_ten_pow {k j : Nat} (h : k ≤ 3 * j) : 2 ^ k ≤ 10 ^ j :=
  calc 2 ^ k ≤ 2 ^ (3 * j) := Nat.pow_le_pow_right (by decide) h
    _ = 8 ^ j := Nat.pow_mul 2 3 j
    _ ≤ 10 ^ j := Nat.pow_le_pow_left (by decide) j

/-- A positive decimal above `10 ^ 400` is nearest to an infinity. -/
private theorem ofRatio_of_large {c k : Nat} (hc : 0 < c) (hk : 400 < k) (negative : Bool) :
    Double.ofRatio negative (c * 10 ^ k) 1 = .infinity negative := by
  refine Double.ofUnits_eq_infinity (by decide) (show 2098 ≤ 3 * k + 1074 by omega) ?_ negative
  rw [Nat.mul_one, Nat.shiftLeft_eq, Nat.pow_add]
  refine Nat.mul_le_mul_right _ ?_
  calc 2 ^ (3 * k) ≤ 10 ^ k := two_pow_le_ten_pow (Nat.le_refl _)
    _ ≤ c * 10 ^ k := Nat.le_mul_of_pos_left _ hc

/-- A coefficient that has far fewer binary digits than a power of ten is less than half of
it. -/
theorem two_mul_shiftLeft_lt {c k shift : Nat} (h : c.log2 + shift + 2 ≤ 3 * k) :
    2 * (c <<< shift) < 10 ^ k := by
  have hc : c < 2 ^ (c.log2 + 1) := Nat.lt_log2_self
  rw [Nat.shiftLeft_eq]
  calc 2 * (c * 2 ^ shift) < 2 * (2 ^ (c.log2 + 1) * 2 ^ shift) :=
        Nat.mul_lt_mul_of_pos_left
          (Nat.mul_lt_mul_of_pos_right hc (Nat.two_pow_pos _)) (by decide)
    _ = 2 ^ (c.log2 + 1 + shift + 1) := by
        rw [← Nat.pow_add, Nat.mul_comm, ← Nat.pow_succ]
    _ ≤ 10 ^ k := two_pow_le_ten_pow (by omega)

/-- A decimal far below the smallest unit is nearest to zero. -/
private theorem ofRatio_of_small {c k : Nat} (hk : c.log2 + 1102 < 3 * k) (negative : Bool) :
    Double.ofRatio negative c (10 ^ k) = .zero negative :=
  Double.ofUnits_eq_zero (two_mul_shiftLeft_lt (by omega)) negative

/-- The double of a decimal is its quotient rounded once, whatever its exponent. -/
theorem toDouble_eq (d : Decimal) :
    d.toDouble = Double.ofRatio d.negative d.numerator d.denominator := by
  obtain ⟨negative, c, e⟩ := d
  simp only [toDouble, numerator, denominator]
  rcases Nat.eq_zero_or_pos c with hc | hc
  · subst hc
    rw [if_pos rfl, Nat.zero_mul, Double.ofRatio, Nat.zero_shiftLeft]
    exact (Double.ofUnits_eq_zero (Nat.pow_pos (by decide)) negative).symm
  · rw [if_neg (by omega)]
    rcases Int.lt_or_le e 0 with he | he
    · have hzero : e.toNat = 0 := by omega
      have habs : e.natAbs = (-e).toNat := by omega
      rw [if_neg (by omega), habs, hzero, Nat.pow_zero, Nat.mul_one]
      split
      · rename_i hsmall
        exact (ofRatio_of_small hsmall negative).symm
      · rfl
    · have hzero : (-e).toNat = 0 := by omega
      rw [if_pos he, hzero, Nat.pow_zero]
      split
      · exact (ofRatio_of_large hc (by omega) negative).symm
      · rfl

/-- The exact value of a decimal. -/
def value (d : Decimal) : ℚ := (Double.signed d.negative d.coefficient : Int) * 10 ^ d.exponent

/-- Zero has the value zero, whatever its sign and exponent. -/
theorem value_zero (negative : Bool) (e : Int) : value ⟨negative, 0, e⟩ = 0 := by
  cases negative <;> simp [value, Double.signed]

/-- A power of ten is a quotient. -/
theorem ten_zpow_eq (e : Int) : (10 : ℚ) ^ e = 10 ^ e.toNat / 10 ^ (-e).toNat := by
  rw [← zpow_natCast, ← zpow_natCast, ← zpow_sub₀ (by norm_num)]
  congr 1
  omega

/-- The value is the quotient with its sign. -/
theorem value_eq (d : Decimal) :
    d.value = (Double.signed d.negative d.numerator : Int) / d.denominator := by
  rw [value, ten_zpow_eq, numerator, denominator, Double.signed_mul_natCast]
  push_cast
  rw [mul_div_assoc]

/-- Decimals of one sign and one value have one double. -/
theorem toDouble_congr {d d' : Decimal} (hnegative : d.negative = d'.negative)
    (h : d.value = d'.value) : d.toDouble = d'.toDouble := by
  have hden : (d.denominator : ℚ) ≠ 0 := by exact_mod_cast d.denominator_pos.ne'
  have hden' : (d'.denominator : ℚ) ≠ 0 := by exact_mod_cast d'.denominator_pos.ne'
  rw [value_eq, value_eq, hnegative, div_eq_div_iff hden hden'] at h
  have hsigned : Double.signed d'.negative d.numerator * d'.denominator =
      Double.signed d'.negative d'.numerator * d.denominator := by exact_mod_cast h
  rw [← Double.signed_mul_natCast, ← Double.signed_mul_natCast] at hsigned
  have hquotient := congrArg Int.natAbs hsigned
  rw [Double.natAbs_signed, Double.natAbs_signed] at hquotient
  rw [toDouble_eq, toDouble_eq, hnegative]
  exact Double.ofRatio_congr d.denominator_pos d'.denominator_pos hquotient _

/-- Zeros at the end of a coefficient can be moved to the exponent. -/
theorem value_mul_pow (negative : Bool) (c k : Nat) (e : Int) :
    value ⟨negative, c * 10 ^ k, e⟩ = value ⟨negative, c, e + k⟩ := by
  simp only [value]
  rw [Double.signed_mul_natCast, zpow_add₀ (by norm_num), zpow_natCast]
  push_cast
  ring

end Decimal

end Loyalty
