import Loyalty.Number.Basic
import Loyalty.Proofs.Number.Nearest
import Mathlib.Algebra.Order.Field.Rat
import Mathlib.Tactic.FieldSimp
import Mathlib.Tactic.Linarith
import Mathlib.Tactic.NormNum
import Mathlib.Tactic.Positivity

/-!
# The values of doubles

A finite double has an exact value, and each operation on doubles comes to the double
nearest to the exact result. `Double.IsNearest` says this of a double and a rational
number. Two doubles nearest to one number have one value, and unless it is an infinity a
double is off by one part in two to the 53rd of itself, or by almost nothing.
-/

namespace Loyalty

namespace Double

/-- The exact value of a finite double, zero for the others. -/
def value (x : Double) : ℚ := x.units / unitsPerOne

/-- A double is what an exact value is rounded to; zero has a sign of its own. -/
def IsNearest (x : Double) (q : ℚ) : Prop :=
  ∃ (negative : Bool) (num den : Nat), 0 < den ∧ q * unitsPerOne * den = signed negative num ∧
    x = ofUnits negative num den

variable {x y : Double} {q r : ℚ}

private theorem unitsPerOne_rat_pos : (0 : ℚ) < unitsPerOne := by
  exact_mod_cast unitsPerOne_pos

/-- A value in units. -/
theorem value_mul (x : Double) : x.value * unitsPerOne = x.units :=
  div_mul_cancel₀ _ unitsPerOne_rat_pos.ne'

/-- The magnitude of a decimal is the value of its coefficient. -/
theorem abs_value_decimal (d : Decimal) : |d.value| = d.coefficient * 10 ^ d.exponent := by
  have hpos : (0 : ℚ) ≤ 10 ^ d.exponent := zpow_nonneg (by norm_num) _
  rw [Decimal.value, abs_mul, abs_of_nonneg hpos, ← Int.cast_abs, Int.abs_eq_natAbs, natAbs_signed,
    Int.cast_natCast]

/-- The value of a decimal has its sign. -/
theorem value_decimal_eq_abs (d : Decimal) :
    d.value = if d.negative then -|d.value| else |d.value| := by
  have hpos : (0 : ℚ) ≤ 10 ^ d.exponent := zpow_nonneg (by norm_num) _
  rw [abs_value_decimal, Decimal.value]
  cases d.negative <;> simp [signed]

/-- A magnitude is the distance of the value from zero. -/
theorem abs_value_mul (x : Double) : |x.value| * unitsPerOne = x.magnitude := by
  rw [← abs_of_pos unitsPerOne_rat_pos, ← abs_mul, value_mul, ← Int.cast_abs, Int.abs_eq_natAbs,
    Int.cast_natCast, magnitude]

/-- The distance of a value from zero is the quotient of its magnitude. -/
theorem abs_value_eq (x : Double) : |x.value| = x.magnitude / unitsPerOne := by
  rw [eq_div_iff unitsPerOne_rat_pos.ne', abs_value_mul]

/-- A finite double has the value zero if its mantissa is zero. -/
theorem value_finite_eq_zero_iff {negative : Bool} {m s : Nat} {h : Canonical m s} :
    (finite negative m s h).value = 0 ↔ m = 0 := by
  rw [← abs_eq_zero, abs_value_eq, div_eq_zero_iff, or_iff_left unitsPerOne_rat_pos.ne',
    magnitude_finite, Nat.cast_eq_zero, Nat.mul_eq_zero, or_iff_left (Nat.two_pow_pos s).ne']

/-- Zero has the value zero. -/
theorem value_zero (negative : Bool) : (zero negative).value = 0 := by
  have hunits : (zero negative).units = 0 := by cases negative <;> rfl
  rw [value, hunits, Int.cast_zero, zero_div]

/-- The opposite double has the opposite value. -/
theorem value_neg (hx : x.isFinite = true) : x.neg.isFinite = true ∧ x.neg.value = -x.value := by
  cases x with
  | finite negative m s hcanonical =>
    refine ⟨rfl, ?_⟩
    have hunits : (neg (finite negative m s hcanonical)).units =
        -(finite negative m s hcanonical).units := by
      simp only [neg, units, signed]
      cases negative <;> simp
    rw [value, hunits, Int.cast_neg, neg_div, value]
  | nan => cases hx
  | infinity negative => cases hx

/-- A rounded count keeps its sign. -/
theorem units_ofUnits {negative : Bool} {num den : Nat}
    (hfinite : (ofUnits negative num den).isFinite = true) :
    (ofUnits negative num den).units = signed negative (ofUnits negative num den).magnitude := by
  have hsigned : ∀ n, signed negative n = signed negative (signed negative n).natAbs := by
    intro n
    rw [natAbs_signed]
  unfold ofUnits at hfinite ⊢
  simp only at hfinite ⊢
  split
  · exact hsigned _
  · split
    · exact hsigned _
    · simp_all [isFinite]

/-- A finite double has the count that its units are rounded to. -/
theorem magnitude_ofUnits {negative : Bool} {num den : Nat}
    (hfinite : (ofUnits negative num den).isFinite = true) (hden : 0 < den) :
    (ofUnits negative num den).magnitude = nearestUnits num den := by
  rcases ofUnits_finite_or hden negative with ⟨-, hmagnitude⟩ | ⟨hinfinity, -⟩
  · exact hmagnitude
  · rw [hinfinity] at hfinite
    cases hfinite

/-! ## Operations -/

/-- A double is nearest to its own value. -/
theorem isNearest_value (hx : x.isFinite = true) : x.IsNearest x.value := by
  cases x with
  | finite negative m s hcanonical =>
    refine ⟨negative, m * 2 ^ s, 1, by decide, ?_, ?_⟩
    · rw [value_mul, Nat.cast_one, mul_one, units, Nat.shiftLeft_eq]
    · have hpos := Nat.two_pow_pos s
      have hplace : m * (2 ^ s * 1) = m * 2 ^ s := by rw [Nat.mul_one]
      refine (ofUnits_eq_of_near hcanonical (by decide) ?_ ?_ ?_ negative).symm
      · omega
      · omega
      · intro _
        omega
  | nan => cases hx
  | infinity negative => cases hx

/-- The double of a quotient is the double nearest to it. -/
theorem isNearest_ofRatio (negative : Bool) (num : Nat) {den : Nat} (hden : 0 < den) :
    (ofRatio negative num den).IsNearest (signed negative num / den) := by
  refine ⟨negative, num * unitsPerOne, den, hden, ?_, ofRatio_eq _ _ _⟩
  have hne : (den : ℚ) ≠ 0 := by exact_mod_cast hden.ne'
  rw [signed_mul_natCast, Int.cast_mul, Int.cast_natCast]
  field_simp

/-- The double of a decimal is the one nearest to its value. -/
theorem isNearest_toDouble (d : Decimal) : d.toDouble.IsNearest d.value := by
  rw [Decimal.toDouble_eq, Decimal.value_eq]
  exact isNearest_ofRatio d.negative d.numerator d.denominator_pos

/-- The double of an integer is the one nearest to it. -/
theorem isNearest_nearestInt (n : Int) : (nearestInt n).IsNearest n := by
  have h := isNearest_ofRatio (n < 0) n.natAbs (show 0 < 1 by decide)
  rwa [signed_natAbs, Nat.cast_one, div_one] at h

/-- A product is the double nearest to the exact product. -/
theorem isNearest_mul (hx : x.isFinite = true) (hy : y.isFinite = true) :
    (x.mul y).IsNearest (x.value * y.value) := by
  cases x with
  | finite a m s hm =>
    cases y with
    | finite b n t hn =>
      refine ⟨a ^^ b, (m <<< s) * (n <<< t), unitsPerOne, unitsPerOne_pos, ?_, rfl⟩
      rw [← signed_mul, Int.cast_mul, mul_assoc, mul_mul_mul_comm, value_mul, value_mul]
      rfl
    | nan => cases hy
    | infinity negative => cases hy
  | nan => cases hx
  | infinity negative => cases hx

/-- A quotient by a whole number is the double nearest to the exact quotient. -/
theorem isNearest_divNat (hx : x.isFinite = true) {n : Nat} (hn : 0 < n) :
    (x.divNat n).IsNearest (x.value / n) := by
  cases x with
  | finite negative m s hcanonical =>
    refine ⟨negative, m <<< s, n, hn, ?_, rfl⟩
    have hne : (n : ℚ) ≠ 0 := by exact_mod_cast hn.ne'
    rw [mul_right_comm, div_mul_cancel₀ _ hne, value_mul]
    rfl
  | nan => cases hx
  | infinity negative => cases hx

/-- A sum is the double nearest to the exact sum. -/
theorem isNearest_add (hx : x.isFinite = true) (hy : y.isFinite = true) :
    (x.add y).IsNearest (x.value + y.value) := by
  cases x with
  | finite a m s hm =>
    cases y with
    | finite b n t hn =>
      have hunits : ((finite a m s hm).value + (finite b n t hn).value) * unitsPerOne =
          ((signed a (m <<< s) + signed b (n <<< t) : Int) : ℚ) := by
        rw [add_mul, value_mul, value_mul, Int.cast_add]
        rfl
      simp only [add]
      split
      · rename_i hzero
        refine ⟨a && b, 0, 1, by decide, ?_, (ofUnits_eq_zero (by decide) _).symm⟩
        rw [hunits, hzero]
        cases a && b <;> simp [signed]
      · refine ⟨_, _, 1, by decide, ?_, rfl⟩
        rw [hunits, signed_natAbs, Nat.cast_one, mul_one]
    | nan => cases hy
    | infinity negative => cases hy
  | nan => cases hx
  | infinity negative => cases hx

/-- A difference is the double nearest to the exact difference. -/
theorem isNearest_sub (hx : x.isFinite = true) (hy : y.isFinite = true) :
    (x.sub y).IsNearest (x.value - y.value) := by
  obtain ⟨hfinite, hvalue⟩ := value_neg hy
  rw [sub, sub_eq_add_neg, ← hvalue]
  exact isNearest_add hx hfinite

/-- The parts of a finite sum are finite. -/
theorem isFinite_of_add (h : (x.add y).isFinite = true) :
    x.isFinite = true ∧ y.isFinite = true := by
  cases x with
  | finite a m s hm =>
    cases y with
    | finite b n t hn => exact ⟨rfl, rfl⟩
    | nan => cases h
    | infinity b => cases h
  | nan => cases h
  | infinity a =>
    cases y with
    | finite b n t hn => cases h
    | nan => cases h
    | infinity b =>
      simp only [add] at h
      split at h <;> cases h

/-! ## What rounding does to a value -/

/-- The magnitude of an exact value is a quotient of counts. -/
private theorem abs_mul_of_signed {negative : Bool} {num den : Nat}
    (hq : q * unitsPerOne * den = signed negative num) : |q| * (unitsPerOne * den) = num := by
  have hpos : (0 : ℚ) ≤ unitsPerOne * den := by positivity
  rw [← abs_of_nonneg hpos, ← abs_mul, ← mul_assoc, hq, ← Int.cast_abs, Int.abs_eq_natAbs,
    natAbs_signed, Int.cast_natCast]

/-- An exact value has the sign that its count is written with. -/
theorem eq_abs_of_signed {negative : Bool} {num den : Nat} (hden : 0 < den)
    (hq : q * unitsPerOne * den = signed negative num) : q = if negative then -|q| else |q| := by
  have hplace : (0 : ℚ) < unitsPerOne * den := mul_pos unitsPerOne_rat_pos (by exact_mod_cast hden)
  have habs := abs_mul_of_signed hq
  refine mul_right_cancel₀ hplace.ne' ?_
  rw [← mul_assoc, hq]
  cases negative with
  | false => simp [signed, habs]
  | true => simp [signed, habs]

/-- A finite double nearest to an exact value is the rounded magnitude with a sign, which
is the sign of the exact value. -/
private theorem IsNearest.cases_of_isFinite (h : x.IsNearest q) (hx : x.isFinite = true) :
    ∃ (num den : Nat), 0 < den ∧ |q| * (unitsPerOne * den) = num ∧
      |x.value| * unitsPerOne = nearestUnits num den ∧
      (q = |q| ∧ x.value = |x.value| ∨ q = -|q| ∧ x.value = -|x.value|) := by
  obtain ⟨negative, num, den, hden, hq, rfl⟩ := h
  have hmagnitude := magnitude_ofUnits hx hden
  have hvalue : (ofUnits negative num den).value * unitsPerOne * (1 : Nat) =
      signed negative (nearestUnits num den) := by
    rw [value_mul, units_ofUnits hx, hmagnitude, Nat.cast_one, mul_one]
  have hsign := eq_abs_of_signed hden hq
  have hsign' := eq_abs_of_signed (by decide) hvalue
  refine ⟨num, den, hden, abs_mul_of_signed hq, ?_, ?_⟩
  · have habs := abs_mul_of_signed hvalue
    rwa [Nat.cast_one, mul_one] at habs
  · cases negative with
    | false => exact .inl ⟨hsign, hsign'⟩
    | true => exact .inr ⟨hsign, hsign'⟩

/-- Half a unit is almost nothing. -/
private theorem unitsPerOne_large : (10 : ℚ) ^ 30 ≤ unitsPerOne := by
  obtain ⟨j, hj⟩ : ∃ j, j = 1074 := ⟨_, rfl⟩
  have hle : 10 ^ 30 ≤ unitsPerOne := by
    rw [unitsPerOne_eq hj]
    calc 10 ^ 30 ≤ 2 ^ 100 := by decide
      _ ≤ 2 ^ j := Nat.pow_le_pow_right (by decide) (by omega)
  exact_mod_cast hle

/-- A finite double is off by one part in two to the 53rd of itself, or by almost nothing. -/
theorem IsNearest.abs_sub_le (h : x.IsNearest q) (hx : x.isFinite = true) :
    |x.value - q| ≤ |x.value| / 2 ^ 53 + 1 / 10 ^ 30 := by
  obtain ⟨num, den, hden, hq, hvalue, hsigns⟩ := h.cases_of_isFinite hx
  have hplace : (0 : ℚ) < unitsPerOne * den := mul_pos unitsPerOne_rat_pos (by exact_mod_cast hden)
  have hlarge : (10 : ℚ) ^ 30 * den ≤ unitsPerOne * den :=
    mul_le_mul_of_nonneg_right unitsPerOne_large (Nat.cast_nonneg den)
  obtain ⟨hdown, hup⟩ := @nearestUnits_near num den hden
  have hdown' : (9007199254740992 * (nearestUnits num den * den) : ℚ) ≤
      9007199254740992 * num + (nearestUnits num den + 4503599627370496) * den := by
    exact_mod_cast hdown
  have hup' : (9007199254740992 * num : ℚ) ≤ 9007199254740992 * (nearestUnits num den * den) +
      (nearestUnits num den + 4503599627370496) * den := by
    exact_mod_cast hup
  rw [← hq, ← hvalue] at hdown' hup'
  -- The signs agree, so the magnitudes are as far apart as the values.
  have hmagnitudes : |x.value - q| = |(|x.value| - |q|)| := by
    rcases hsigns with ⟨hq, hx⟩ | ⟨hq, hx⟩
    · rw [← hq, ← hx]
    · rw [hq, hx, abs_neg, abs_neg, abs_abs, abs_abs, neg_sub_neg, abs_sub_comm]
  rw [hmagnitudes]
  generalize |x.value| = a at hdown' hup' ⊢
  generalize |q| = b at hdown' hup' ⊢
  rw [abs_sub_le_iff]
  constructor
  · refine le_of_mul_le_mul_right ?_ hplace
    linarith
  · refine le_of_mul_le_mul_right ?_ hplace
    linarith

/-- The counts of units of exact values are ordered as the values are. -/
private theorem num_mul_le {num den num' den' : Nat} (hq : |q| * (unitsPerOne * den) = num)
    (hr : |r| * (unitsPerOne * den') = num') (h : |q| ≤ |r|) : num * den' ≤ num' * den := by
  have hplace : (0 : ℚ) ≤ unitsPerOne * (den * den') :=
    mul_nonneg unitsPerOne_rat_pos.le (by positivity)
  have hmul := mul_le_mul_of_nonneg_right h hplace
  have hrat : (num * den' : ℚ) ≤ num' * den := by
    rw [← hq, ← hr]
    linarith
  exact_mod_cast hrat

/-- A larger exact value is not rounded to a smaller magnitude. -/
theorem IsNearest.abs_value_le (hxq : x.IsNearest q) (hyr : y.IsNearest r)
    (hx : x.isFinite = true) (hy : y.isFinite = true) (h : |q| ≤ |r|) : |x.value| ≤ |y.value| := by
  obtain ⟨num, den, hden, hq, hvalue, -⟩ := hxq.cases_of_isFinite hx
  obtain ⟨num', den', hden', hr, hvalue', -⟩ := hyr.cases_of_isFinite hy
  refine le_of_mul_le_mul_right ?_ unitsPerOne_rat_pos
  rw [hvalue, hvalue']
  exact_mod_cast nearestUnits_le hden hden' (num_mul_le hq hr h)

/-- Zero is rounded to zero. -/
theorem IsNearest.value_eq_zero (h : x.IsNearest 0) (hx : x.isFinite = true) : x.value = 0 := by
  have hzero := @isNearest_value (zero false) rfl
  have hle := h.abs_value_le hzero hx rfl (by rw [value_zero])
  rw [value_zero, abs_zero] at hle
  exact abs_eq_zero.mp (le_antisymm hle (abs_nonneg _))

/-- What is not negative is not rounded to a negative number. -/
theorem IsNearest.value_nonneg (h : x.IsNearest q) (hx : x.isFinite = true) (hq : 0 ≤ q) :
    0 ≤ x.value := by
  obtain ⟨num, den, -, -, -, ⟨-, hx'⟩ | ⟨hq', -⟩⟩ := h.cases_of_isFinite hx
  · rw [hx']
    exact abs_nonneg _
  · -- Only zero can be given the other sign.
    have hzero : q = 0 := by
      have habs := abs_nonneg q
      linarith
    subst hzero
    exact (h.value_eq_zero hx).ge

/-- The opposite of a rounded count is the count rounded with the other sign. -/
theorem neg_ofUnits (negative : Bool) (num den : Nat) :
    (ofUnits negative num den).neg = ofUnits (!negative) num den := by
  unfold ofUnits
  simp only
  split
  · rfl
  · split <;> rfl

/-- The opposite double is nearest to the opposite number. -/
theorem IsNearest.neg (h : x.IsNearest q) : x.neg.IsNearest (-q) := by
  obtain ⟨negative, num, den, hden, hq, rfl⟩ := h
  refine ⟨!negative, num, den, hden, ?_, neg_ofUnits negative num den⟩
  rw [neg_mul, neg_mul, hq]
  cases negative <;> simp [signed]

/-- What is not positive is not rounded to a positive number. -/
theorem IsNearest.value_nonpos (h : x.IsNearest q) (hx : x.isFinite = true) (hq : q ≤ 0) :
    x.value ≤ 0 := by
  obtain ⟨hfinite, hvalue⟩ := value_neg hx
  have hnonneg := h.neg.value_nonneg hfinite (neg_nonneg.mpr hq)
  rw [hvalue] at hnonneg
  exact neg_nonneg.mp hnonneg

/-- A larger number is not rounded to a smaller one. -/
theorem IsNearest.value_le (hxq : x.IsNearest q) (hyr : y.IsNearest r) (hx : x.isFinite = true)
    (hy : y.isFinite = true) (h : q ≤ r) : x.value ≤ y.value := by
  rcases le_total 0 q with hq | hq
  · have hle := hxq.abs_value_le hyr hx hy (abs_le_abs_of_nonneg hq h)
    rwa [abs_of_nonneg (hxq.value_nonneg hx hq),
      abs_of_nonneg (hyr.value_nonneg hy (hq.trans h))] at hle
  · rcases le_total 0 r with hr | hr
    · exact (hxq.value_nonpos hx hq).trans (hyr.value_nonneg hy hr)
    · have hle := hyr.abs_value_le hxq hy hx (abs_le_abs_of_nonpos hr h)
      rw [abs_of_nonpos (hxq.value_nonpos hx hq), abs_of_nonpos (hyr.value_nonpos hy hr)] at hle
      exact neg_le_neg_iff.mp hle

/-- The double of a quotient without a sign is not negative. -/
theorem value_ofRatio_nonneg {num den : Nat} (hden : 0 < den)
    (hfinite : (ofRatio false num den).isFinite = true) : 0 ≤ (ofRatio false num den).value := by
  refine (isNearest_ofRatio false num hden).value_nonneg hfinite ?_
  have hnum : ((signed false num : Int) : ℚ) = num := rfl
  rw [hnum]
  positivity

/-- Two doubles that are nearest to one number are the same, unless that is zero. -/
theorem IsNearest.eq_of_ne_zero (hxq : x.IsNearest q) (hyq : y.IsNearest q) (hq : q ≠ 0) :
    x = y := by
  obtain ⟨negative, num, den, hden, hnum, rfl⟩ := hxq
  obtain ⟨negative', num', den', hden', hnum', rfl⟩ := hyq
  have hpos := abs_pos.mpr hq
  have hsign : negative = negative' := by
    have h := eq_abs_of_signed hden hnum
    have h' := eq_abs_of_signed hden' hnum'
    cases negative with
    | false =>
      cases negative' with
      | false => rfl
      | true =>
        simp only [Bool.false_eq_true, if_false, if_true] at h h'
        linarith
    | true =>
      cases negative' with
      | false =>
        simp only [Bool.false_eq_true, if_false, if_true] at h h'
        linarith
      | true => rfl
  have hquotient : num * den' = num' * den := by
    have hcounts : (num * den' : ℚ) = num' * den := by
      rw [← abs_mul_of_signed hnum, ← abs_mul_of_signed hnum']
      ring
    exact_mod_cast hcounts
  rw [hsign, ← ofUnits_scale hden' negative' num den, hquotient, Nat.mul_comm den den',
    ofUnits_scale hden]

/-- The doubles that are nearest to one number have one value. -/
theorem IsNearest.value_eq (hxq : x.IsNearest q) (hyq : y.IsNearest q) (hx : x.isFinite = true)
    (hy : y.isFinite = true) : x.value = y.value := by
  by_cases hzero : q = 0
  · subst hzero
    rw [hxq.value_eq_zero hx, hyq.value_eq_zero hy]
  · rw [hxq.eq_of_ne_zero hyq hzero]

/-- A double nearest to a number that is not larger than one which is rounded to a finite
double is finite. -/
theorem IsNearest.isFinite_of_abs_le (hxq : x.IsNearest q) (hyr : y.IsNearest r)
    (hy : y.isFinite = true) (h : |q| ≤ |r|) : x.isFinite = true := by
  obtain ⟨negative, num, den, hden, hq, rfl⟩ := hxq
  obtain ⟨negative', num', den', hden', hr, rfl⟩ := hyr
  refine isFinite_ofUnits_of_le hden hden' ?_ hy
  exact num_mul_le (abs_mul_of_signed hq) (abs_mul_of_signed hr) h

/-- A double is finite if it is nearest to a number up to half a place above the largest
double. -/
theorem IsNearest.isFinite_iff (h : x.IsNearest q) :
    x.isFinite = true ↔ |q| < 2 ^ 1024 - 2 ^ 970 := by
  obtain ⟨negative, num, den, hden, hq, rfl⟩ := h
  obtain ⟨j, hj⟩ : ∃ j, j = 1074 := ⟨_, rfl⟩
  obtain ⟨k, hk⟩ : ∃ k, k = 970 := ⟨_, rfl⟩
  have hone : (unitsPerOne : ℚ) = 2 ^ j := by exact_mod_cast unitsPerOne_eq hj
  have hbound : (2 : ℚ) ^ 1024 - 2 ^ 970 = 18014398509481983 * 2 ^ k := by
    rw [show 1024 = 54 + k by omega, ← hk, pow_add]
    ring
  have hplace : (0 : ℚ) < 2 ^ j * den := by positivity
  have hq := abs_mul_of_signed hq
  rw [isFinite_ofUnits_iff_lt hden negative (show k + j = 2044 by omega), hbound,
    ← mul_lt_mul_iff_left₀ hplace, ← hone, hq, hone, ← @Nat.cast_lt ℚ]
  push_cast
  rw [pow_add, mul_assoc, mul_assoc, mul_assoc]

/-- Numbers far below the largest double are rounded to finite doubles. -/
theorem IsNearest.isFinite_of_le (h : x.IsNearest q) (hq : |q| ≤ 10 ^ 30) : x.isFinite = true := by
  obtain ⟨k, hk⟩ : ∃ k, k = 970 := ⟨_, rfl⟩
  have hpow : (2 : ℚ) ^ 100 ≤ 2 ^ k := pow_le_pow_right₀ (by norm_num) (by omega)
  rw [h.isFinite_iff, show 1024 = 54 + k by omega, ← hk, pow_add]
  norm_num at hq hpow ⊢
  linarith

/-- The integers without a double in their place are those from half a place above the
largest double on. -/
theorem ofInt?_eq_none_iff {n : Int} :
    ofInt? n = none ↔ (2 : ℚ) ^ 1024 - 2 ^ 970 ≤ |(n : ℚ)| := by
  rw [← not_lt, ← (isNearest_nearestInt n).isFinite_iff, ofInt?_eq]
  split
  · rename_i hfinite
    simp [hfinite]
  · rename_i hinfinite
    simp [hinfinite]

/-- A double that is nearest to a number and not finite is an infinity. -/
theorem IsNearest.eq_infinity (h : x.IsNearest q) (hx : ¬ x.isFinite = true) :
    ∃ negative, x = .infinity negative := by
  obtain ⟨negative, num, den, hden, -, rfl⟩ := h
  rcases ofUnits_finite_or hden negative with ⟨hfinite, -⟩ | ⟨hinfinity, -⟩
  · exact absurd hfinite hx
  · exact ⟨negative, hinfinity⟩

/-- Whole numbers with up to 53 binary digits are doubles. -/
theorem nearestInt_of_lt {n : Int} (h : n.natAbs < 9007199254740992) :
    (nearestInt n).isFinite = true ∧ (nearestInt n).value = n := by
  obtain ⟨j, hj⟩ : ∃ j, j = 1074 := ⟨_, rfl⟩
  have hone := unitsPerOne_eq hj
  have hexact : nearestUnits (n.natAbs * unitsPerOne) 1 = n.natAbs * unitsPerOne := by
    refine nearestUnits_of_dvd ?_
    by_cases hzero : n.natAbs = 0
    · rw [hzero, Nat.zero_mul]
      exact Nat.dvd_zero _
    · have hlt : n.natAbs * 2 ^ j < 2 ^ (53 + j) := by
        rw [Nat.pow_add]
        exact Nat.mul_lt_mul_of_pos_right h (Nat.two_pow_pos j)
      have hlog := (Nat.log2_lt (Nat.mul_ne_zero hzero (Nat.two_pow_pos j).ne')).mpr hlt
      rw [hone]
      exact Nat.dvd_mul_left_of_dvd (Nat.pow_dvd_pow 2 (by omega)) _
  have hnearest : nearestInt n = ofUnits (n < 0) (n.natAbs * unitsPerOne) 1 := by
    rw [nearestInt, ofRatio_eq]
  have hfinite : (nearestInt n).isFinite = true := by
    rw [hnearest]
    refine (magnitude_ofUnits_le (by decide) (show 53 + j < 2098 by omega) ?_ _).1
    rw [hone, Nat.mul_one, Nat.pow_add]
    exact Nat.mul_le_mul_right _ (Nat.le_of_lt h)
  refine ⟨hfinite, ?_⟩
  have hunits : (nearestInt n).units = n * unitsPerOne := by
    rw [hnearest] at hfinite ⊢
    rw [units_ofUnits hfinite, magnitude_ofUnits hfinite (by decide), hexact, signed_mul_natCast,
      signed_natAbs]
  rw [value, hunits]
  push_cast
  exact mul_div_cancel_right₀ _ unitsPerOne_rat_pos.ne'

/-- A finite double is equal to an integer if that is its value. -/
theorem toInt?_eq_some_iff {n : Int} : x.toInt? = some n ↔ x.isFinite = true ∧ x.value = n := by
  have hvalue : x.value = n ↔ x.units = n * unitsPerOne := by
    rw [value, div_eq_iff unitsPerOne_rat_pos.ne']
    exact_mod_cast Iff.rfl
  rw [hvalue]
  cases x with
  | finite negative m s hcanonical =>
    simp only [toInt?, units, isFinite, true_and]
    generalize m <<< s = count
    constructor
    · intro h
      split at h
      · rename_i hwhole
        cases h
        rw [← signed_mul_natCast, Nat.div_mul_cancel (Nat.dvd_of_mod_eq_zero hwhole)]
      · cases h
    · intro h
      have hcount : count = n.natAbs * unitsPerOne := by
        rw [← natAbs_signed negative count, h, Int.natAbs_mul, Int.natAbs_natCast]
      have hone : (unitsPerOne : Int) ≠ 0 := by
        have := unitsPerOne_pos
        omega
      rw [hcount, signed_mul_natCast] at h
      rw [hcount, Nat.mul_mod_left, if_pos rfl, Nat.mul_div_cancel _ unitsPerOne_pos,
        Int.eq_of_mul_eq_mul_right hone h]
  | nan => simp [toInt?, isFinite]
  | infinity negative => simp [toInt?, isFinite]

/-- A finite double stands where its units are. -/
theorem level?_of_isFinite (hx : x.isFinite = true) : x.level? = some (.at x.units) := by
  cases x with
  | finite negative m s hcanonical => rfl
  | nan => cases hx
  | infinity negative => cases hx

/-- Finite doubles are ordered by their values. -/
theorem lt_iff_of_isFinite (hx : x.isFinite = true) (hy : y.isFinite = true) :
    x.lt y = true ↔ x.value < y.value := by
  simp only [Double.lt, level?_of_isFinite hx, level?_of_isFinite hy, Level.lt, decide_eq_true_eq]
  rw [value, value, div_lt_div_iff_of_pos_right unitsPerOne_rat_pos, Int.cast_lt]

/-- A finite double is not below zero if its value is not. -/
theorem lt_zero_eq_false_iff (hx : x.isFinite = true) : x.lt (zero false) = false ↔ 0 ≤ x.value := by
  have hzero : (zero false).isFinite = true := rfl
  rw [← not_iff_not, Bool.not_eq_false, lt_iff_of_isFinite hx hzero, value_zero, not_le]

/-- What a finite double is equal to is finite. -/
theorem isFinite_of_eq (h : x.eq y = true) (hx : x.isFinite = true) : y.isFinite = true := by
  rw [Double.eq, level?_of_isFinite hx] at h
  cases y with
  | finite negative m s hcanonical => rfl
  | nan => cases h
  | infinity negative => cases negative <;> cases h

/-- Finite doubles are equal if their values are. -/
theorem eq_iff_of_isFinite (hx : x.isFinite = true) (hy : y.isFinite = true) :
    x.eq y = true ↔ x.value = y.value := by
  have hone := unitsPerOne_rat_pos.ne'
  simp only [Double.eq, level?_of_isFinite hx, level?_of_isFinite hy, decide_eq_true_eq,
    Level.at.injEq]
  rw [value, value, div_left_inj' hone, Int.cast_inj]

/-- Finite doubles are in order, or equal, if their values are. -/
theorem le_iff_of_isFinite (hx : x.isFinite = true) (hy : y.isFinite = true) :
    x.le y = true ↔ x.value ≤ y.value := by
  rw [Double.le, Bool.or_eq_true, lt_iff_of_isFinite hx hy, eq_iff_of_isFinite hx hy,
    le_iff_lt_or_eq]

end Double

end Loyalty
