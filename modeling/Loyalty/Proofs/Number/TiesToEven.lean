import Loyalty.Proofs.Number.Values

/-!
# To the nearest double, ties to even

`Double.ofUnits` works out which double a quotient is rounded to. No finite double is nearer to
the quotient, and if another one is as near, the mantissa of the one it is rounded to is even.
From half a place above the largest double on it is rounded to an infinity.

The last place of a quotient decides where the doubles around it are. A double is a multiple of
that place, or it is below all full mantissas of the place and so farther away than the smallest
of these. Which double is nearest, and what a tie is, are therefore facts about the multiples of
one place.
-/

namespace Loyalty

/-- A multiple that is exactly half a unit away from a quotient rounded to it is even. -/
theorem even_roundQuotient_of_half {num den : Nat} (hden : 0 < den)
    (h : 2 * (roundQuotient .toEven num den * den) = 2 * num + den ∨
      2 * num = 2 * (roundQuotient .toEven num den * den) + den) :
    roundQuotient .toEven num den % 2 = 0 := by
  have hmod := Nat.mod_lt num hden
  have hfloor := Nat.div_add_mod' num den
  have hceil := Nat.add_one_mul (num / den) den
  unfold roundQuotient at h ⊢
  split at h
  · exfalso
    omega
  · rename_i hhigh
    rw [if_neg hhigh]
    split at h
    · exfalso
      omega
    · rename_i hlow
      rw [if_neg hlow]
      simp only
      omega

/-- Another multiple of a unit than the one that a quotient is rounded to is no nearer, and if it
is as near, both are half a unit away. -/
theorem roundQuotient_nearest_of_ne (tie : Tie) {num den : Nat} (hden : 0 < den) {k : Nat}
    (hne : k ≠ roundQuotient tie num den) :
    ((roundQuotient tie num den * den : Nat) - num : Int).natAbs ≤
        ((k * den : Nat) - num : Int).natAbs ∧
      (((k * den : Nat) - num : Int).natAbs =
          ((roundQuotient tie num den * den : Nat) - num : Int).natAbs →
        2 * (roundQuotient tie num den * den) = 2 * num + den ∨
          2 * num = 2 * (roundQuotient tie num den * den) + den) := by
  have hdown := two_mul_roundQuotient_le tie num den
  have hup := two_mul_le_two_mul_roundQuotient_add tie num den hden
  generalize roundQuotient tie num den = r at hne hdown hup ⊢
  rcases Nat.lt_or_gt_of_ne hne with hlt | hgt
  · have hmul := Nat.mul_le_mul_right den (show k + 1 ≤ r from hlt)
    rw [Nat.succ_mul] at hmul
    omega
  · have hmul := Nat.mul_le_mul_right den (show r + 1 ≤ k from hgt)
    rw [Nat.succ_mul] at hmul
    omega

/-- No multiple of a unit is nearer to a quotient than the one that it is rounded to. -/
theorem roundQuotient_nearest (tie : Tie) {num den : Nat} (hden : 0 < den) (k : Nat) :
    ((roundQuotient tie num den * den : Nat) - num : Int).natAbs ≤
      ((k * den : Nat) - num : Int).natAbs := by
  by_cases hne : k = roundQuotient tie num den
  · rw [hne]
  · exact (roundQuotient_nearest_of_ne tie hden hne).1

/-- If another multiple is as near, the one that the quotient is rounded to is even. -/
theorem even_roundQuotient_of_tie {num den : Nat} (hden : 0 < den) {k : Nat}
    (hne : k ≠ roundQuotient .toEven num den)
    (h : ((k * den : Nat) - num : Int).natAbs =
      ((roundQuotient .toEven num den * den : Nat) - num : Int).natAbs) :
    roundQuotient .toEven num den % 2 = 0 :=
  even_roundQuotient_of_half hden ((roundQuotient_nearest_of_ne .toEven hden hne).2 h)

namespace Double

/-- A finite double is a multiple of a place, or it is below the full mantissas of the place. -/
theorem dvd_magnitude_or_lt {y : Double} (hy : y.isFinite = true) (s : Nat) :
    2 ^ s ∣ y.magnitude ∨ 0 < s ∧ y.magnitude < 4503599627370496 * 2 ^ s := by
  cases y with
  | finite negative m t hcanonical =>
    rw [magnitude_finite]
    rcases Nat.lt_or_ge t s with hlt | hle
    · refine .inr ⟨by omega, ?_⟩
      calc m * 2 ^ t < 9007199254740992 * 2 ^ t :=
            Nat.mul_lt_mul_of_pos_right hcanonical.1 (Nat.two_pow_pos t)
        _ = 4503599627370496 * 2 ^ (t + 1) := by rw [Nat.pow_succ]; ring
        _ ≤ 4503599627370496 * 2 ^ s :=
            Nat.mul_le_mul_left _ (Nat.pow_le_pow_right (by decide) hlt)
    · exact .inl (Nat.dvd_mul_left_of_dvd (Nat.pow_dvd_pow 2 hle) m)
  | nan => cases hy
  | infinity negative => cases hy

/-- No magnitude of a finite double is nearer to a quotient than the count it is rounded to, and
if another one is as near, the multiple of the last place is even. -/
theorem nearestUnits_nearest {num den : Nat} (hden : 0 < den) {y : Double}
    (hy : y.isFinite = true) :
    ((nearestUnits num den * den : Nat) - num : Int).natAbs ≤
        ((y.magnitude * den : Nat) - num : Int).natAbs ∧
      (y.magnitude ≠ nearestUnits num den →
        ((y.magnitude * den : Nat) - num : Int).natAbs =
          ((nearestUnits num den * den : Nat) - num : Int).natAbs →
        roundQuotient .toEven num (2 ^ ((num / den).log2 - 52) * den) % 2 = 0) := by
  have hfull : ∀ s, (num / den).log2 - 52 = s → 0 < s →
      4503599627370496 * (2 ^ s * den) ≤ num := fun s hs => le_of_lastPlace hden hs
  rw [nearestUnits]
  generalize (num / den).log2 - 52 = s at hfull ⊢
  have hfull := hfull s rfl
  have hplace := Nat.mul_pos (Nat.two_pow_pos s) hden
  have hnearest := @roundQuotient_nearest .toEven num _ hplace
  have hties := @even_roundQuotient_of_tie num _ hplace
  generalize roundQuotient .toEven num (2 ^ s * den) = r at hnearest hties ⊢
  rw [Nat.mul_assoc]
  rcases dvd_magnitude_or_lt hy s with ⟨k, hk⟩ | ⟨hs, hlt⟩
  · rw [hk, Nat.mul_comm (2 ^ s) k, Nat.mul_assoc]
    exact ⟨hnearest k, fun hne => hties fun hkr => hne (by rw [hkr])⟩
  · -- The smallest full mantissa lies between the double and the quotient.
    have hle := hnearest 4503599627370496
    have hbelow := Nat.mul_lt_mul_of_pos_right hlt hden
    rw [Nat.mul_assoc] at hbelow
    have hfull := hfull hs
    generalize r * (2 ^ s * den) = a at hle ⊢
    generalize 4503599627370496 * (2 ^ s * den) = b at hle hbelow hfull
    generalize y.magnitude * den = c at hbelow ⊢
    exact ⟨by omega, fun _ heq => by omega⟩

/-- Whether a double has a minus; not-a-number has none. -/
def isNegative : Double → Bool
  | .nan => false
  | .infinity negative => negative
  | .finite negative _ _ _ => negative

/-- A finite double whose mantissa ends in a binary zero. -/
def IsEven : Double → Prop
  | .finite _ mantissa _ _ => mantissa % 2 = 0
  | _ => False

/-- Rounding keeps the sign, on zero too. -/
theorem isNegative_ofUnits (negative : Bool) (num den : Nat) :
    (ofUnits negative num den).isNegative = negative := by
  unfold ofUnits
  simp only
  split
  · rfl
  · split <;> rfl

/-- The value of a finite double has its sign. -/
theorem value_eq_abs {x : Double} (hx : x.isFinite = true) :
    x.value = if x.isNegative then -|x.value| else |x.value| := by
  cases x with
  | finite negative m s hcanonical =>
    have hunits : (finite negative m s hcanonical).value * unitsPerOne * (1 : Nat) =
        signed negative (m <<< s) := by
      rw [value_mul, Nat.cast_one, mul_one]
      rfl
    exact eq_abs_of_signed (by decide) hunits
  | nan => cases hx
  | infinity negative => cases hx

/-- Finite doubles of one sign and one magnitude are the same, unless they are zero. -/
theorem eq_of_abs_value_eq {x y : Double} (hx : x.isFinite = true) (hy : y.isFinite = true)
    (hne : y.value ≠ 0) (hsign : x.isNegative = y.isNegative) (h : |x.value| = |y.value|) :
    x = y := by
  have hvalue : x.value = y.value := by
    rw [value_eq_abs hx, value_eq_abs hy, hsign, h]
  have hnearest := isNearest_value hx
  rw [hvalue] at hnearest
  exact hnearest.eq_of_ne_zero (isNearest_value hy) hne

/-- A double is even if its multiple of the last place is. -/
theorem isEven_ofUnits {negative : Bool} {num den : Nat}
    (hfinite : (ofUnits negative num den).isFinite = true)
    (h : roundQuotient .toEven num (2 ^ ((num / den).log2 - 52) * den) % 2 = 0) :
    (ofUnits negative num den).IsEven := by
  have hplace : ∀ s, den <<< s = 2 ^ s * den := fun s => by rw [Nat.shiftLeft_eq, Nat.mul_comm]
  simp only [ofUnits, hplace] at hfinite ⊢
  split
  · exact h
  · split
    · rfl
    · simp_all [isFinite]

/-- A double has the sign of its units. -/
theorem exists_units_eq (y : Double) : ∃ negative, y.units = signed negative y.magnitude := by
  refine ⟨decide (y.units < 0), ?_⟩
  rw [magnitude, signed_natAbs]

/-- Counts of one sign are as far apart as their magnitudes, and counts of opposite signs as far
as both magnitudes together. -/
theorem natAbs_signed_sub (negative negative' : Bool) (m n : Nat) :
    (signed negative m - signed negative' n).natAbs =
      if negative = negative' then ((m : Int) - n).natAbs else m + n := by
  cases negative <;> cases negative' <;> simp [signed] <;> omega

/-- No finite double is nearer to a quotient of units with a sign than the one it is rounded to,
and if another one is as near, that one is even. -/
theorem units_ofUnits_nearest {negative : Bool} {num den : Nat} (hden : 0 < den)
    (hfinite : (ofUnits negative num den).isFinite = true) {y : Double}
    (hy : y.isFinite = true) :
    ((ofUnits negative num den).units * den - signed negative num).natAbs ≤
        (y.units * den - signed negative num).natAbs ∧
      (y.units ≠ (ofUnits negative num den).units →
        (y.units * den - signed negative num).natAbs =
          ((ofUnits negative num den).units * den - signed negative num).natAbs →
        (ofUnits negative num den).IsEven) := by
  have heven := isEven_ofUnits hfinite
  obtain ⟨negative', hunits⟩ := y.exists_units_eq
  rw [units_ofUnits hfinite, magnitude_ofUnits hfinite hden, hunits, ← signed_mul_natCast,
    ← signed_mul_natCast, natAbs_signed_sub, natAbs_signed_sub, if_pos rfl]
  by_cases hsign : negative' = negative
  · obtain ⟨hle, hties⟩ := @nearestUnits_nearest num den hden y hy
    rw [if_pos hsign]
    exact ⟨hle, fun hne heq => heven (hties (fun h => hne (by rw [hsign, h])) heq)⟩
  · -- A double of the other sign is no nearer than zero.
    obtain ⟨hle, hties⟩ := @nearestUnits_nearest num den hden (zero false) rfl
    have hzero : ((((zero false).magnitude * den : Nat) : Int) - num).natAbs = num := by
      rw [show (zero false).magnitude = 0 from rfl, Nat.zero_mul]
      omega
    rw [hzero] at hle hties
    rw [if_neg hsign]
    refine ⟨hle.trans (Nat.le_add_left _ _), fun hne heq => heven (hties ?_ (by omega))⟩
    intro hcount
    have hmagnitude : y.magnitude * den = 0 := by omega
    have hnone : y.magnitude = 0 := (Nat.mul_eq_zero.mp hmagnitude).resolve_right hden.ne'
    refine hne ?_
    rw [hnone, ← hcount, show (zero false).magnitude = 0 from rfl]
    cases negative <;> cases negative' <;> rfl

/-- What an exact value is rounded to, which is given with the sign that it is written with.
A finite double has that sign, no other finite double is nearer to the value, and if one is as
near, the mantissa is even. An infinity stands for the values from half a place above the largest
double on. -/
inductive IsRounding (negative : Bool) (q : ℚ) : Double → Prop where
  | finite {x : Double} (hx : x.isFinite = true) (hsign : x.isNegative = negative)
    (hrange : |q| < 2 ^ 1024 - 2 ^ 970)
    (nearest : ∀ y : Double, y.isFinite = true → |x.value - q| ≤ |y.value - q|)
    (even : ∀ y : Double, y.isFinite = true → y.value ≠ x.value →
      |y.value - q| = |x.value - q| → x.IsEven) : IsRounding negative q x
  | infinity (hrange : 2 ^ 1024 - 2 ^ 970 ≤ |q|) : IsRounding negative q (.infinity negative)

/-- The distance of a double from an exact value is a distance of counts. -/
private theorem abs_value_sub_mul {y : Double} {q : ℚ} {negative : Bool} {num den : Nat}
    (hq : q * unitsPerOne * den = signed negative num) :
    |y.value - q| * (unitsPerOne * den) =
      ((y.units * den - signed negative num).natAbs : ℚ) := by
  have hpos : (0 : ℚ) ≤ unitsPerOne * den := by positivity
  rw [← abs_of_nonneg hpos, ← abs_mul, sub_mul, ← mul_assoc, value_mul, ← mul_assoc, hq,
    Nat.cast_natAbs]
  push_cast
  rfl

/-- A quotient of units with a sign is rounded to the nearest double. -/
theorem isRounding_ofUnits {q : ℚ} {negative : Bool} {num den : Nat} (hden : 0 < den)
    (hq : q * unitsPerOne * den = signed negative num) :
    IsRounding negative q (ofUnits negative num den) := by
  have hnearest : (ofUnits negative num den).IsNearest q := ⟨negative, num, den, hden, hq, rfl⟩
  by_cases hfinite : (ofUnits negative num den).isFinite = true
  · have hone : (0 : ℚ) < unitsPerOne := by exact_mod_cast unitsPerOne_pos
    have hplace : (0 : ℚ) < unitsPerOne * den := mul_pos hone (by exact_mod_cast hden)
    have hdistance : ∀ y : Double, |y.value - q| * (unitsPerOne * den) =
        ((y.units * den - signed negative num).natAbs : ℚ) := fun y => abs_value_sub_mul hq
    refine .finite hfinite (isNegative_ofUnits negative num den)
      (hnearest.isFinite_iff.mp hfinite) (fun y hy => ?_) fun y hy hne htie => ?_
    · obtain ⟨hle, -⟩ := units_ofUnits_nearest hden hfinite hy
      rw [← mul_le_mul_iff_left₀ hplace, hdistance, hdistance]
      exact_mod_cast hle
    · obtain ⟨-, hties⟩ := units_ofUnits_nearest hden hfinite hy
      refine hties (fun hunits => hne (by rw [value, value, hunits])) ?_
      rw [← mul_left_inj' hplace.ne', hdistance, hdistance] at htie
      exact_mod_cast htie
  · have hinfinity : ofUnits negative num den = .infinity negative :=
      ((ofUnits_finite_or hden negative).resolve_left fun h => hfinite h.1).1
    rw [hinfinity]
    refine .infinity (not_lt.mp fun hlt => hfinite ?_)
    exact hnearest.isFinite_iff.mpr hlt

/-- The double of a quotient is what the quotient is rounded to. -/
theorem isRounding_ofRatio (negative : Bool) (num : Nat) {den : Nat} (hden : 0 < den) :
    IsRounding negative ((signed negative num : Int) / den) (ofRatio negative num den) := by
  rw [ofRatio_eq]
  refine isRounding_ofUnits hden ?_
  have hne : (den : ℚ) ≠ 0 := by exact_mod_cast hden.ne'
  rw [signed_mul_natCast, Int.cast_mul, Int.cast_natCast]
  field_simp

/-- No value is rounded to not-a-number. -/
theorem IsRounding.ne_nan {negative : Bool} {q : ℚ} {x : Double} (h : IsRounding negative q x) :
    x ≠ .nan := by
  rintro rfl
  cases h with
  | finite hx => cases hx

end Double

/-- The double of a decimal has its sign. -/
theorem Decimal.isNegative_toDouble (d : Decimal) : d.toDouble.isNegative = d.negative := by
  rw [toDouble_eq, Double.ofRatio, Double.isNegative_ofUnits]

/-- The double of a decimal is what its value is rounded to. -/
theorem Decimal.isRounding_toDouble (d : Decimal) :
    Double.IsRounding d.negative d.value d.toDouble := by
  rw [toDouble_eq, value_eq]
  exact Double.isRounding_ofRatio d.negative d.numerator d.denominator_pos

end Loyalty
