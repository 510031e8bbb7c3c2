import Loyalty.Number.Shortest
import Loyalty.Proofs.Number.Decimal

/-!
# Shortest decimals read back

On the grid of the seventeenth digit the whole multiple nearest to a double is
less than half of its last place away from it, so it is read back as the double.
The search for the shortest decimal therefore always ends with one that is.
-/

namespace Loyalty

/-- A natural has at most `k` digits exactly when it is below the `k`-th power. -/
theorem digitCount_le_iff {n k : Nat} (hk : 0 < k) : digitCount n ≤ k ↔ n < 10 ^ k :=
  Nat.length_toDigits_le_iff (by decide) hk

/-- A natural has a digit. -/
theorem digitCount_pos (n : Nat) : 0 < digitCount n := Nat.length_toDigits_pos

/-- A natural is below the power of ten of its digits. -/
theorem lt_pow_digitCount (n : Nat) : n < 10 ^ digitCount n :=
  (digitCount_le_iff (digitCount_pos n)).mp (Nat.le_refl _)

/-- A positive natural reaches the power of ten of its leading digit. -/
theorem pow_le_of_pos {n : Nat} (hn : 0 < n) : 10 ^ (digitCount n - 1) ≤ n := by
  by_contra hlt
  have hlt : n < 10 ^ (digitCount n - 1) := by omega
  rcases Nat.eq_zero_or_pos (digitCount n - 1) with hzero | hpos
  · rw [hzero, Nat.pow_zero] at hlt
    omega
  · have := (digitCount_le_iff hpos).mpr hlt
    omega

/-- A power of ten has one digit more than its exponent. -/
theorem digitCount_pow {k : Nat} (hk : 0 < k) : digitCount ((10 : Int) ^ k).natAbs = k + 1 := by
  rw [Int.natAbs_pow]
  refine Nat.le_antisymm ?_ ?_
  · rw [digitCount_le_iff (Nat.succ_pos k)]
    exact Nat.pow_lt_pow_right (by decide) (Nat.lt_succ_self k)
  · by_contra hle
    have hlt := (digitCount_le_iff hk).mp (show digitCount (10 ^ k) ≤ k from Nat.le_of_not_lt hle)
    exact absurd hlt (Nat.lt_irrefl _)

/-- A quotient is at least the power of ten of its leading exponent. -/
theorem pow_leadingExponent_le {num den : Nat} (hnum : 0 < num) (hden : 0 < den) :
    den * 10 ^ (leadingExponent num den).toNat ≤ num * 10 ^ (-leadingExponent num den).toNat := by
  unfold leadingExponent
  split
  · rename_i hle
    have hpos : 0 < num / den := Nat.div_pos hle hden
    have hdigit := digitCount_pos (num / den)
    have hexponent : ((digitCount (num / den) : Int) - 1).toNat = digitCount (num / den) - 1 := by
      omega
    have hneg : (-((digitCount (num / den) : Int) - 1)).toNat = 0 := by omega
    rw [hexponent, hneg, Nat.pow_zero, Nat.mul_one, Nat.mul_comm]
    exact (Nat.le_div_iff_mul_le hden).mp (pow_le_of_pos hpos)
  · have hexponent : (-(digitCount ((den - 1) / num) : Int)).toNat = 0 := by omega
    have hneg : (-(-(digitCount ((den - 1) / num) : Int))).toNat = digitCount ((den - 1) / num) := by
      omega
    have hlt := (Nat.div_lt_iff_lt_mul hnum).mp (lt_pow_digitCount ((den - 1) / num))
    rw [hexponent, hneg, Nat.pow_zero, Nat.mul_one, Nat.mul_comm num]
    omega

/-- A quotient is less than the power of ten of the place before its leading digit. -/
theorem lt_pow_leadingExponent {num den : Nat} (hnum : 0 < num) (hden : 0 < den) :
    num * 10 ^ (-(leadingExponent num den + 1)).toNat <
      den * 10 ^ (leadingExponent num den + 1).toNat := by
  unfold leadingExponent
  split
  · rename_i hle
    have hexponent : ((digitCount (num / den) : Int) - 1 + 1).toNat = digitCount (num / den) := by
      omega
    have hneg : (-((digitCount (num / den) : Int) - 1 + 1)).toNat = 0 := by omega
    rw [hexponent, hneg, Nat.pow_zero, Nat.mul_one, Nat.mul_comm]
    exact (Nat.div_lt_iff_lt_mul hden).mp (lt_pow_digitCount (num / den))
  · have hpos : 0 < (den - 1) / num := Nat.div_pos (by omega) hnum
    have hdigit := digitCount_pos ((den - 1) / num)
    have hexponent : (-(digitCount ((den - 1) / num) : Int) + 1).toNat = 0 := by omega
    have hneg : (-(-(digitCount ((den - 1) / num) : Int) + 1)).toNat =
        digitCount ((den - 1) / num) - 1 := by omega
    have hle := (Nat.le_div_iff_mul_le hnum).mp (pow_le_of_pos hpos)
    rw [hexponent, hneg, Nat.pow_zero, Nat.mul_one, Nat.mul_comm]
    omega

/-- Counting in multiples of a power of ten is a division by it. -/
theorem gridQuotient_eq (num den : Nat) (exponent : Int) :
    gridQuotient num den exponent =
      (num * 10 ^ (-exponent).toNat, den * 10 ^ exponent.toNat) := by
  unfold gridQuotient
  split
  · have hneg : (-exponent).toNat = 0 := by omega
    rw [hneg, Nat.pow_zero, Nat.mul_one]
    rfl
  · have hpos : exponent.toNat = 0 := by omega
    have habs : exponent.natAbs = (-exponent).toNat := by omega
    rw [hpos, habs, Nat.pow_zero, Nat.mul_one]
    rfl

/-- On the grid of the seventeenth digit a quotient is at least `10 ^ 16` steps. -/
private theorem grid_le {num den : Nat} (hnum : 0 < num) (hden : 0 < den) {leading : Int}
    (hleading : leading = leadingExponent num den) :
    10 ^ 16 * (den * 10 ^ (leading - 16).toNat) ≤ num * 10 ^ (-(leading - 16)).toNat := by
  have hspec := pow_leadingExponent_le hnum hden
  rw [← hleading] at hspec
  have hexponents : 16 + (leading - 16).toNat + (-leading).toNat =
      leading.toNat + (-(leading - 16)).toNat := by omega
  refine Nat.le_of_mul_le_mul_right ?_ (show 0 < 10 ^ (-leading).toNat from Nat.pow_pos (by decide))
  calc 10 ^ 16 * (den * 10 ^ (leading - 16).toNat) * 10 ^ (-leading).toNat
      = den * 10 ^ (16 + (leading - 16).toNat + (-leading).toNat) := by
        rw [Nat.pow_add, Nat.pow_add]
        ring
    _ = den * 10 ^ leading.toNat * 10 ^ (-(leading - 16)).toNat := by
        rw [hexponents, Nat.pow_add, Nat.mul_assoc]
    _ ≤ num * 10 ^ (-leading).toNat * 10 ^ (-(leading - 16)).toNat :=
        Nat.mul_le_mul_right _ hspec
    _ = num * 10 ^ (-(leading - 16)).toNat * 10 ^ (-leading).toNat := Nat.mul_right_comm _ _ _

namespace Double

/-- The magnitude of a finite double in units. -/
theorem magnitude_finite (negative : Bool) (m s : Nat) (h : Canonical m s) :
    magnitude (.finite negative m s h) = m * 2 ^ s := by
  rw [magnitude, units, signed, Nat.shiftLeft_eq]
  generalize m * 2 ^ s = n
  split <;> omega

/-- The nearest multiple on the grid of the seventeenth digit is read back. -/
private theorem toDouble_seventeenth (negative : Bool) {m s : Nat} (hcanonical : Canonical m s)
    (hm : 0 < m) {exponent : Int}
    (hexponent : exponent = leadingExponent (m * 2 ^ s) unitsPerOne - 16) :
    Decimal.toDouble ⟨negative, roundQuotient .toEven (m * 2 ^ s * 10 ^ (-exponent).toNat)
      (unitsPerOne * 10 ^ exponent.toNat), exponent⟩ = .finite negative m s hcanonical := by
  have hone := unitsPerOne_pos
  have hgrid := grid_le (Nat.mul_pos hm (Nat.two_pow_pos s)) hone rfl
  rw [← hexponent] at hgrid
  rw [Decimal.toDouble_eq]
  simp only [Decimal.numerator, Decimal.denominator, ofRatio_eq]
  generalize unitsPerOne = one at hgrid hone ⊢
  generalize hnum : m * 2 ^ s * 10 ^ (-exponent).toNat = num at hgrid ⊢
  generalize hstep : one * 10 ^ exponent.toNat = step at hgrid ⊢
  have hstep_pos : 0 < step := by
    rw [← hstep]
    exact Nat.mul_pos hone (Nat.pow_pos (by decide))
  have hdown := two_mul_roundQuotient_le .toEven num step
  have hup := two_mul_le_two_mul_roundQuotient_add .toEven num step hstep_pos
  generalize roundQuotient .toEven num step = c at hdown hup ⊢
  have hden : 0 < 10 ^ (-exponent).toNat := Nat.pow_pos (by decide)
  have hvalue : c * 10 ^ exponent.toNat * one = c * step := by
    rw [← hstep, Nat.mul_comm one, Nat.mul_assoc]
  rw [hvalue]
  generalize 10 ^ (-exponent).toNat = den at hnum hden ⊢
  have hplace : m * (2 ^ s * den) = num := by rw [← hnum, Nat.mul_assoc]
  have hplace_pos : 0 < 2 ^ s * den := Nat.mul_pos (Nat.two_pow_pos s) hden
  have hmantissa : m * (2 ^ s * den) ≤ 9007199254740991 * (2 ^ s * den) :=
    Nat.mul_le_mul_right _ (by have := hcanonical.1; omega)
  refine ofUnits_eq_of_near hcanonical hden ?_ ?_ ?_ negative
  · omega
  · omega
  · rintro rfl
    omega

/-- A decimal found on a grid reads back as the double. -/
theorem toDouble_of_onGrid? {x : Double} {negative : Bool} {exponent : Int} {d : Decimal}
    (h : x.onGrid? negative exponent = some d) : d.toDouble = x := by
  have := List.find?_some h
  exact of_decide_eq_true this

/-- A finite double has a shortest decimal, which reads back as that double. -/
theorem exists_shortest (negative : Bool) {m s : Nat} (hcanonical : Canonical m s) :
    ∃ d, shortest? (.finite negative m s hcanonical) = some d ∧
      d.toDouble = .finite negative m s hcanonical := by
  simp only [shortest?]
  split
  · rename_i hm
    subst hm
    have hs : s = 0 := by
      have := hcanonical.2.2
      omega
    subst hs
    exact ⟨_, rfl, rfl⟩
  · rename_i hm
    have hseventeenth := toDouble_seventeenth negative hcanonical (by omega) rfl
    obtain ⟨d, hd⟩ : ∃ d, (List.range 17).findSome? (fun (n : Nat) =>
        (finite negative m s hcanonical).onGrid? negative
          (leadingExponent (finite negative m s hcanonical).magnitude unitsPerOne - n)) =
        some d := by
      rw [← Option.isSome_iff_exists, List.findSome?_isSome_iff]
      refine ⟨16, by decide, ?_⟩
      rw [onGrid?, List.find?_isSome]
      refine ⟨_, ?_, decide_eq_true hseventeenth⟩
      rw [magnitude_finite, gridNeighbours, gridQuotient_eq]
      exact List.mem_cons_self
    obtain ⟨n, _, hn⟩ := List.exists_of_findSome?_eq_some hd
    exact ⟨d, hd, toDouble_of_onGrid? hn⟩

/-- The shortest decimal of a double reads back as that double. -/
theorem toDouble_of_shortest? {x : Double} {d : Decimal} (h : x.shortest? = some d) :
    d.toDouble = x := by
  cases x with
  | finite negative m s hcanonical =>
    obtain ⟨d', hd', hread⟩ := exists_shortest negative hcanonical
    rw [h] at hd'
    cases hd'
    exact hread
  | nan => cases h
  | infinity negative => cases h

/-- The last digit of the shortest decimal is the seventeenth at most. -/
theorem le_exponent_of_shortest? {x : Double} {d : Decimal} (h : x.shortest? = some d) :
    leadingExponent x.magnitude unitsPerOne - 16 ≤ d.exponent := by
  cases x with
  | finite negative m s hcanonical =>
    simp only [shortest?] at h
    split at h
    · rename_i hm
      have hdigit := digitCount_pos ((unitsPerOne - 1) / 0)
      have hone := unitsPerOne_pos
      rw [Option.some.injEq] at h
      rw [magnitude_finite, hm, Nat.zero_mul, leadingExponent, if_neg (by omega), ← h]
      simp only
      omega
    · obtain ⟨n, hn, hgrid⟩ := List.exists_of_findSome?_eq_some h
      obtain ⟨coefficient, -, hd⟩ := List.mem_map.mp (List.mem_of_find?_eq_some hgrid)
      have hlt := List.mem_range.mp hn
      rw [← hd]
      simp only
      omega
  | nan => cases h
  | infinity negative => cases h

/-- From ten to the sixteenth on the shortest decimals are whole numbers. -/
theorem exponent_nonneg_of_shortest? {x : Double} {d : Decimal} (h : x.shortest? = some d)
    (hlarge : 10 ^ 16 * unitsPerOne ≤ x.magnitude) : 0 ≤ d.exponent := by
  have hone := unitsPerOne_pos
  have hexponent := le_exponent_of_shortest? h
  have hquotient : 10 ^ 16 ≤ x.magnitude / unitsPerOne := (Nat.le_div_iff_mul_le hone).mpr hlarge
  have hdigits : 16 < digitCount (x.magnitude / unitsPerOne) := by
    by_contra hfew
    have hlt := (digitCount_le_iff (by decide)).mp (Nat.le_of_not_lt hfew)
    omega
  rw [leadingExponent, if_pos (by omega)] at hexponent
  omega

end Double

end Loyalty
