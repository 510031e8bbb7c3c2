import Loyalty.Number.Double
import Mathlib.Tactic.Linarith
import Mathlib.Tactic.Ring

/-!
# Rounding to a double

What `Double.ofUnits` gives depends on the quotient alone, and a double is what
every quotient near it is rounded to. Near means less than half of the last
place, and less than a quarter below a power of two, where the places get finer.
-/

namespace Loyalty

/-- A quotient less than half a unit away from a whole number is rounded to it. -/
theorem roundQuotient_eq_of_near {tie : Tie} {num den m : Nat}
    (hlow : 2 * (m * den) < 2 * num + den) (hhigh : 2 * num < 2 * (m * den) + den) :
    roundQuotient tie num den = m := by
  have hden : 0 < den := by omega
  have hdiv := Nat.div_add_mod num den
  have hmod := Nat.mod_lt num hden
  have hle : num / den ≤ m := by
    by_contra hgt
    have hmul := Nat.mul_le_mul_left den (show m + 1 ≤ num / den by omega)
    rw [Nat.mul_add, Nat.mul_one, Nat.mul_comm den m] at hmul
    omega
  have hge : m ≤ num / den + 1 := by
    by_contra hlt
    have hmul := Nat.mul_le_mul_left den (show num / den + 2 ≤ m by omega)
    rw [Nat.mul_add, Nat.mul_comm den m] at hmul
    omega
  unfold roundQuotient
  rcases Nat.lt_or_ge (num / den) m with hlt | hge'
  · have hm : m = num / den + 1 := by omega
    have hmul : m * den = den * (num / den) + den := by rw [hm]; ring
    rw [if_neg (by omega), if_pos (by omega), hm]
  · have hm : m = num / den := by omega
    have hmul : m * den = den * (num / den) := by rw [hm]; ring
    rw [if_pos (by omega), hm]

/-- Rounding sees the quotient alone. -/
theorem roundQuotient_scale {tie : Tie} {k : Nat} (hk : 0 < k) (num den : Nat) :
    roundQuotient tie (num * k) (den * k) = roundQuotient tie num den := by
  have hdiv : num * k / (den * k) = num / den := Nat.mul_div_mul_right num den hk
  have hmod : num * k % (den * k) = num % den * k := Nat.mul_mod_mul_right k num den
  have hassoc : 2 * (num % den * k) = 2 * (num % den) * k := by ring
  unfold roundQuotient
  simp only [hdiv, hmod, hassoc, Nat.mul_lt_mul_right hk]

namespace Double

/-- A sign does not change a magnitude. -/
theorem natAbs_signed (negative : Bool) (n : Nat) : (signed negative n).natAbs = n := by
  rw [signed]
  split <;> omega

/-- An integer is its magnitude with its sign. -/
theorem signed_natAbs (n : Int) : signed (n < 0) n.natAbs = n := by
  by_cases hn : n < 0
  · rw [decide_eq_true hn, signed, if_pos rfl]
    omega
  · rw [decide_eq_false hn, signed, if_neg Bool.false_ne_true]
    omega

/-- The signs of a product are put together. -/
theorem signed_mul (a b : Bool) (m n : Nat) :
    signed a m * signed b n = signed (a ^^ b) (m * n) := by
  cases a <;> cases b <;> simp [signed]

/-- A factor without a sign leaves the sign alone. -/
theorem signed_mul_natCast (negative : Bool) (m n : Nat) :
    signed negative (m * n) = signed negative m * n := by
  cases negative <;> simp [signed]

/-- One is a whole number of units. -/
theorem unitsPerOne_pos : 0 < unitsPerOne := by
  have hshift : ∀ k, 0 < 1 <<< k := by
    intro k
    rw [Nat.one_shiftLeft]
    exact Nat.two_pow_pos k
  exact hshift 1074

/-- One is two to the power 1074 in units. -/
theorem unitsPerOne_eq {j : Nat} (hj : j = 1074) : unitsPerOne = 2 ^ j := by
  rw [unitsPerOne, ← hj, Nat.one_shiftLeft]

/-- The double nearest to a quotient is its count of units rounded. -/
theorem ofRatio_eq (negative : Bool) (num den : Nat) :
    ofRatio negative num den = ofUnits negative (num * unitsPerOne) den := by
  rw [ofRatio, unitsPerOne, Nat.shiftLeft_eq, Nat.one_shiftLeft]

/-- The rounded double depends on the quotient alone. -/
theorem ofUnits_scale {k : Nat} (hk : 0 < k) (negative : Bool) (num den : Nat) :
    ofUnits negative (num * k) (den * k) = ofUnits negative num den := by
  have hdiv : num * k / (den * k) = num / den := Nat.mul_div_mul_right num den hk
  have hshift : ∀ shift, (den * k) <<< shift = (den <<< shift) * k := by
    intro shift
    simp only [Nat.shiftLeft_eq]
    ring
  simp only [ofUnits, hdiv, hshift, roundQuotient_scale hk]

/-- A quotient between two neighbouring powers of two has their exponent. -/
theorem log2_div_eq {num den k : Nat} (hden : 0 < den) (hlow : 2 ^ k * den ≤ num)
    (hhigh : num < 2 ^ (k + 1) * den) : (num / den).log2 = k := by
  have hle : 2 ^ k ≤ num / den := (Nat.le_div_iff_mul_le hden).mpr hlow
  have hlt : num / den < 2 ^ (k + 1) := (Nat.div_lt_iff_lt_mul hden).mpr hhigh
  have hne : num / den ≠ 0 := by
    have := Nat.two_pow_pos k
    omega
  exact (Nat.log2_eq_iff hne).mpr ⟨hle, hlt⟩

/-- Less than half of the smallest unit is rounded to zero. -/
theorem ofUnits_eq_zero {num den : Nat} (h : 2 * num < den) (negative : Bool) :
    ofUnits negative num den = zero negative := by
  have hdiv : num / den = 0 := Nat.div_eq_of_lt (by omega)
  have hround : roundQuotient .toEven num den = 0 :=
    roundQuotient_eq_of_near (by omega) (by omega)
  have hlog : Nat.log2 0 - 52 = 0 := rfl
  have hcanonical : Canonical 0 0 := by decide
  simp only [ofUnits, hdiv, hlog, Nat.shiftLeft_zero, hround, dif_pos hcanonical]
  rfl

/-- From two to the power 2098 on, counts of units are rounded to an infinity. -/
theorem ofUnits_eq_infinity {num den k : Nat} (hden : 0 < den) (hk : 2098 ≤ k)
    (h : 2 ^ k * den ≤ num) (negative : Bool) :
    ofUnits negative num den = .infinity negative := by
  have hle : 2 ^ k ≤ num / den := (Nat.le_div_iff_mul_le hden).mpr h
  have hne : num / den ≠ 0 := Nat.ne_of_gt (Nat.lt_of_lt_of_le (Nat.two_pow_pos k) hle)
  have hlog : k ≤ (num / den).log2 := (Nat.le_log2 hne).mpr hle
  have hfirst : ∀ m, ¬ Canonical m ((num / den).log2 - 52) := by
    rintro m ⟨_, hshift, _⟩
    omega
  have hsecond : ¬ Canonical 4503599627370496 ((num / den).log2 - 52 + 1) := by
    rintro ⟨_, hshift, _⟩
    omega
  simp only [ofUnits, dif_neg (hfirst _), dif_neg hsecond]

/-- A count of units that has the exponent of a canonical pair and is rounded to
its mantissa gives the double of the pair. -/
theorem ofUnits_eq_of_shift {num den m s : Nat} (hcanonical : Canonical m s)
    (hshift : (num / den).log2 - 52 = s)
    (hlow : 2 * (m * (2 ^ s * den)) < 2 * num + 2 ^ s * den)
    (hhigh : 2 * num < 2 * (m * (2 ^ s * den)) + 2 ^ s * den) (negative : Bool) :
    ofUnits negative num den = .finite negative m s hcanonical := by
  have hden : den <<< s = 2 ^ s * den := by rw [Nat.shiftLeft_eq, Nat.mul_comm]
  have hround : roundQuotient .toEven num (den <<< s) = m := by
    rw [hden]
    exact roundQuotient_eq_of_near hlow hhigh
  simp only [ofUnits, hshift, hround, dif_pos hcanonical]

private theorem two_pow_add_mul (k t den : Nat) :
    2 ^ (k + t) * den = 2 ^ k * (2 ^ t * den) := by
  rw [Nat.pow_add, Nat.mul_assoc]

/-- Less than a quarter of the last place below a power of two the places are half
as large, and the carry of the rounding restores the power. -/
private theorem ofUnits_eq_of_carry {num den t : Nat}
    (hcanonical : Canonical 4503599627370496 (t + 1)) (hden : 0 < den)
    (hbelow : num < 4503599627370496 * (2 * (2 ^ t * den)))
    (hquarter : 4 * (4503599627370496 * (2 * (2 ^ t * den))) < 4 * num + 2 * (2 ^ t * den))
    (negative : Bool) :
    ofUnits negative num den = .finite negative 4503599627370496 (t + 1) hcanonical := by
  have hlog : (num / den).log2 = 52 + t := by
    refine log2_div_eq hden ?_ ?_
    · rw [two_pow_add_mul]
      omega
    · rw [show 52 + t + 1 = 53 + t by omega, two_pow_add_mul]
      omega
  have hshift : (num / den).log2 - 52 = t := by omega
  have hround : roundQuotient .toEven num (den <<< t) = 9007199254740992 := by
    rw [Nat.shiftLeft_eq, Nat.mul_comm]
    exact roundQuotient_eq_of_near (by omega) (by omega)
  have hcarry : ¬ Canonical 9007199254740992 t := fun h => absurd h.1 (by decide)
  simp only [ofUnits, hshift, hround, dif_neg hcarry, dif_pos hcanonical]

/-- Every count of units less than half of the last place away from a double, and
less than a quarter below a power of two, is rounded to it. -/
theorem ofUnits_eq_of_near {num den m s : Nat} (hcanonical : Canonical m s) (hden : 0 < den)
    (hlow : 2 * (m * (2 ^ s * den)) < 2 * num + 2 ^ s * den)
    (hhigh : 2 * num < 2 * (m * (2 ^ s * den)) + 2 ^ s * den)
    (hquarter : m = 4503599627370496 →
      4 * (m * (2 ^ s * den)) < 4 * num + 2 ^ s * den) (negative : Bool) :
    ofUnits negative num den = .finite negative m s hcanonical := by
  obtain ⟨hm, _, hfull⟩ := id hcanonical
  have hplace : 0 < 2 ^ s * den := Nat.mul_pos (Nat.two_pow_pos s) hden
  have hupper : m * (2 ^ s * den) ≤ 9007199254740991 * (2 ^ s * den) :=
    Nat.mul_le_mul_right _ (by omega)
  rcases Nat.eq_zero_or_pos s with hs | hs
  · -- the smallest places: the exponent stays below the shift
    subst hs
    rw [Nat.pow_zero, Nat.one_mul] at hupper hlow hhigh hplace
    have hlt : num / den < 2 ^ 53 := (Nat.div_lt_iff_lt_mul hden).mpr (by omega)
    have hlog : (num / den).log2 ≤ 52 := by
      by_cases hzero : num / den = 0
      · rw [hzero]
        decide
      · have := (Nat.log2_lt hzero).mpr hlt
        omega
    refine ofUnits_eq_of_shift hcanonical (by omega) ?_ ?_ negative
    · rwa [Nat.pow_zero, Nat.one_mul]
    · rwa [Nat.pow_zero, Nat.one_mul]
  · have hfull : 4503599627370496 ≤ m := by omega
    have hlower : 4503599627370496 * (2 ^ s * den) ≤ m * (2 ^ s * den) :=
      Nat.mul_le_mul_right _ hfull
    rcases Nat.lt_or_ge num (4503599627370496 * (2 ^ s * den)) with hbelow | habove
    · have hm52 : m = 4503599627370496 := by
        by_contra hne
        have := Nat.mul_le_mul_right (2 ^ s * den) (show 4503599627370497 ≤ m by omega)
        omega
      subst hm52
      obtain ⟨t, rfl⟩ : ∃ t, s = t + 1 := ⟨s - 1, by omega⟩
      have hhalf : 2 ^ (t + 1) * den = 2 * (2 ^ t * den) := by
        rw [Nat.pow_succ]
        ring
      rw [hhalf] at hbelow hquarter
      exact ofUnits_eq_of_carry hcanonical hden hbelow (hquarter rfl) negative
    · have hlog : (num / den).log2 = 52 + s := by
        refine log2_div_eq hden ?_ ?_
        · rw [two_pow_add_mul]
          omega
        · rw [show 52 + s + 1 = 53 + s by omega, two_pow_add_mul]
          omega
      exact ofUnits_eq_of_shift hcanonical (by omega) hlow hhigh negative

/-- The double in place of an integer is the nearest one if that is finite, and there is none
otherwise. -/
theorem ofInt?_eq (n : Int) :
    ofInt? n = if (nearestInt n).isFinite then some (nearestInt n) else none := by
  unfold ofInt?
  cases nearestInt n with
  | finite negative mantissa shift hcanonical => rfl
  | nan => rfl
  | infinity negative => rfl

/-- What stands in place of an integer is the nearest double, and finite. -/
theorem ofInt?_eq_some_iff {n : Int} {x : Double} :
    ofInt? n = some x ↔ x.isFinite = true ∧ nearestInt n = x := by
  rw [ofInt?_eq]
  split
  · rename_i hfinite
    rw [Option.some.injEq]
    constructor
    · rintro rfl
      exact ⟨hfinite, rfl⟩
    · exact And.right
  · rename_i hinfinite
    refine iff_of_false (by simp) ?_
    rintro ⟨hx, rfl⟩
    exact hinfinite hx

end Double

end Loyalty
