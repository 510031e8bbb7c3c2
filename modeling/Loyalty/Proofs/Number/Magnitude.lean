import Loyalty.Proofs.Number.Shortest

/-!
# How large a rounded quotient is

A count of units is rounded to a multiple of its last place that is at most half a
place away. The multiple is the magnitude of the double unless it reaches two to
the power 2098, where the double is an infinity. So a power of two that bounds a
count bounds its double too, and the other way round up to a factor of two.
-/

namespace Loyalty.Double

/-- A count is less than two to the power 53 of its last places. -/
theorem lt_of_lastPlace {num den s : Nat} (hden : 0 < den)
    (hs : (num / den).log2 - 52 = s) : num < 9007199254740992 * (2 ^ s * den) := by
  have hlt : num / den < 2 ^ (s + 53) :=
    Nat.lt_of_lt_of_le Nat.lt_log2_self (Nat.pow_le_pow_right (by decide) (by omega))
  have hnum : num < 2 ^ (s + 53) * den := (Nat.div_lt_iff_lt_mul hden).mp hlt
  calc num < 2 ^ (s + 53) * den := hnum
    _ = 9007199254740992 * (2 ^ s * den) := by
        rw [Nat.pow_add]
        ring

/-- A count is two to the power 52 of its last places at least, unless they are the
smallest. -/
theorem le_of_lastPlace {num den s : Nat} (hden : 0 < den)
    (hs : (num / den).log2 - 52 = s) (hpos : 0 < s) :
    4503599627370496 * (2 ^ s * den) ≤ num := by
  have hne : num / den ≠ 0 := by
    intro hzero
    rw [hzero] at hs
    have hlog : Nat.log2 0 - 52 = 0 := rfl
    omega
  have hle : 2 ^ (s + 52) ≤ num / den := (Nat.le_log2 hne).mp (by omega)
  calc 4503599627370496 * (2 ^ s * den) = 2 ^ (s + 52) * den := by
        rw [Nat.pow_add]
        ring
    _ ≤ num := (Nat.le_div_iff_mul_le hden).mp hle

/-- The count of whole units that `num / den` units are rounded to, as if there were no
largest double. -/
def nearestUnits (num den : Nat) : Nat :=
  roundQuotient .toEven num (2 ^ ((num / den).log2 - 52) * den) * 2 ^ ((num / den).log2 - 52)

/-- Rounding to a multiple of the last place. The place is the smallest unit or the
multiple is a full mantissa, and it is half a place away at most. The double has
this magnitude, or is an infinity where that is two to the power 2098 at least. -/
theorem ofUnits_cases {num den : Nat} (hden : 0 < den) (negative : Bool) :
    ∃ m s, m * 2 ^ s = nearestUnits num den ∧ (s = 0 ∨ 4503599627370496 ≤ m) ∧
      2 * (m * (2 ^ s * den)) ≤ 2 * num + 2 ^ s * den ∧
      2 * num ≤ 2 * (m * (2 ^ s * den)) + 2 ^ s * den ∧
      (((ofUnits negative num den).isFinite = true ∧
          (ofUnits negative num den).magnitude = m * 2 ^ s) ∨
        (ofUnits negative num den = .infinity negative ∧
          ∃ k, 2098 ≤ k ∧ 2 ^ k ≤ m * 2 ^ s)) := by
  generalize hs : (num / den).log2 - 52 = s
  have hplace : den <<< s = 2 ^ s * den := by rw [Nat.shiftLeft_eq, Nat.mul_comm]
  have hplace_pos : 0 < 2 ^ s * den := Nat.mul_pos (Nat.two_pow_pos s) hden
  have hdown := two_mul_roundQuotient_le .toEven num (2 ^ s * den)
  have hup := two_mul_le_two_mul_roundQuotient_add .toEven num (2 ^ s * den) hplace_pos
  have hlt := lt_of_lastPlace hden hs
  have hle : 0 < s → 4503599627370496 * (2 ^ s * den) ≤ num := le_of_lastPlace hden hs
  have hdouble : ofUnits negative num den =
      if h : Canonical (roundQuotient .toEven num (2 ^ s * den)) s then
        .finite negative (roundQuotient .toEven num (2 ^ s * den)) s h
      else if h : Canonical 4503599627370496 (s + 1) then
        .finite negative 4503599627370496 (s + 1) h
      else .infinity negative := by
    simp only [ofUnits, hs, hplace]
  have hnearest : roundQuotient .toEven num (2 ^ s * den) * 2 ^ s = nearestUnits num den := by
    rw [nearestUnits, hs]
  generalize roundQuotient .toEven num (2 ^ s * den) = m at hdown hup hdouble hnearest
  have hfull : s = 0 ∨ 4503599627370496 ≤ m := by
    by_contra hnot
    have hmul := Nat.mul_le_mul_right (2 ^ s * den) (show m + 1 ≤ 4503599627370496 by omega)
    rw [Nat.succ_mul] at hmul
    have hle := hle (by omega)
    omega
  have hcarry : m ≤ 9007199254740992 := by
    by_contra hnot
    have hmul := Nat.mul_le_mul_right (2 ^ s * den) (show 9007199254740993 ≤ m by omega)
    omega
  refine ⟨m, s, hnearest, hfull, hdown, hup, ?_⟩
  by_cases hcanonical : Canonical m s
  · rw [hdouble, dif_pos hcanonical]
    exact .inl ⟨rfl, magnitude_finite _ _ _ _⟩
  · rw [hdouble, dif_neg hcanonical]
    by_cases hnext : Canonical 4503599627370496 (s + 1)
    · have hm : m = 9007199254740992 := by
        by_contra hne
        have hshift := hnext.2.1
        exact hcanonical ⟨by omega, by omega, hfull⟩
      rw [dif_pos hnext, magnitude_finite, hm, Nat.pow_succ]
      exact .inl ⟨rfl, by ring⟩
    · have hshift : 2045 ≤ s := by
        by_contra hlow
        exact hnext ⟨by decide, by omega, .inr (by decide)⟩
      rw [dif_neg hnext]
      refine .inr ⟨rfl, ?_⟩
      rcases Nat.eq_or_lt_of_le hshift with heq | habove
      · have hm : 9007199254740992 ≤ m := by
          by_contra hne
          exact hcanonical ⟨by omega, by omega, hfull⟩
        refine ⟨53 + s, by omega, ?_⟩
        rw [Nat.pow_add]
        exact Nat.mul_le_mul_right _ hm
      · refine ⟨52 + s, by omega, ?_⟩
        rw [Nat.pow_add]
        exact Nat.mul_le_mul_right _ (by omega)

/-- A multiple of the last place is at most the power of two that bounds the count. -/
private theorem multiple_le {m s k : Nat} (hfull : s = 0 ∨ 4503599627370496 ≤ m)
    (h : 2 * (m * 2 ^ s) ≤ 2 * 2 ^ k + 2 ^ s) : m * 2 ^ s ≤ 2 ^ k := by
  have hle : s ≤ k := by
    by_contra hlt
    have hpow : (2 : Nat) ^ k ≤ 2 ^ s := Nat.pow_le_pow_right (by decide) (by omega)
    have hpos := Nat.two_pow_pos s
    have hmul := Nat.mul_le_mul_right (2 ^ s) (show 4503599627370496 ≤ m by omega)
    omega
  obtain ⟨d, rfl⟩ := Nat.exists_eq_add_of_le hle
  have hpow : 2 ^ (s + d) = 2 ^ d * 2 ^ s := by rw [Nat.add_comm, Nat.pow_add]
  rw [hpow] at h ⊢
  refine Nat.mul_le_mul_right _ ?_
  -- Half a place is less than the distance between two multiples.
  by_contra hlt
  have hmul := Nat.mul_le_mul_right (2 ^ s) (show 2 ^ d + 1 ≤ m by omega)
  rw [Nat.succ_mul] at hmul
  have hpos := Nat.two_pow_pos s
  omega

/-- A count up to a power of two below the largest double is rounded to a finite
one up to that power. -/
theorem magnitude_ofUnits_le {num den k : Nat} (hden : 0 < den) (hk : k < 2098)
    (h : num ≤ 2 ^ k * den) (negative : Bool) :
    (ofUnits negative num den).isFinite = true ∧ (ofUnits negative num den).magnitude ≤ 2 ^ k := by
  obtain ⟨m, s, -, hfull, hdown, -, hdouble⟩ := @ofUnits_cases num den hden negative
  have hle : m * 2 ^ s ≤ 2 ^ k := by
    refine multiple_le hfull (Nat.le_of_mul_le_mul_right ?_ hden)
    calc 2 * (m * 2 ^ s) * den = 2 * (m * (2 ^ s * den)) := by ring
      _ ≤ 2 * num + 2 ^ s * den := hdown
      _ ≤ 2 * (2 ^ k * den) + 2 ^ s * den := by omega
      _ = (2 * 2 ^ k + 2 ^ s) * den := by ring
  rcases hdouble with ⟨hfinite, hmagnitude⟩ | ⟨-, j, hj, hlarge⟩
  · exact ⟨hfinite, hmagnitude ▸ hle⟩
  · have hlt : (2 : Nat) ^ k < 2 ^ j := Nat.pow_lt_pow_right (by decide) (by omega)
    omega

/-- A count that is rounded to a finite double up to a power of two is less than
twice that power. -/
theorem lt_of_magnitude_ofUnits_le {num den k : Nat} (hden : 0 < den) {negative : Bool}
    (hfinite : (ofUnits negative num den).isFinite = true)
    (h : (ofUnits negative num den).magnitude ≤ 2 ^ k) : num < 2 ^ (k + 1) * den := by
  obtain ⟨m, s, -, hfull, -, hup, hdouble⟩ := @ofUnits_cases num den hden negative
  rcases hdouble with ⟨-, hmagnitude⟩ | ⟨hinfinity, -⟩
  · rw [hmagnitude] at h
    have hmul := Nat.mul_le_mul_right den h
    rw [Nat.mul_assoc] at hmul
    have hpos : 0 < 2 ^ k * den := Nat.mul_pos (Nat.two_pow_pos k) hden
    have hplace : 2 ^ s * den ≤ m * (2 ^ s * den) ∨ 2 ^ s * den ≤ 2 ^ k * den := by
      rcases Nat.eq_zero_or_pos m with hm | hm
      · have hs : s = 0 := by omega
        rw [hs]
        exact .inr (Nat.mul_le_mul_right _ (Nat.one_le_two_pow))
      · exact .inl (Nat.le_mul_of_pos_left _ hm)
    rw [Nat.pow_succ, Nat.mul_right_comm]
    omega
  · rw [hinfinity] at hfinite
    cases hfinite

/-- A finite double is below two to the power 2098. -/
theorem magnitude_lt_of_isFinite {x : Double} (hx : x.isFinite = true) {k : Nat}
    (hk : 2098 ≤ k) : x.magnitude < 2 ^ k := by
  cases x with
  | finite negative m s hcanonical =>
    obtain ⟨hm, hs, -⟩ := id hcanonical
    rw [magnitude_finite]
    calc m * 2 ^ s < 2 ^ 53 * 2 ^ s := Nat.mul_lt_mul_of_pos_right hm (Nat.two_pow_pos s)
      _ = 2 ^ (53 + s) := (Nat.pow_add 2 53 s).symm
      _ ≤ 2 ^ k := Nat.pow_le_pow_right (by decide) (by omega)
  | nan => cases hx
  | infinity negative => cases hx

/-- The quotient of a finite double by a whole number. -/
theorem magnitude_divNat_le {x : Double} (hx : x.isFinite = true) {n k : Nat} (hn : 0 < n)
    (hk : k < 2098) (h : x.magnitude ≤ 2 ^ k * n) :
    (x.divNat n).isFinite = true ∧ (x.divNat n).magnitude ≤ 2 ^ k := by
  cases x with
  | finite negative m s hcanonical =>
    rw [magnitude_finite] at h
    rw [divNat, Nat.shiftLeft_eq]
    exact magnitude_ofUnits_le hn hk h negative
  | nan => cases hx
  | infinity negative => cases hx

/-- The difference of doubles that are far enough below the largest one. -/
theorem isFinite_sub {x y : Double} (hx : x.isFinite = true) (hy : y.isFinite = true) {k : Nat}
    (hk : k < 2097) (hxk : x.magnitude ≤ 2 ^ k) (hyk : y.magnitude ≤ 2 ^ k) :
    (x.sub y).isFinite = true := by
  cases x with
  | finite a m s hm =>
    cases y with
    | finite b n t hn =>
      rw [magnitude_finite, ← Nat.shiftLeft_eq] at hxk hyk
      simp only [sub, neg, add]
      split
      · rfl
      · refine (magnitude_ofUnits_le (by decide) (show k + 1 < 2098 by omega) ?_ _).1
        rw [Nat.mul_one, Nat.pow_succ]
        have hleft := natAbs_signed a (m <<< s)
        have hright := natAbs_signed (!b) (n <<< t)
        omega
    | nan => cases hy
    | infinity negative => cases hy
  | nan => cases hx
  | infinity negative => cases hx

end Loyalty.Double
