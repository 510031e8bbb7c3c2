import Loyalty.Proofs.Number.Magnitude

/-!
# Rounding keeps the order

A larger quotient is never rounded to a smaller count of units, and a count that is a
double already is rounded to itself. So rounding never crosses a double: what is at most
a finite double is rounded to at most that double. The quotients that are rounded to an
infinity are those from half a place above the largest double on.
-/

namespace Loyalty

/-- A whole number is rounded to itself. -/
theorem roundQuotient_mul_self (tie : Tie) (k : Nat) {den : Nat} (hden : 0 < den) :
    roundQuotient tie (k * den) den = k :=
  roundQuotient_eq_of_near (by omega) (by omega)

/-- A larger quotient is not rounded to a smaller whole number. -/
theorem roundQuotient_mono (tie : Tie) {num num' den : Nat} (hden : 0 < den) (h : num ≤ num') :
    roundQuotient tie num den ≤ roundQuotient tie num' den := by
  by_contra hlt
  have hdown := two_mul_roundQuotient_le tie num den
  have hup := two_mul_le_two_mul_roundQuotient_add tie num' den hden
  have hmul := Nat.mul_le_mul_right den
    (show roundQuotient tie num' den + 1 ≤ roundQuotient tie num den by omega)
  rw [Nat.succ_mul] at hmul
  -- Both errors are half a unit, so the two quotients are one.
  have heq : num = num' := by omega
  rw [heq] at hlt
  omega

namespace Double

/-- The count depends on the quotient alone. -/
theorem nearestUnits_scale {k : Nat} (hk : 0 < k) (num den : Nat) :
    nearestUnits (num * k) (den * k) = nearestUnits num den := by
  have hdiv : num * k / (den * k) = num / den := Nat.mul_div_mul_right num den hk
  have hplace : ∀ s, 2 ^ s * (den * k) = 2 ^ s * den * k := fun s => (Nat.mul_assoc _ _ _).symm
  simp only [nearestUnits, hdiv, hplace, roundQuotient_scale hk]

/-- A larger count over the same denominator is not rounded to a smaller one. -/
private theorem nearestUnits_mono {num num' den : Nat} (hden : 0 < den) (h : num ≤ num') :
    nearestUnits num den ≤ nearestUnits num' den := by
  have hdiv : num / den ≤ num' / den := Nat.div_le_div_right h
  generalize hs : (num / den).log2 - 52 = s
  generalize hs' : (num' / den).log2 - 52 = s'
  have hplace := Nat.mul_pos (Nat.two_pow_pos s) hden
  have hplace' := Nat.mul_pos (Nat.two_pow_pos s') hden
  have hle : s ≤ s' := by
    by_cases hzero : num / den = 0
    · rw [hzero] at hs
      have hlog : Nat.log2 0 = 0 := rfl
      omega
    · have hpos := Nat.lt_of_lt_of_le (Nat.pos_of_ne_zero hzero) hdiv
      have hlog : (num / den).log2 ≤ (num' / den).log2 :=
        (Nat.le_log2 (Nat.ne_of_gt hpos)).mpr (Nat.le_trans (Nat.log2_self_le hzero) hdiv)
      omega
  rw [nearestUnits, nearestUnits, hs, hs']
  rcases Nat.eq_or_lt_of_le hle with rfl | hlt
  · exact Nat.mul_le_mul_right _ (roundQuotient_mono .toEven hplace h)
  · -- The mantissa of the larger count is full, at a place that is worth twice as much.
    have hupper : roundQuotient .toEven num (2 ^ s * den) ≤ 9007199254740992 := by
      rw [← roundQuotient_mul_self .toEven 9007199254740992 hplace]
      exact roundQuotient_mono .toEven hplace (Nat.le_of_lt (lt_of_lastPlace hden hs))
    have hlower : 4503599627370496 ≤ roundQuotient .toEven num' (2 ^ s' * den) := by
      rw [← roundQuotient_mul_self .toEven 4503599627370496 hplace']
      exact roundQuotient_mono .toEven hplace' (le_of_lastPlace hden hs' (by omega))
    calc roundQuotient .toEven num (2 ^ s * den) * 2 ^ s
        ≤ 9007199254740992 * 2 ^ s := Nat.mul_le_mul_right _ hupper
      _ = 4503599627370496 * 2 ^ (s + 1) := by rw [Nat.pow_succ]; ring
      _ ≤ 4503599627370496 * 2 ^ s' :=
        Nat.mul_le_mul_left _ (Nat.pow_le_pow_right (by decide) (by omega))
      _ ≤ roundQuotient .toEven num' (2 ^ s' * den) * 2 ^ s' := Nat.mul_le_mul_right _ hlower

/-- A larger quotient is not rounded to a smaller count. -/
theorem nearestUnits_le {num den num' den' : Nat} (hden : 0 < den) (hden' : 0 < den')
    (h : num * den' ≤ num' * den) : nearestUnits num den ≤ nearestUnits num' den' := by
  rw [← nearestUnits_scale hden' num den, ← nearestUnits_scale hden num' den',
    Nat.mul_comm den' den]
  exact nearestUnits_mono (Nat.mul_pos hden hden') h

/-- A multiple of the last place of its count is rounded to itself. -/
theorem nearestUnits_of_dvd {n : Nat} (h : 2 ^ (n.log2 - 52) ∣ n) : nearestUnits n 1 = n := by
  obtain ⟨k, hk⟩ := h
  rw [nearestUnits, Nat.div_one, Nat.mul_one]
  generalize n.log2 - 52 = s at hk ⊢
  rw [hk, Nat.mul_comm (2 ^ s) k, roundQuotient_mul_self .toEven k (Nat.two_pow_pos s)]

/-- A rounded count is off by one part in two to the 53rd of itself at most, or by half a
unit. -/
theorem nearestUnits_near {num den : Nat} (hden : 0 < den) :
    9007199254740992 * (nearestUnits num den * den) ≤
        9007199254740992 * num + (nearestUnits num den + 4503599627370496) * den ∧
      9007199254740992 * num ≤ 9007199254740992 * (nearestUnits num den * den) +
        (nearestUnits num den + 4503599627370496) * den := by
  obtain ⟨m, s, hnearest, hfull, hdown, hup, -⟩ := @ofUnits_cases num den hden false
  have hplace : 4503599627370496 * 2 ^ s ≤ nearestUnits num den + 4503599627370496 := by
    rw [← hnearest]
    rcases hfull with rfl | hm
    · omega
    · exact Nat.le_add_right_of_le (Nat.mul_le_mul_right _ hm)
  have hmul := Nat.mul_le_mul_right den hplace
  rw [Nat.mul_assoc] at hmul
  rw [← Nat.mul_assoc m, hnearest] at hdown hup
  omega

/-- A finite double has the count that its units are rounded to; an infinity has one that
is two to the power 2098 at least. -/
theorem ofUnits_finite_or {num den : Nat} (hden : 0 < den) (negative : Bool) :
    ((ofUnits negative num den).isFinite = true ∧
        (ofUnits negative num den).magnitude = nearestUnits num den) ∨
      (ofUnits negative num den = .infinity negative ∧
        ∃ k, 2098 ≤ k ∧ 2 ^ k ≤ nearestUnits num den) := by
  obtain ⟨m, s, hnearest, -, -, -, hdouble⟩ := @ofUnits_cases num den hden negative
  rwa [hnearest] at hdouble

/-- A count is rounded to a finite double unless it is rounded to two to the power 2098 or
more. -/
theorem isFinite_ofUnits_iff {num den : Nat} (hden : 0 < den) (negative : Bool) {k : Nat}
    (hk : k = 2098) :
    (ofUnits negative num den).isFinite = true ↔ nearestUnits num den < 2 ^ k := by
  rcases ofUnits_finite_or hden negative with ⟨hfinite, hmagnitude⟩ | ⟨hinfinity, j, hj, hlarge⟩
  · refine iff_of_true hfinite ?_
    rw [← hmagnitude]
    exact magnitude_lt_of_isFinite hfinite (by omega)
  · refine iff_of_false ?_ ?_
    · rw [hinfinity]
      exact Bool.false_ne_true
    · have hpow : (2 : Nat) ^ k ≤ 2 ^ j := Nat.pow_le_pow_right (by decide) (by omega)
      omega

/-- A count that is not larger than one that is rounded to a finite double is so too. -/
theorem isFinite_ofUnits_of_le {num den num' den' : Nat} {negative negative' : Bool}
    (hden : 0 < den) (hden' : 0 < den') (h : num * den' ≤ num' * den)
    (hfinite : (ofUnits negative' num' den').isFinite = true) :
    (ofUnits negative num den).isFinite = true := by
  obtain ⟨k, hk⟩ : ∃ k, k = 2098 := ⟨_, rfl⟩
  rw [isFinite_ofUnits_iff hden' negative' hk] at hfinite
  rw [isFinite_ofUnits_iff hden negative hk]
  exact Nat.lt_of_le_of_lt (nearestUnits_le hden hden' h) hfinite

/-- Half a place above the largest double counts are rounded up to the next power of two. -/
private theorem nearestUnits_overflow {k : Nat} (hk : k = 2044) :
    nearestUnits (18014398509481983 * 2 ^ k) 1 = 2 ^ (k + 54) := by
  have hlog : (18014398509481983 * 2 ^ k).log2 = 53 + k := by
    have hdiv := @log2_div_eq (18014398509481983 * 2 ^ k) 1 (53 + k) (by decide)
    rw [Nat.div_one] at hdiv
    apply hdiv
    · rw [Nat.pow_add, Nat.mul_one]
      exact Nat.mul_le_mul_right _ (by decide)
    · rw [show 53 + k + 1 = 54 + k by omega, Nat.pow_add, Nat.mul_one]
      exact Nat.mul_lt_mul_of_pos_right (by decide) (Nat.two_pow_pos k)
  have hplace : 2 ^ (k + 1) * 1 = 2 * 2 ^ k := by
    rw [Nat.pow_succ]
    ring
  have hround : roundQuotient .toEven (18014398509481983 * 2 ^ k) (2 * 2 ^ k) =
      9007199254740992 := by
    rw [roundQuotient_scale (Nat.two_pow_pos k)]
    decide
  rw [nearestUnits, Nat.div_one, hlog, show 53 + k - 52 = k + 1 by omega, hplace, hround,
    Nat.pow_succ, Nat.pow_add]
  ring

/-- The counts that are rounded to a finite double are those up to half a place above the
largest one. -/
theorem isFinite_ofUnits_iff_lt {num den : Nat} (hden : 0 < den) (negative : Bool) {k : Nat}
    (hk : k = 2044) :
    (ofUnits negative num den).isFinite = true ↔ num < 18014398509481983 * 2 ^ k * den := by
  rw [isFinite_ofUnits_iff hden negative (show k + 54 = 2098 by omega)]
  constructor
  · intro hlt
    by_contra hle
    have hnearest := @nearestUnits_le (18014398509481983 * 2 ^ k) 1 num den (by decide) hden
      (by omega)
    rw [nearestUnits_overflow hk] at hnearest
    omega
  · intro hlt
    generalize hs : (num / den).log2 - 52 = s
    have hplace : s ≤ k + 1 := by
      by_contra hlarge
      have hpow : 2 ^ (k + 2) ≤ 2 ^ s := Nat.pow_le_pow_right (by decide) (by omega)
      have hle := le_of_lastPlace hden hs (by omega)
      have hmul := Nat.mul_le_mul_right den hpow
      rw [Nat.pow_add, Nat.mul_right_comm] at hmul
      rw [Nat.mul_assoc] at hlt
      omega
    have hdown := two_mul_roundQuotient_le .toEven num (2 ^ s * den)
    rw [nearestUnits, hs]
    generalize roundQuotient .toEven num (2 ^ s * den) = m at hdown ⊢
    -- Half a place more than the bound is not enough for the next power of two.
    refine Nat.lt_of_mul_lt_mul_right (a := den) ?_
    have hpow : 2 ^ s ≤ 2 ^ (k + 1) := Nat.pow_le_pow_right (by decide) hplace
    have hmul := Nat.mul_le_mul_right den hpow
    rw [Nat.pow_succ, Nat.mul_right_comm] at hmul
    rw [Nat.mul_assoc] at hlt
    calc m * 2 ^ s * den = m * (2 ^ s * den) := Nat.mul_assoc _ _ _
      _ < 18014398509481984 * (2 ^ k * den) := by omega
      _ = 2 ^ (k + 54) * den := by
        rw [Nat.pow_add]
        ring

end Double

end Loyalty
