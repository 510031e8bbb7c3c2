import Loyalty.Proofs.Number.Cents

/-!
# A percentage of an amount and the rest

A percentage of an amount is worked out by a product and a quotient and rounded to cents,
and what remains is worked out by a difference and rounded to cents again. No rounding on
the way to a double is off by more than one part in two to the 53rd, so the cents of the
percentage are half a cent away from its exact value at most, but for the last digits of
the amount, and a whole number of cents is divided into two.
-/

namespace Loyalty.Double

/-- An amount that a percentage up to a hundred is taken of, both having a product. -/
structure Divisible (amount percent : Double) : Prop where
  finite : amount.isFinite = true
  nonneg : 0 ≤ amount.value
  percent_finite : percent.isFinite = true
  percent_nonneg : 0 ≤ percent.value
  percent_le : percent.value ≤ 100
  product_finite : (amount.mul percent).isFinite = true

/-- A percentage of an amount, before it is rounded to cents. -/
def share (amount percent : Double) : Double := (amount.mul percent).divNat 100

/-- An amount is settled by a discount and what remains, which are nearest to whole cents. -/
structure Settled (amount percent discount final : Double) (cents rest : Int) : Prop where
  share : (amount.share percent).RoundedToCents discount cents
  rest_finite : (amount.sub discount).isFinite = true
  remainder : (amount.sub discount).RoundedToCents final rest

/-- A double that is equal to the one nearest to a number of cents. -/
def IsCents (x : Double) (n : Nat) : Prop := x.eq (ofRatio false n 100) = true

variable {amount percent discount final : Double} {cents rest : Int}

/-- The double nearest to a number of cents is finite. -/
private theorem isNearest_cents (n : Nat) : (ofRatio false n 100).IsNearest (n / 100) := by
  have hnearest := isNearest_ofRatio false n (show 0 < 100 by decide)
  simpa [signed] using hnearest

/-- A double of whole cents is almost exact. -/
theorem IsCents.abs_sub_le {x : Double} {n : Nat} (h : x.IsCents n) (hx : x.isFinite = true) :
    |x.value - n / 100| ≤ |x.value| / 2 ^ 53 + 1 / 10 ^ 30 := by
  have hfinite := isFinite_of_eq h hx
  rw [(eq_iff_of_isFinite hx hfinite).mp h]
  exact (isNearest_cents n).abs_sub_le hfinite

/-- Whole cents are not negative. -/
theorem IsCents.value_nonneg {x : Double} {n : Nat} (h : x.IsCents n) (hx : x.isFinite = true) :
    0 ≤ x.value := by
  have hfinite := isFinite_of_eq h hx
  rw [(eq_iff_of_isFinite hx hfinite).mp h]
  exact value_ofRatio_nonneg (by decide) hfinite

/-- A hundred cents are one, but for the last digits. -/
theorem IsCents.value_le {x : Double} {n : Nat} (h : x.IsCents n) (hx : x.isFinite = true)
    (hn : n ≤ 10 ^ 14) : x.value ≤ 10 ^ 13 := by
  have hn' : (n : ℚ) ≤ 10 ^ 14 := by exact_mod_cast hn
  have hexact := abs_le.mp (h.abs_sub_le hx)
  rw [abs_of_nonneg (h.value_nonneg hx)] at hexact
  linarith

/-- Amounts up to ten to the twelfth have ten to the fourteenth cents at most. -/
theorem IsCents.le_of_value_le {x : Double} {n : Nat} (h : x.IsCents n) (hx : x.isFinite = true)
    (hle : x.value ≤ 10 ^ 12) : n ≤ 10 ^ 14 := by
  have hexact := abs_le.mp (h.abs_sub_le hx)
  rw [abs_of_nonneg (h.value_nonneg hx)] at hexact
  have hlt : ((n : Nat) : ℚ) < (10 ^ 14 + 1 : Nat) := by
    push_cast
    linarith
  have hlt := Nat.cast_lt.mp hlt
  omega

/-- A finite double nearest to a number of cents is equal to every finite double of them. -/
theorem IsCents.eq_of_isNearest {x y : Double} {n : Nat} (h : x.IsCents n) (hx : x.isFinite = true)
    (hy : y.isFinite = true) (hnearest : y.IsNearest (n / 100)) : y.eq x = true := by
  have hfinite := isFinite_of_eq h hx
  rw [eq_iff_of_isFinite hy hx, (eq_iff_of_isFinite hx hfinite).mp h]
  exact hnearest.value_eq (isNearest_cents n) hy hfinite

/-- A finite double nearest to a number of cents is of these cents. -/
theorem isCents_of_isNearest {x : Double} {n : Nat} (hx : x.isFinite = true)
    (hnearest : x.IsNearest (n / 100)) : x.IsCents n := by
  have hfinite := (isNearest_cents n).isFinite_of_abs_le hnearest hx (le_refl _)
  rw [IsCents, eq_iff_of_isFinite hx hfinite]
  exact hnearest.value_eq (isNearest_cents n) hx hfinite

/-- A double nearest to a cent too much is the one of that cent. -/
theorem eq_cent_of_isNearest {x : Double} (hx : x.isFinite = true)
    (hnearest : x.IsNearest ((-1 : Int) / 100)) : x.eq (ofRatio true 1 100) = true := by
  have hcent := isNearest_ofRatio true 1 (show 0 < 100 by decide)
  have hfinite : (ofRatio true 1 100).isFinite = true := by decide +kernel
  rw [eq_iff_of_isFinite hx hfinite]
  exact hnearest.value_eq hcent hx hfinite

/-- A percentage is not negative and is almost exact. -/
theorem Divisible.share_spec (h : Divisible amount percent) :
    (amount.share percent).isFinite = true ∧ 0 ≤ (amount.share percent).value ∧
      |(amount.share percent).value - amount.value * percent.value / 100| ≤
        (amount.share percent).value / 2 ^ 51 + 1 / 10 ^ 29 := by
  have hproduct := isNearest_mul h.finite h.percent_finite
  have hshare : (amount.share percent).IsNearest ((amount.mul percent).value / (100 : Nat)) :=
    isNearest_divNat h.product_finite (by decide)
  have hnonneg : 0 ≤ (amount.mul percent).value :=
    hproduct.value_nonneg h.product_finite (mul_nonneg h.nonneg h.percent_nonneg)
  push_cast at hshare
  have hfinite : (amount.share percent).isFinite = true := by
    refine hshare.isFinite_of_abs_le (isNearest_value h.product_finite) h.product_finite ?_
    rw [abs_of_nonneg (by positivity), abs_of_nonneg hnonneg]
    linarith
  have hshare_nonneg : 0 ≤ (amount.share percent).value :=
    hshare.value_nonneg hfinite (by positivity)
  refine ⟨hfinite, hshare_nonneg, ?_⟩
  have hfirst := abs_le.mp (hproduct.abs_sub_le h.product_finite)
  have hsecond := abs_le.mp (hshare.abs_sub_le hfinite)
  rw [abs_of_nonneg hnonneg] at hfirst
  rw [abs_of_nonneg hshare_nonneg] at hsecond
  rw [abs_le]
  constructor <;> linarith

/-- Amounts far below the largest double have a product with every percentage. -/
theorem isFinite_mul_of_le (hfinite : amount.isFinite = true) (hnonneg : 0 ≤ amount.value)
    (hle : amount.value ≤ 10 ^ 13) (hpercent : percent.isFinite = true) (hlow : 0 ≤ percent.value)
    (hhigh : percent.value ≤ 100) : (amount.mul percent).isFinite = true := by
  refine (isNearest_mul hfinite hpercent).isFinite_of_le ?_
  have hproduct := mul_le_mul hle hhigh hlow (by norm_num)
  rw [abs_of_nonneg (mul_nonneg hnonneg hlow)]
  linarith

/-- Cents of a number that is not negative are not negative. -/
theorem RoundedToCents.nonneg {x y : Double} (h : x.RoundedToCents y cents) (hx : 0 ≤ x.value) :
    0 ≤ cents := by
  have hclose := abs_le.mp h.close
  rw [abs_of_nonneg hx] at hclose
  have hlow : ((-1 : Int) : ℚ) < cents := by
    push_cast
    linarith
  have hlow : -1 < cents := by exact_mod_cast hlow
  omega

/-- A double nearest to whole cents is almost exact. -/
theorem RoundedToCents.abs_sub_le {x y : Double} (h : x.RoundedToCents y cents) :
    |100 * y.value - cents| ≤ |y.value| / 2 ^ 46 + 1 / 10 ^ 28 := by
  have herror := h.nearest.abs_sub_le h.finite
  have hvalue := abs_nonneg y.value
  calc |100 * y.value - cents| = |100 * (y.value - cents / 100)| := by ring_nf
    _ = 100 * |y.value - cents / 100| := by rw [abs_mul]; norm_num
    _ ≤ |y.value| / 2 ^ 46 + 1 / 10 ^ 28 := by linarith

/-- Every amount is settled. -/
theorem Divisible.exists_settled (h : Divisible amount percent) :
    ∃ discount final cents rest, (Value.double (amount.share percent)).round2 = .ok discount ∧
      (Value.double (amount.sub discount)).round2 = .ok final ∧
      Settled amount percent discount final cents rest := by
  obtain ⟨hfinite, hnonneg, -⟩ := h.share_spec
  obtain ⟨discount, cents, hround, hdiscount⟩ := exists_roundedToCents hfinite
  have hcents : 0 ≤ discount.value := by
    refine hdiscount.nearest.value_nonneg hdiscount.finite ?_
    have hcents : (0 : ℚ) ≤ cents := by exact_mod_cast hdiscount.nonneg hnonneg
    positivity
  have hrest : (amount.sub discount).isFinite = true := by
    have hdifference := isNearest_sub h.finite hdiscount.finite
    have hamount := h.nonneg
    rcases le_total amount.value discount.value with hle | hle
    · refine hdifference.isFinite_of_abs_le (isNearest_value hdiscount.finite) hdiscount.finite ?_
      rw [abs_of_nonpos (by linarith), abs_of_nonneg hcents]
      linarith
    · refine hdifference.isFinite_of_abs_le (isNearest_value h.finite) h.finite ?_
      rw [abs_of_nonneg (by linarith), abs_of_nonneg hamount]
      linarith
  obtain ⟨final, rest, hround', hfinal⟩ := exists_roundedToCents hrest
  exact ⟨discount, final, cents, rest, hround, hround', hdiscount, hrest, hfinal⟩

namespace Settled

/-- What remains is not negative if its cents are not. -/
theorem final_nonneg (hs : Settled amount percent discount final cents rest) (hrest : 0 ≤ rest) :
    0 ≤ final.value := by
  have hrest' : (0 : ℚ) ≤ rest := by exact_mod_cast hrest
  exact hs.remainder.nearest.value_nonneg hs.remainder.finite (by positivity)

variable (h : Divisible amount percent) (hs : Settled amount percent discount final cents rest)

include h hs

/-- The cents of a percentage are not negative, and neither is its double. -/
theorem cents_nonneg : 0 ≤ cents ∧ 0 ≤ discount.value := by
  obtain ⟨-, hnonneg, -⟩ := h.share_spec
  have hcents := hs.share.nonneg hnonneg
  have hcents' : (0 : ℚ) ≤ cents := by exact_mod_cast hcents
  exact ⟨hcents, hs.share.nearest.value_nonneg hs.share.finite (by positivity)⟩

/-- The cents of a percentage are half a cent away from it, but for the last digits. -/
theorem abs_cents_sub_le : |cents - amount.value * percent.value| ≤
    1 / 2 + amount.value * percent.value / 2 ^ 50 + 1 / 10 ^ 26 := by
  obtain ⟨-, hnonneg, hshare⟩ := h.share_spec
  have hclose := abs_le.mp hs.share.close
  have hexact := abs_le.mp hshare
  rw [abs_of_nonneg hnonneg] at hclose
  rw [abs_le]
  constructor <;> linarith

/-- A discount is nearly its cents. -/
theorem abs_discount_sub_le : |100 * discount.value - cents| ≤
    discount.value / 2 ^ 46 + 1 / 10 ^ 28 := by
  have hclose := hs.share.abs_sub_le
  rwa [abs_of_nonneg (cents_nonneg h hs).2] at hclose

omit h in
/-- The cents of the rest are half a cent away from the difference, but for the last
digits. -/
private theorem abs_rest_sub_le (hamount : amount.isFinite = true) :
    |rest - 100 * (amount.value - discount.value)| ≤
      1 / 2 + |amount.value - discount.value| / 2 ^ 45 + 1 / 10 ^ 27 := by
  have herror := (isNearest_sub hamount hs.share.finite).abs_sub_le hs.rest_finite
  have hclose := hs.remainder.close
  generalize (amount.sub discount).value = y at herror hclose
  generalize amount.value - discount.value = difference at herror ⊢
  have hvalue : |y| ≤ |difference| + |y - difference| := by
    calc |y| = |difference + (y - difference)| := by ring_nf
      _ ≤ |difference| + |y - difference| := abs_add_le _ _
  calc |rest - 100 * difference| = |rest - 100 * y + 100 * (y - difference)| := by ring_nf
    _ ≤ |rest - 100 * y| + |100 * (y - difference)| := abs_add_le _ _
    _ = |rest - 100 * y| + 100 * |y - difference| := by rw [abs_mul]; norm_num
    _ ≤ 1 / 2 + |difference| / 2 ^ 45 + 1 / 10 ^ 27 := by
      have hdifference := abs_nonneg difference
      linarith

/-- The cents of the discount and those of the rest are half a cent away from the amount
together, but for the last digits. -/
theorem abs_rest_add_cents_sub_le : |rest + cents - 100 * amount.value| ≤
    1 / 2 + (amount.value + 2 * discount.value) / 2 ^ 45 + 1 / 10 ^ 26 := by
  have hamount := h.nonneg
  have hdiscount := (cents_nonneg h hs).2
  have hdifference : |amount.value - discount.value| ≤ amount.value + discount.value := by
    rw [abs_le]
    constructor <;> linarith
  have hrest := abs_le.mp (abs_rest_sub_le hs h.finite)
  have hdouble := abs_le.mp (abs_discount_sub_le h hs)
  rw [abs_le]
  constructor <;> linarith

/-- No more than a cent too much is taken of an amount up to ten to the twelfth. -/
theorem neg_one_le_rest (hamount : amount.value ≤ 10 ^ 12) : -1 ≤ rest := by
  obtain ⟨-, hdiscount⟩ := cents_nonneg h hs
  have hproduct := mul_le_mul_of_nonneg_left h.percent_le h.nonneg
  have hcents := abs_le.mp (abs_cents_sub_le h hs)
  have hdouble := abs_le.mp (abs_discount_sub_le h hs)
  have hboth := abs_le.mp (abs_rest_add_cents_sub_le h hs)
  have hlow : (-2 : ℚ) < rest := by linarith
  have hlow : -2 < rest := by exact_mod_cast hlow
  omega

/-- What remains is not negative if a part of the amount is left over. -/
theorem rest_nonneg (hpercent : percent.value ≤ 100 - 1 / 10 ^ 12) : 0 ≤ rest := by
  obtain ⟨hnonneg, hdiscount⟩ := cents_nonneg h hs
  have hamount := h.nonneg
  rcases hnonneg.eq_or_lt with hzero | hpos
  · -- Nothing is taken, and the rest is the amount.
    have hvalue : discount.value = 0 := by
      have hnearest := hs.share.nearest
      rw [← hzero, Int.cast_zero, zero_div] at hnearest
      exact hnearest.value_eq_zero hs.share.finite
    refine hs.remainder.nonneg ((isNearest_sub h.finite hs.share.finite).value_nonneg
      hs.rest_finite ?_)
    rw [hvalue, sub_zero]
    exact hamount
  · have hpos' : (1 : ℚ) ≤ cents := by exact_mod_cast hpos
    have hproduct := mul_le_mul_of_nonneg_left hpercent hamount
    have hcents := abs_le.mp (abs_cents_sub_le h hs)
    have hdouble := abs_le.mp (abs_discount_sub_le h hs)
    have hboth := abs_le.mp (abs_rest_add_cents_sub_le h hs)
    have hlow : (-1 : ℚ) < rest := by linarith
    have hlow : -1 < rest := by exact_mod_cast hlow
    omega

/-- An amount of whole cents is divided into the cents of the discount and those of the
rest. -/
theorem rest_eq {n : Nat} (hn : n ≤ 10 ^ 14) (hwhole : amount.IsCents n) :
    cents ≤ n ∧ rest = n - cents := by
  obtain ⟨-, hdiscount⟩ := cents_nonneg h hs
  have hamount := h.nonneg
  have hn' : (n : ℚ) ≤ 10 ^ 14 := by exact_mod_cast hn
  have hexact := abs_le.mp (hwhole.abs_sub_le h.finite)
  rw [abs_of_nonneg hamount] at hexact
  have hproduct := mul_le_mul_of_nonneg_left h.percent_le hamount
  have hcents := abs_le.mp (abs_cents_sub_le h hs)
  have hdouble := abs_le.mp (abs_discount_sub_le h hs)
  have hboth := abs_le.mp (abs_rest_add_cents_sub_le h hs)
  have hle : (cents : ℚ) < n + 1 := by linarith
  have hle : cents < n + 1 := by exact_mod_cast hle
  have hnear : ((n - cents - 1 : Int) : ℚ) < rest ∧ (rest : ℚ) < ((n - cents + 1 : Int) : ℚ) := by
    push_cast
    constructor <;> linarith
  rw [Int.cast_lt, Int.cast_lt] at hnear
  omega

/-- The discount and the rest of whole cents are whole cents. -/
theorem exists_isCents {n : Nat} (hn : n ≤ 10 ^ 14) (hwhole : amount.IsCents n) :
    ∃ m, m ≤ n ∧ discount.IsCents m ∧ final.IsCents (n - m) := by
  obtain ⟨hle, hrest⟩ := rest_eq h hs hn hwhole
  obtain ⟨m, rfl⟩ := Int.eq_ofNat_of_zero_le (cents_nonneg h hs).1
  have hm : m ≤ n := by omega
  have hdiscount := hs.share.nearest
  have hfinal := hs.remainder.nearest
  rw [Int.cast_natCast] at hdiscount
  rw [hrest, ← Nat.cast_sub hm, Int.cast_natCast] at hfinal
  exact ⟨m, hm, isCents_of_isNearest hs.share.finite hdiscount,
    isCents_of_isNearest hs.remainder.finite hfinal⟩

/-- The discount and the rest of whole cents add up to them again. -/
theorem exists_round2_add {n : Nat} (hn : n ≤ 10 ^ 14) (hwhole : amount.IsCents n) :
    ∃ sum, (Value.double (discount.add final)).round2 = .ok sum ∧ sum.eq amount = true := by
  obtain ⟨hnonneg, hdiscount⟩ := cents_nonneg h hs
  obtain ⟨hle, hrest⟩ := rest_eq h hs hn hwhole
  have hn' : (n : ℚ) ≤ 10 ^ 14 := by exact_mod_cast hn
  have hrest' : (rest : ℚ) = n - cents := by exact_mod_cast hrest
  have hfinal := hs.final_nonneg (by omega)
  have hleft := abs_le.mp (abs_discount_sub_le h hs)
  have hright := abs_le.mp hs.remainder.abs_sub_le
  rw [abs_of_nonneg hfinal] at hright
  have hadd := isNearest_add hs.share.finite hs.remainder.finite
  have hfinite : (discount.add final).isFinite = true := by
    refine hadd.isFinite_of_le ?_
    rw [abs_of_nonneg (by linarith)]
    linarith
  obtain ⟨sum, all, hround, hsum⟩ := exists_roundedToCents hfinite
  have hvalue := hadd.value_nonneg hfinite (by linarith)
  have herror := abs_le.mp (hadd.abs_sub_le hfinite)
  have hclose := abs_le.mp hsum.close
  rw [abs_of_nonneg hvalue] at herror hclose
  have hnear : ((n - 1 : Int) : ℚ) < all ∧ (all : ℚ) < ((n + 1 : Int) : ℚ) := by
    push_cast
    constructor <;> linarith
  rw [Int.cast_lt, Int.cast_lt] at hnear
  have hall : all = n := by omega
  subst hall
  exact ⟨sum, hround, hwhole.eq_of_isNearest h.finite hsum.finite hsum.nearest⟩

end Settled

end Loyalty.Double
