import Loyalty.Proofs.Number.TiesToEven
import Mathlib.Algebra.Order.Field.Power
import Mathlib.Algebra.Order.Group.Pointwise.Interval
import Mathlib.Data.Nat.Cast.Order.Field

/-!
# The fewest digits that read back

The decimals that read back as a double form an interval around it. So if any multiple of a power
of ten reads back, one of the two multiples next to the double does, and it is at least as near.
The search goes from the power of ten of the leading digit to finer ones and stops at the first
that has such a multiple: no decimal with fewer digits reads back, and none with as many that
does is nearer.
-/

namespace Loyalty

/-! ## Multiples next to a quotient -/

/-- A power of ten is at most a quotient if it is so in whole numbers. -/
theorem ten_zpow_le_div_iff {num den : Nat} (hden : 0 < den) (e : Int) :
    (10 : ℚ) ^ e ≤ num / den ↔ den * 10 ^ e.toNat ≤ num * 10 ^ (-e).toNat := by
  have hden' : (0 : ℚ) < den := by exact_mod_cast hden
  rw [Decimal.ten_zpow_eq, div_le_div_iff₀ (by positivity) hden', mul_comm]
  exact_mod_cast Iff.rfl

/-- A positive quotient lies between the powers of ten of its leading digit and of the place
before that. -/
theorem leadingExponent_bounds {num den : Nat} (hnum : 0 < num) (hden : 0 < den) :
    (10 : ℚ) ^ leadingExponent num den ≤ num / den ∧
      (num / den : ℚ) < 10 ^ (leadingExponent num den + 1) := by
  rw [ten_zpow_le_div_iff hden, ← not_le, ten_zpow_le_div_iff hden, not_le]
  exact ⟨pow_leadingExponent_le hnum hden, lt_pow_leadingExponent hnum hden⟩

/-- The multiples of a power of ten next to a quotient are the last one that is not above it and
the first one that is. No multiple is nearer than the first of the two. -/
structure AreNeighbours (q unit : ℚ) (first other floor : Nat) : Prop where
  cases : first = floor ∧ other = floor + 1 ∨ first = floor + 1 ∧ other = floor
  floor_le : floor * unit ≤ q
  lt_succ : q < (floor + 1 : Nat) * unit
  nearest : ∀ k : Nat, |first * unit - q| ≤ |k * unit - q|

/-- The search looks at the neighbours. -/
theorem gridNeighbours_eq (num : Nat) {den : Nat} (hden : 0 < den) (e : Int) :
    ∃ first other floor, gridNeighbours num den e = [first, other] ∧
      AreNeighbours (num / den) (10 ^ e) first other floor := by
  have hden' : (0 : ℚ) < den := by exact_mod_cast hden
  obtain ⟨num', den', hgrid, hden'', hunit⟩ : ∃ num' den', gridQuotient num den e = (num', den') ∧
      0 < den' ∧ (num / den : ℚ) = num' / den' * 10 ^ e := by
    refine ⟨_, _, gridQuotient_eq num den e, Nat.mul_pos hden (Nat.pow_pos (by decide)), ?_⟩
    rw [Decimal.ten_zpow_eq]
    push_cast
    field_simp
  have hplace : (0 : ℚ) < den' := by exact_mod_cast hden''
  have hten : (0 : ℚ) < 10 ^ e := by positivity
  refine ⟨roundQuotient .toEven num' den', _, num' / den', by rw [gridNeighbours, hgrid], ?_, ?_,
    ?_, ?_⟩
  · rcases roundQuotient_cases .toEven num' den' with ⟨hfloor, -⟩ | ⟨hceil, -⟩
    · exact .inl ⟨hfloor, if_pos hfloor⟩
    · exact .inr ⟨hceil, if_neg (by omega)⟩
  · rw [hunit]
    exact mul_le_mul_of_nonneg_right Nat.cast_div_le hten.le
  · rw [hunit]
    refine mul_lt_mul_of_pos_right ?_ hten
    rw [div_lt_iff₀ hplace]
    exact_mod_cast Nat.lt_mul_of_div_lt (Nat.lt_succ_self _) hden''
  · intro k
    have hdistance : ∀ k : Nat, |(k : ℚ) * 10 ^ e - num / den| =
        ((k * den' : Nat) - num' : Int).natAbs / den' * 10 ^ e := by
      intro k
      rw [hunit, ← sub_mul, abs_mul, abs_of_pos hten, Nat.cast_natAbs, Int.cast_abs,
        ← abs_of_pos hplace, ← abs_div, abs_of_pos hplace]
      congr 2
      push_cast
      field_simp
    rw [hdistance, hdistance]
    have hnearest := @roundQuotient_nearest .toEven num' den' hden'' k
    gcongr

namespace Double

variable {x : Double} {d d' : Decimal} {negative : Bool} {e : Int}

/-! ## The decimals that read back -/

/-- A decimal between one that reads back and the double reads back. -/
theorem toDouble_eq_of_between (hx : x.isFinite = true) (hne : x.value ≠ 0)
    (hd : d.toDouble = x) (hsign : d'.negative = d.negative)
    (h : |d'.value| ∈ Set.uIcc |d.value| |x.value|) : d'.toDouble = x := by
  have hself := isNearest_value hx
  have hread := isNearest_toDouble d
  have hnearest := isNearest_toDouble d'
  rw [hd] at hread
  have hsigns : d'.toDouble.isNegative = x.isNegative := by
    rw [← hd, d.isNegative_toDouble, d'.isNegative_toDouble, hsign]
  rcases Set.mem_uIcc.mp h with ⟨hlow, hhigh⟩ | ⟨hlow, hhigh⟩
  · have hfinite := hnearest.isFinite_of_abs_le hself hx hhigh
    refine eq_of_abs_value_eq hfinite hx hne hsigns (le_antisymm ?_ ?_)
    · exact hnearest.abs_value_le hself hfinite hx hhigh
    · exact hread.abs_value_le hnearest hx hfinite hlow
  · have hfinite := hnearest.isFinite_of_abs_le hread hx hhigh
    refine eq_of_abs_value_eq hfinite hx hne hsigns (le_antisymm ?_ ?_)
    · exact hnearest.abs_value_le hread hfinite hx hhigh
    · exact hself.abs_value_le hnearest hx hfinite hlow

/-- If a multiple reads back, a neighbour of the double does so too, and it is as near. -/
theorem exists_neighbour (hx : x.isFinite = true) (hne : x.value ≠ 0) {m first other floor : Nat}
    (hm : Decimal.toDouble ⟨negative, m, e⟩ = x)
    (h : AreNeighbours |x.value| (10 ^ e) first other floor) :
    ∃ c : Nat, (c = first ∨ c = other) ∧ Decimal.toDouble ⟨negative, c, e⟩ = x ∧
      |(c : ℚ) * 10 ^ e - (|x.value|)| ≤ |(m : ℚ) * 10 ^ e - (|x.value|)| := by
  have hten : (0 : ℚ) ≤ 10 ^ e := by positivity
  have hbetween : ∀ c : Nat, (c : ℚ) * 10 ^ e ∈ Set.uIcc ((m : ℚ) * 10 ^ e) |x.value| →
      Decimal.toDouble ⟨negative, c, e⟩ = x ∧
        |(c : ℚ) * 10 ^ e - (|x.value|)| ≤ |(m : ℚ) * 10 ^ e - (|x.value|)| := by
    intro c hc
    refine ⟨toDouble_eq_of_between hx hne hm rfl ?_, ?_⟩
    · rwa [abs_value_decimal, abs_value_decimal]
    · rw [abs_sub_comm, abs_sub_comm (m * 10 ^ e : ℚ)]
      exact Set.abs_sub_right_of_mem_uIcc hc
  rcases Nat.lt_or_ge floor m with hlt | hle
  · refine ⟨floor + 1, ?_, hbetween _ (Set.mem_uIcc.mpr (.inr ⟨h.lt_succ.le, ?_⟩))⟩
    · rcases h.cases with ⟨-, hother⟩ | ⟨hfirst, -⟩
      · exact .inr hother.symm
      · exact .inl hfirst.symm
    · exact mul_le_mul_of_nonneg_right (by exact_mod_cast hlt) hten
  · refine ⟨floor, ?_, hbetween _ (Set.mem_uIcc.mpr (.inl ⟨?_, h.floor_le⟩))⟩
    · rcases h.cases with ⟨hfirst, -⟩ | ⟨-, hother⟩
      · exact .inl hfirst.symm
      · exact .inr hother.symm
    · exact mul_le_mul_of_nonneg_right (by exact_mod_cast hle) hten

/-- The neighbours of the magnitude of a double. -/
theorem exists_neighbours (x : Double) (e : Int) :
    ∃ first other floor, gridNeighbours x.magnitude unitsPerOne e = [first, other] ∧
      AreNeighbours |x.value| (10 ^ e) first other floor := by
  rw [abs_value_eq]
  exact gridNeighbours_eq x.magnitude unitsPerOne_pos e

/-- If a multiple of a power of ten reads back, one is found that is as near. -/
theorem exists_onGrid? (hx : x.isFinite = true) (hne : x.value ≠ 0) {m : Nat}
    (hm : Decimal.toDouble ⟨negative, m, e⟩ = x) :
    ∃ c : Nat, x.onGrid? negative e = some ⟨negative, c, e⟩ ∧
      |(c : ℚ) * 10 ^ e - (|x.value|)| ≤ |(m : ℚ) * 10 ^ e - (|x.value|)| := by
  obtain ⟨first, other, floor, hgrid, hneighbours⟩ := x.exists_neighbours e
  rw [onGrid?, hgrid, List.map_cons, List.map_singleton]
  by_cases hfirst : Decimal.toDouble ⟨negative, first, e⟩ = x
  · exact ⟨first, List.find?_cons_of_pos (decide_eq_true hfirst), hneighbours.nearest m⟩
  · obtain ⟨c, hc, hread, hle⟩ := exists_neighbour hx hne hm hneighbours
    have hc : c = other := by
      refine hc.resolve_left ?_
      rintro rfl
      exact hfirst hread
    subst hc
    refine ⟨c, ?_, hle⟩
    rw [List.find?_cons_of_neg (by simpa using hfirst),
      List.find?_cons_of_pos (by simpa using hread)]

/-- What is found is a multiple that reads back, and it is one power of ten at most where the
double is less than that. -/
theorem onGrid?_spec {k : Nat} (h : x.onGrid? negative e = some d)
    (hlt : |x.value| < 10 ^ (e + k)) :
    d.negative = negative ∧ d.exponent = e ∧ d.coefficient ≤ 10 ^ k ∧ d.toDouble = x := by
  obtain ⟨first, other, floor, hgrid, hneighbours⟩ := x.exists_neighbours e
  have hread := toDouble_of_onGrid? h
  rw [onGrid?, hgrid] at h
  obtain ⟨c, hc, rfl⟩ := List.mem_map.mp (List.mem_of_find?_eq_some h)
  refine ⟨rfl, rfl, ?_, hread⟩
  have hfloor : floor < 10 ^ k := by
    have hten : (0 : ℚ) < 10 ^ e := by positivity
    have hmul := hneighbours.floor_le.trans_lt hlt
    rw [add_comm, zpow_add₀ (by norm_num), zpow_natCast, mul_lt_mul_iff_left₀ hten] at hmul
    exact_mod_cast hmul
  have hc : c = floor ∨ c = floor + 1 := by
    rcases List.mem_pair.mp hc with rfl | rfl
    · rcases hneighbours.cases with h | h
      · exact .inl h.1
      · exact .inr h.1
    · rcases hneighbours.cases with h | h
      · exact .inr h.2
      · exact .inl h.2
  simp only
  omega

/-! ## The search -/

end Double

/-- A decimal that can be written with a number of digits. -/
def Decimal.HasDigits (d : Decimal) (k : Nat) : Prop :=
  ∃ (c : Nat) (e : Int), c < 10 ^ k ∧ |d.value| = c * 10 ^ e

/-- The decimal of the other sign. -/
def Decimal.neg (d : Decimal) : Decimal := { d with negative := !d.negative }

/-- More digits are enough as well. -/
theorem Decimal.HasDigits.mono {d : Decimal} {j k : Nat} (h : d.HasDigits j) (hjk : j ≤ k) :
    d.HasDigits k := by
  obtain ⟨c, e, hc, hvalue⟩ := h
  exact ⟨c, e, Nat.lt_of_lt_of_le hc (Nat.pow_le_pow_right (by decide) hjk), hvalue⟩

/-- A shortest decimal of a double reads back as the double, with fewer digits than which no
decimal does, and no decimal that reads back with as few digits is nearer. -/
structure Double.IsShortest (x : Double) (d : Decimal) : Prop where
  reads : d.toDouble = x
  fewest : ∀ (d' : Decimal) (k : Nat), d'.toDouble = x → d'.HasDigits k → d.HasDigits k
  nearest : ∀ d' : Decimal, d'.toDouble = x → (∀ k, d.HasDigits k → d'.HasDigits k) →
    |d.value - x.value| ≤ |d'.value - x.value|

/-- What a search through the first naturals finds is found at no smaller one. -/
theorem exists_of_findSome?_range {α : Type} {f : Nat → Option α} {count : Nat} {a : α}
    (h : (List.range count).findSome? f = some a) :
    ∃ n, n < count ∧ f n = some a ∧ ∀ k, k < n → f k = none := by
  induction count with
  | zero => cases h
  | succ count ih =>
    rw [List.range_succ, List.findSome?_append] at h
    rcases Option.or_eq_some_iff.mp h with hfirst | ⟨hnone, hlast⟩
    · obtain ⟨n, hn, hfound⟩ := ih hfirst
      exact ⟨n, by omega, hfound⟩
    · rw [List.findSome?_singleton] at hlast
      exact ⟨count, by omega, hlast,
        fun k hk => List.findSome?_eq_none_iff.mp hnone k (List.mem_range.mpr hk)⟩

namespace Double

variable {x y : Double} {d d' : Decimal}

/-- The power of ten of the leading digit of a double. -/
def leading (x : Double) : Int := leadingExponent x.magnitude unitsPerOne

/-- A double lies between two neighbouring powers of ten. -/
theorem leading_bounds (hne : x.value ≠ 0) :
    (10 : ℚ) ^ x.leading ≤ |x.value| ∧ |x.value| < 10 ^ (x.leading + 1) := by
  have hpos : 0 < x.magnitude := by
    refine Nat.pos_of_ne_zero fun hzero => hne (abs_eq_zero.mp ?_)
    rw [abs_value_eq, hzero, Nat.cast_zero, zero_div]
  rw [abs_value_eq]
  exact leadingExponent_bounds hpos unitsPerOne_pos

/-- The search tries finer and finer powers of ten. -/
theorem exists_of_shortest? (hne : x.value ≠ 0) (h : x.shortest? = some d) :
    ∃ n : Nat, n < 17 ∧ x.onGrid? x.isNegative (x.leading - n) = some d ∧
      ∀ k : Nat, k < n → x.onGrid? x.isNegative (x.leading - k) = none := by
  cases x with
  | finite negative m s hcanonical =>
    simp only [shortest?, if_neg (mt value_finite_eq_zero_iff.mpr hne)] at h
    exact exists_of_findSome?_range h
  | nan => cases h
  | infinity negative => cases h

/-- If a decimal with some digits reads back, so does a multiple of the place of the last of as
many digits of the double, and it is as near. -/
theorem exists_multiple (hx : x.isFinite = true) (hne : x.value ≠ 0) {c k : Nat} {e : Int}
    {negative : Bool} (hc : c < 10 ^ (k + 1))
    (hread : Decimal.toDouble ⟨negative, c, e⟩ = x) :
    ∃ m : Nat, Decimal.toDouble ⟨negative, m, x.leading - k⟩ = x ∧
      |(m : ℚ) * 10 ^ (x.leading - k) - (|x.value|)| ≤ |(c : ℚ) * 10 ^ e - (|x.value|)| := by
  rcases Int.lt_or_le e (x.leading - k) with hlt | hle
  · -- The decimal is less than the power of ten of the leading digit, which is not above the
    -- double.
    obtain ⟨hleading, -⟩ := leading_bounds hne
    have hpower : ((10 ^ k : Nat) : ℚ) * 10 ^ (x.leading - k) = 10 ^ x.leading := by
      rw [Nat.cast_pow, Nat.cast_ofNat, ← zpow_natCast, ← zpow_add₀ (by norm_num)]
      congr 1
      omega
    have hbelow : (c : ℚ) * 10 ^ e ≤ 10 ^ x.leading := by
      have hcoefficient : (c : ℚ) ≤ 10 ^ (k + 1) := by exact_mod_cast hc.le
      calc (c : ℚ) * 10 ^ e ≤ 10 ^ (k + 1) * 10 ^ e :=
            mul_le_mul_of_nonneg_right hcoefficient (by positivity)
        _ = 10 ^ ((k + 1 : Nat) + e) := by rw [zpow_add₀ (by norm_num), zpow_natCast]
        _ ≤ 10 ^ x.leading := zpow_le_zpow_right₀ (by norm_num) (by omega)
    have hbetween : ((10 ^ k : Nat) : ℚ) * 10 ^ (x.leading - k) ∈
        Set.uIcc ((c : ℚ) * 10 ^ e) |x.value| := by
      rw [hpower]
      exact Set.mem_uIcc.mpr (.inl ⟨hbelow, hleading⟩)
    refine ⟨10 ^ k, toDouble_eq_of_between hx hne hread rfl ?_, ?_⟩
    · rwa [abs_value_decimal, abs_value_decimal]
    · rw [abs_sub_comm, abs_sub_comm (c * 10 ^ e : ℚ)]
      exact Set.abs_sub_right_of_mem_uIcc hbetween
  · obtain ⟨j, hj⟩ : ∃ j : Nat, x.leading - k + j = e := ⟨(e - (x.leading - k)).toNat, by omega⟩
    have hvalue := Decimal.value_mul_pow negative c j (x.leading - k)
    rw [hj] at hvalue
    have hdouble := @Decimal.toDouble_congr ⟨negative, c * 10 ^ j, x.leading - k⟩
      ⟨negative, c, e⟩ rfl hvalue
    refine ⟨c * 10 ^ j, hdouble.trans hread, le_of_eq ?_⟩
    have habs := congrArg abs hvalue
    rw [abs_value_decimal, abs_value_decimal] at habs
    rw [habs]

/-- A decimal that reads back is one with the sign of the double. -/
theorem negative_of_toDouble {d : Decimal} (hd : d.toDouble = x) : d.negative = x.isNegative := by
  rw [← hd, d.isNegative_toDouble]

/-- A decimal that reads back with some digits reads back with these. -/
theorem toDouble_of_hasDigits {k : Nat} (hd : d.toDouble = x) (h : d.HasDigits k) :
    ∃ (c : Nat) (e : Int), c < 10 ^ k ∧ |d.value| = c * 10 ^ e ∧
      Decimal.toDouble ⟨x.isNegative, c, e⟩ = x := by
  obtain ⟨c, e, hc, hvalue⟩ := h
  refine ⟨c, e, hc, hvalue, ?_⟩
  rw [← negative_of_toDouble hd, ← hd]
  refine Decimal.toDouble_congr rfl ?_
  rw [value_decimal_eq_abs, value_decimal_eq_abs d, abs_value_decimal, hvalue]

/-- A decimal that reads back is as far from the double as their magnitudes are. -/
theorem abs_value_sub_of_toDouble (hx : x.isFinite = true) (hd : d.toDouble = x) :
    |d.value - x.value| = |(|d.value|) - (|x.value|)| := by
  rw [value_decimal_eq_abs, value_eq_abs hx, negative_of_toDouble hd]
  split
  · rw [neg_sub_neg, abs_sub_comm, abs_neg, abs_neg, abs_abs, abs_abs]
  · rw [abs_abs, abs_abs]

/-- A coefficient of zero reads back as zero. -/
theorem value_eq_zero_of_toDouble {negative : Bool} {e : Int}
    (h : Decimal.toDouble ⟨negative, 0, e⟩ = x) : x.value = 0 := by
  rw [← h, Decimal.toDouble, if_pos rfl, value_zero]

/-- The shortest decimal of zero has no places behind the point. -/
theorem eq_of_shortest?_of_value_eq_zero (hx : x.value = 0) (h : x.shortest? = some d) :
    d = ⟨x.isNegative, 0, 0⟩ := by
  cases x with
  | finite negative m s hcanonical =>
    simp only [shortest?, if_pos (value_finite_eq_zero_iff.mp hx), Option.some.injEq] at h
    exact h.symm
  | nan => cases h
  | infinity negative => cases h

/-- Zero has no digits. -/
theorem isShortest_of_value_eq_zero (hx : x.value = 0) (hd : d.toDouble = x)
    (hvalue : d.value = 0) : x.IsShortest d where
  reads := hd
  fewest := fun d' k _ _ => ⟨0, 0, Nat.pow_pos (by decide), by rw [hvalue]; simp⟩
  nearest := fun d' _ _ => by
    rw [hvalue, hx, sub_zero, abs_zero]
    exact abs_nonneg _

/-- The search stops at the first place of which a multiple reads back. It finds one that is as
near as every other, and that is at most the power of ten before the leading digit. -/
theorem shortest?_spec (hx : x.isFinite = true) (hne : x.value ≠ 0) (h : x.shortest? = some d) :
    ∃ n : Nat, d.exponent = x.leading - n ∧ d.coefficient ≤ 10 ^ (n + 1) ∧
      (∀ k m : Nat, k < n → Decimal.toDouble ⟨x.isNegative, m, x.leading - k⟩ ≠ x) ∧
      ∀ m : Nat, Decimal.toDouble ⟨x.isNegative, m, x.leading - n⟩ = x →
        |(|d.value|) - (|x.value|)| ≤ |(m : ℚ) * 10 ^ (x.leading - n) - (|x.value|)| := by
  obtain ⟨n, -, hfound, hnone⟩ := exists_of_shortest? hne h
  have hupper : |x.value| < 10 ^ (x.leading - n + (n + 1 : Nat)) := by
    have hexponent : x.leading - n + (n + 1 : Nat) = x.leading + 1 := by omega
    rw [hexponent]
    exact (leading_bounds hne).2
  obtain ⟨-, hexponent, hcoefficient, -⟩ := onGrid?_spec hfound hupper
  refine ⟨n, hexponent, hcoefficient, fun k m hk hm => ?_, fun m hm => ?_⟩
  · obtain ⟨c, hfound', -⟩ := exists_onGrid? hx hne hm
    rw [hnone k hk] at hfound'
    cases hfound'
  · obtain ⟨c, hfound', hnear⟩ := exists_onGrid? hx hne hm
    rw [hfound, Option.some.injEq] at hfound'
    rwa [hfound', abs_value_decimal]

/-- The search stops no later than at a power of ten of which a multiple reads back. -/
theorem le_exponent_of_reads (hx : x.isFinite = true) (hne : x.value ≠ 0)
    (h : x.shortest? = some d) {negative : Bool} {m : Nat} {e : Int}
    (hread : Decimal.toDouble ⟨negative, m, e⟩ = x) (he : e ≤ x.leading) : e ≤ d.exponent := by
  obtain ⟨n, hexponent, -, hnone, -⟩ := shortest?_spec hx hne h
  by_contra hlt
  obtain ⟨k, hk⟩ : ∃ k : Nat, x.leading - k = e := ⟨(x.leading - e).toNat, by omega⟩
  refine hnone k m (by omega) ?_
  rw [hk, ← negative_of_toDouble hread]
  exact hread

/-- What the search finds is a shortest decimal. -/
theorem isShortest_of_shortest? (hx : x.isFinite = true) (h : x.shortest? = some d) :
    x.IsShortest d := by
  have hd := toDouble_of_shortest? h
  by_cases hne : x.value = 0
  · obtain rfl := eq_of_shortest?_of_value_eq_zero hne h
    exact isShortest_of_value_eq_zero hne hd (Decimal.value_zero _ _)
  obtain ⟨n, hexponent, hcoefficient, hnone, hnear⟩ := shortest?_spec hx hne h
  have hdigits : d.HasDigits (n + 1) := by
    rcases Nat.lt_or_eq_of_le hcoefficient with hlt | heq
    · exact ⟨d.coefficient, d.exponent, hlt, abs_value_decimal d⟩
    · -- The multiple is the power of ten before the leading digit.
      refine ⟨1, d.exponent + (n + 1 : Nat), Nat.one_lt_pow (by omega) (by decide), ?_⟩
      rw [abs_value_decimal, heq, zpow_add₀ (by norm_num), zpow_natCast]
      push_cast
      ring
  refine ⟨hd, fun d' k hd' hk => ?_, fun d' hd' hk => ?_⟩
  · obtain ⟨c, e, hc, -, hread⟩ := toDouble_of_hasDigits hd' hk
    cases k with
    | zero =>
      have hzero : c = 0 := by omega
      subst hzero
      exact absurd (value_eq_zero_of_toDouble hread) hne
    | succ k =>
      obtain ⟨m, hm, -⟩ := exists_multiple hx hne hc hread
      have hle : n ≤ k := Nat.le_of_not_lt fun hlt => hnone k m hlt hm
      exact hdigits.mono (by omega)
  · obtain ⟨c, e, hc, hvalue, hread⟩ := toDouble_of_hasDigits hd' (hk _ hdigits)
    obtain ⟨m, hm, hle⟩ := exists_multiple hx hne hc hread
    rw [abs_value_sub_of_toDouble hx hd, abs_value_sub_of_toDouble hx hd', hvalue]
    exact (hnear m hm).trans hle

/-! ## Order and sign -/

/-- Doubles in order have shortest decimals in that order. -/
theorem value_le_of_shortest? (hx : x.isFinite = true) (hy : y.isFinite = true)
    (hd : x.shortest? = some d) (hd' : y.shortest? = some d') (h : x.value ≤ y.value) :
    d.value ≤ d'.value := by
  have hxd := isNearest_toDouble d
  have hyd := isNearest_toDouble d'
  rw [toDouble_of_shortest? hd] at hxd
  rw [toDouble_of_shortest? hd'] at hyd
  rcases lt_or_eq_of_le h with hlt | heq
  · by_contra hgt
    have hle := hyd.value_le hxd hy hx (not_le.mp hgt).le
    exact absurd hlt (not_lt.mpr hle)
  · by_cases hzero : y.value = 0
    · rw [eq_of_shortest?_of_value_eq_zero (heq.trans hzero) hd,
        eq_of_shortest?_of_value_eq_zero hzero hd', Decimal.value_zero, Decimal.value_zero]
    · have hself := isNearest_value hx
      rw [heq] at hself
      have hxy := hself.eq_of_ne_zero (isNearest_value hy) hzero
      rw [hxy, hd'] at hd
      cases hd
      exact le_rfl

/-- The decimal of the other sign has the opposite double. -/
theorem toDouble_neg (d : Decimal) : d.neg.toDouble = d.toDouble.neg := by
  rw [Decimal.toDouble_eq, Decimal.toDouble_eq, ofRatio, ofRatio, neg_ofUnits]
  rfl

/-- The opposite of the opposite is the same. -/
theorem neg_neg (x : Double) : x.neg.neg = x := by
  cases x <;> simp [neg]

/-- Opposite doubles have one magnitude. -/
theorem magnitude_neg (x : Double) : x.neg.magnitude = x.magnitude := by
  cases x with
  | finite negative m s hcanonical => rw [neg, magnitude_finite, magnitude_finite]
  | nan => rfl
  | infinity negative => rfl

/-- The search for the opposite double finds the decimals of the other sign. -/
theorem onGrid?_neg (x : Double) (negative : Bool) (e : Int) :
    x.neg.onGrid? (!negative) e = (x.onGrid? negative e).map Decimal.neg := by
  have hreads : ∀ c : Nat, Decimal.toDouble ⟨!negative, c, e⟩ = x.neg ↔
      Decimal.toDouble ⟨negative, c, e⟩ = x := by
    intro c
    have hneg : Decimal.toDouble ⟨!negative, c, e⟩ = (Decimal.toDouble ⟨negative, c, e⟩).neg :=
      toDouble_neg ⟨negative, c, e⟩
    rw [hneg]
    constructor
    · intro h
      rw [← neg_neg (Decimal.toDouble _), h, neg_neg]
    · rintro rfl
      rfl
  have hsame : ((fun d => decide (d.toDouble = x.neg)) ∘ fun c => (⟨!negative, c, e⟩ : Decimal)) =
      ((fun d => decide (d.toDouble = x)) ∘ fun c => (⟨negative, c, e⟩ : Decimal)) := by
    funext c
    simp only [Function.comp, hreads]
  rw [onGrid?, onGrid?, magnitude_neg, List.find?_map, List.find?_map, Option.map_map, hsame]
  rfl

/-- The shortest decimal of the opposite double has the other sign. -/
theorem shortest?_neg (h : x.shortest? = some d) : x.neg.shortest? = some d.neg := by
  cases x with
  | finite negative m s hcanonical =>
    have hmagnitude := magnitude_neg (finite negative m s hcanonical)
    have hgrid := fun e => onGrid?_neg (finite negative m s hcanonical) negative e
    rw [neg] at hmagnitude hgrid ⊢
    simp only [shortest?] at h ⊢
    split at h
    · rename_i hm
      rw [if_pos hm]
      cases h
      rfl
    · rename_i hm
      rw [if_neg hm]
      have hmap := congrArg (Option.map Decimal.neg) h
      rw [List.map_findSome?] at hmap
      rw [hmagnitude]
      simp only [hgrid]
      exact hmap
  | nan => cases h
  | infinity negative => cases h

end Double

end Loyalty
