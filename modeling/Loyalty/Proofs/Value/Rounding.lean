import Loyalty.Proofs.Number.Cents
import Loyalty.Proofs.Number.Texts

/-!
# Numbers rounded to cents

A number is rounded to cents through its text. The decimal that the text denotes is rounded half
up, and the cents are rounded to the nearest double. The three steps keep the order and the sign
of doubles. Rounding again changes nothing, though the double of some cents can be written with
other digits than these: the search for its shortest decimal stops at the second place at the
latest, so that what is rounded the second time is a number of cents already.
-/

namespace Loyalty

open Double

/-! ## Half up, and then to the nearest double -/

/-- A number that can be rounded to cents: a finite double, or an integer with 398 digits at
most. -/
def Number.HasCents : Number → Prop
  | .int n => digitCount n.natAbs ≤ 398
  | .double x => x.isFinite = true

/-- What the text of a number denotes: the integer itself, or a shortest decimal of the double. -/
inductive Number.IsWritten : Number → Decimal → Prop where
  | int {n : Int} {d : Decimal} (htext : IsLiteral d.negative d.value (intText n).toList)
    (hvalue : d.value = n) : IsWritten (.int n) d
  | double {x : Double} {d : Decimal} (htext : IsLiteral d.negative d.value x.text.toList)
    (hshortest : x.IsShortest d) : IsWritten (.double x) d

/-- The cents of a decimal are rounded to the nearest double. -/
theorem Decimal.isRounding_cents (d : Decimal) :
    IsRounding d.negative ((signed d.negative d.cents : Int) / 100)
      (ofRatio d.negative d.cents 100) := by
  have h := isRounding_ofRatio d.negative d.cents (show 0 < 100 by decide)
  rwa [Nat.cast_ofNat] at h

/-- The text of a finite double denotes its shortest decimal. -/
theorem isWritten_of_shortest? {x : Double} {d : Decimal} (hx : x.isFinite = true)
    (h : x.shortest? = some d) : (Number.double x).IsWritten d := by
  refine .double ?_ (isShortest_of_shortest? hx h)
  have htext : x.text.toList = doubleLayout.write d := by
    cases x with
    | finite negative m s hcanonical =>
      change (String.ofList (((Double.finite negative m s hcanonical).shortest?.map
        doubleLayout.write).getD [])).toList = _
      rw [h, String.toList_ofList]
      rfl
    | nan => cases hx
    | infinity negative => cases hx
  rw [htext]
  exact isLiteral_write d

/-- An integer is its own decimal. -/
theorem value_ofInt (n : Int) : (Decimal.ofInt n).value = n := by
  simp only [Decimal.ofInt, Decimal.value, signed_natAbs, zpow_zero, mul_one]

/-- An integer with 398 digits at most has cents, and others have none. -/
theorem cents?_ofInt (n : Int) :
    (Decimal.ofInt n).cents? =
      if digitCount n.natAbs ≤ 398 then some (Decimal.ofInt n).cents else none := by
  obtain ⟨digits, hdigits⟩ : ∃ digits, digits = 398 := ⟨_, rfl⟩
  have hcents : (Decimal.ofInt n).cents = 100 * n.natAbs := by
    have hmul := (Decimal.ofInt n).cents_mul (show -2 ≤ (0 : Int) by decide)
    simpa [Decimal.numerator, Decimal.denominator, Decimal.ofInt] using hmul
  have hlimit : Nat.pow 10 400 = 100 * 10 ^ digits := by
    rw [show 400 = 2 + digits by omega]
    exact Nat.pow_add 10 2 digits
  have hcount : 100 * n.natAbs < 100 * 10 ^ digits ↔ digitCount n.natAbs ≤ digits := by
    rw [digitCount_le_iff (by omega), Nat.mul_lt_mul_left (by decide)]
  rw [Decimal.cents?_eq, hlimit, ← hdigits, Option.filter_some, hcents]
  simp only [hcount, decide_eq_true_eq]

/-- An integer is rounded to cents if it has 398 digits at most, and if it has more than 4300 it
has no text. -/
theorem round2_int (n : Int) :
    (Value.int n).round2 =
      if digitCount n.natAbs ≤ 398 then
        .ok (ofRatio (Decimal.ofInt n).negative (Decimal.ofInt n).cents 100)
      else if digitCount n.natAbs ≤ 4300 then .error .notRoundable
      else .error (.notWritable .tooManyDigits) := by
  have htext : Json.hasTooManyDigits (.int n) = decide (4300 < digitCount n.natAbs) := rfl
  simp only [Value.int, Value.round2, htext, decide_eq_true_eq, Value.round2.rounded,
    Decimal.round2?, cents?_ofInt]
  by_cases hshort : digitCount n.natAbs ≤ 398
  · rw [if_neg (by omega), if_pos hshort, if_pos hshort]
    rfl
  · by_cases hlong : digitCount n.natAbs ≤ 4300
    · rw [if_neg (by omega), if_neg hshort, if_neg hshort, if_pos hlong]
      rfl
    · rw [if_pos (by omega), if_neg hshort, if_neg hlong]

/-- A finite double and an integer with 398 digits at most are rounded half up, as the decimals
that their texts denote, and then to the nearest double. Infinities and longer integers cannot be
rounded to cents. -/
theorem round2_number :
    (∀ n : Number, n.HasCents → ∃ d cents y, n.IsWritten d ∧ IsHalfUp d.value cents ∧
      (Value.number n).round2 = .ok y ∧ IsRounding d.negative (cents / 100) y) ∧
    (∀ negative, (Value.double (.infinity negative)).round2 = .error .notRoundable) ∧
    ∀ n : Int, 398 < digitCount n.natAbs →
      (digitCount n.natAbs ≤ 4300 → (Value.int n).round2 = .error .notRoundable) ∧
      (4300 < digitCount n.natAbs →
        (Value.int n).round2 = .error (.notWritable .tooManyDigits)) := by
  refine ⟨fun n hn => ?_, round2_infinity, fun n hn => ⟨fun hle => ?_, fun hlt => ?_⟩⟩
  · cases n with
    | int n =>
      have hcount : digitCount n.natAbs ≤ 398 := hn
      have hround := round2_int n
      rw [if_pos hcount] at hround
      have htext := isLiteral_intText n
      rw [← value_ofInt n] at htext
      exact ⟨.ofInt n, _, _, .int htext (value_ofInt n), Decimal.isHalfUp_cents _, hround,
        Decimal.isRounding_cents _⟩
    | double x =>
      obtain ⟨d, hshortest, hround⟩ := exists_cents hn
      exact ⟨d, _, _, isWritten_of_shortest? hn hshortest, d.isHalfUp_cents, hround,
        d.isRounding_cents⟩
  · rw [round2_int, if_neg (by omega), if_pos hle]
  · rw [round2_int, if_neg (by omega), if_neg (by omega)]

/-- Five has cents, and ten to the power 398 has too many. -/
theorem round2_number_five :
    (∃ d cents y, (Number.int 5).IsWritten d ∧ IsHalfUp d.value cents ∧
      (Value.int 5).round2 = .ok y ∧ IsRounding d.negative (cents / 100) y) ∧
    (Value.int (10 ^ 398)).round2 = .error .notRoundable := by
  have hcount := digitCount_pow (show 0 < 398 by decide)
  refine ⟨round2_number.1 (.int 5) (show digitCount 5 ≤ 398 by decide +kernel), ?_⟩
  exact (round2_number.2.2 _ (by omega)).1 (by omega)

/-- Ten to the power 4300 has more than 398 digits, but it fails for want of a text. -/
theorem not_notRoundable_powerOfTen :
    ¬ (398 < digitCount ((10 : Int) ^ 4300).natAbs →
      (Value.int (10 ^ 4300)).round2 = .error .notRoundable) := by
  intro h
  have hcount := digitCount_pow (show 0 < 4300 by decide)
  rw [round2_int, if_neg (by omega), if_neg (by omega)] at h
  have hfault := h (by omega)
  cases hfault

/-! ## Order, sign and rounding again -/

namespace Double

variable {x y : Double} {d d' : Decimal}

/-- A double that is at most another one is rounded to cents that are at most the other's. -/
theorem le_of_round2 {x' y' : Double} (hx : x.isFinite = true) (hy : y.isFinite = true)
    (hx' : x'.isFinite = true) (hy' : y'.isFinite = true)
    (hround : (Value.double x).round2 = .ok x') (hround' : (Value.double y).round2 = .ok y')
    (h : x.value ≤ y.value) : x'.value ≤ y'.value := by
  obtain ⟨d, hd, hdround⟩ := exists_cents hx
  obtain ⟨d', hd', hdround'⟩ := exists_cents hy
  rw [hdround, Except.ok.injEq] at hround
  rw [hdround', Except.ok.injEq] at hround'
  subst hround
  subst hround'
  have hcents := d.isHalfUp_cents.mono d'.isHalfUp_cents (value_le_of_shortest? hx hy hd hd' h)
  refine (isNearest_ofRatio _ _ (by decide)).value_le (isNearest_ofRatio _ _ (by decide)) hx' hy' ?_
  have hcast : ((signed d.negative d.cents : Int) : ℚ) ≤ (signed d'.negative d'.cents : Int) := by
    exact_mod_cast hcents
  exact div_le_div_of_nonneg_right hcast (Nat.cast_nonneg 100)

/-! ### Sign -/

/-- The opposite double is rounded to the opposite cents. -/
theorem round2_neg {x' : Double} (hx : x.isFinite = true)
    (h : (Value.double x).round2 = .ok x') : (Value.double x.neg).round2 = .ok x'.neg := by
  obtain ⟨d, hshortest, hround⟩ := exists_cents hx
  obtain ⟨d', hshortest', hround'⟩ := exists_cents (value_neg hx).1
  rw [hround, Except.ok.injEq] at h
  rw [shortest?_neg hshortest, Option.some.injEq] at hshortest'
  subst h
  subst hshortest'
  rw [hround', Except.ok.injEq, ofRatio, ofRatio, neg_ofUnits]
  rfl

/-! ### Rounding again -/

/-- A quotient by a hundred is the double of a decimal with two places. -/
theorem ofRatio_hundred (negative : Bool) (n : Nat) :
    ofRatio negative n 100 = Decimal.toDouble ⟨negative, n, -2⟩ := by
  rw [Decimal.toDouble_eq]
  simp only [Decimal.numerator, Decimal.denominator]
  rw [show (-2 : Int).toNat = 0 from rfl, Nat.pow_zero, Nat.mul_one]
  rfl

/-- The double of some cents is a cent at least. -/
theorem le_abs_value_of_cents {negative : Bool} {n : Nat} (hn : n ≠ 0) (hx : x.isFinite = true)
    (hread : Decimal.toDouble ⟨negative, n, -2⟩ = x) : (10 : ℚ) ^ (-2 : Int) ≤ |x.value| := by
  obtain ⟨cent, hcent⟩ : ∃ cent, Decimal.toDouble ⟨false, 1, -2⟩ = cent := ⟨_, rfl⟩
  have hfinite : cent.isFinite = true := by
    rw [← hcent]
    decide +kernel
  have hunits : unitsPerOne ≤ 100 * cent.magnitude := by
    rw [← hcent]
    decide +kernel
  have hlarge : (10 : ℚ) ^ (-2 : Int) ≤ |cent.value| := by
    have hone : (0 : ℚ) < unitsPerOne := by exact_mod_cast unitsPerOne_pos
    have hcast : (unitsPerOne : ℚ) ≤ 100 * cent.magnitude := by exact_mod_cast hunits
    refine le_of_mul_le_mul_right ?_ hone
    rw [abs_value_mul]
    norm_num
    linarith
  have hcentNearest := isNearest_toDouble ⟨false, 1, -2⟩
  have hnearest := isNearest_toDouble ⟨negative, n, -2⟩
  rw [hcent] at hcentNearest
  rw [hread] at hnearest
  refine hlarge.trans (hcentNearest.abs_value_le hnearest hfinite hx ?_)
  have hone : (1 : ℚ) ≤ n := by exact_mod_cast Nat.one_le_iff_ne_zero.mpr hn
  rw [abs_value_decimal, abs_value_decimal, Nat.cast_one]
  exact mul_le_mul_of_nonneg_right hone (by positivity)

/-- The shortest decimal of some cents has two places at most. -/
theorem exponent_of_cents {negative : Bool} {n : Nat} (hx : x.isFinite = true)
    (h : x.shortest? = some d) (hread : Decimal.toDouble ⟨negative, n, -2⟩ = x) :
    -2 ≤ d.exponent := by
  by_cases hzero : x.value = 0
  · rw [eq_of_shortest?_of_value_eq_zero hzero h]
    exact show (-2 : Int) ≤ 0 by decide
  · have hn : n ≠ 0 := by
      rintro rfl
      exact hzero (value_eq_zero_of_toDouble hread)
    have hleading : -2 ≤ x.leading := by
      by_contra hlt
      have hupper := (leading_bounds hzero).2
      have hle : (10 : ℚ) ^ (x.leading + 1) ≤ 10 ^ (-2 : Int) :=
        zpow_le_zpow_right₀ (by norm_num) (by omega)
      exact absurd (le_abs_value_of_cents hn hx hread) (not_le.mpr (hupper.trans_le hle))
    exact le_exponent_of_reads hx hzero h hread hleading

/-- The double of some cents is rounded to itself. -/
theorem round2_of_cents {negative : Bool} {n : Nat} (hx : x.isFinite = true)
    (hread : ofRatio negative n 100 = x) : (Value.double x).round2 = .ok x := by
  obtain ⟨d, hshortest, hround⟩ := exists_cents hx
  rw [ofRatio_hundred] at hread
  have hvalue : Decimal.value ⟨d.negative, d.cents, -2⟩ = d.value := by
    rw [← d.cents_div (exponent_of_cents hx hshortest hread), Decimal.value]
    norm_num
    ring
  rw [hround, ofRatio_hundred, Except.ok.injEq, ← toDouble_of_shortest? hshortest]
  exact Decimal.toDouble_congr rfl hvalue

/-- Rounding a finite double to cents gives a finite double that is rounded to itself. -/
theorem exists_round2_fixed (hx : x.isFinite = true) :
    ∃ x', (Value.double x).round2 = .ok x' ∧ x'.isFinite = true ∧
      (Value.double x').round2 = .ok x' := by
  obtain ⟨x', cents, hround, hcents⟩ := exists_roundedToCents hx
  obtain ⟨d, -, hround'⟩ := exists_cents hx
  rw [hround', Except.ok.injEq] at hround
  exact ⟨x', by rw [hround', hround], hcents.finite, round2_of_cents hcents.finite hround⟩

end Double

/-- Rounding finite doubles to cents gives finite doubles. Rounding them again changes nothing,
the opposite double is rounded to the opposite cents, and the order is kept. -/
theorem round2_stable {x y : Double} (hx : x.isFinite = true) (hy : y.isFinite = true) :
    ∃ x' y', (Value.double x).round2 = .ok x' ∧ (Value.double y).round2 = .ok y' ∧
      x'.isFinite = true ∧ y'.isFinite = true ∧
      (Value.double x').round2 = .ok x' ∧
      (Value.double x.neg).round2 = .ok x'.neg ∧
      (x.le y = true → x'.le y' = true) := by
  obtain ⟨x', hround, hx', hfixed⟩ := exists_round2_fixed hx
  obtain ⟨y', hround', hy', -⟩ := exists_round2_fixed hy
  refine ⟨x', y', hround, hround', hx', hy', hfixed, round2_neg hx hround, fun hle => ?_⟩
  rw [le_iff_of_isFinite hx' hy']
  exact le_of_round2 hx hy hx' hy' hround hround' ((le_iff_of_isFinite hx hy).mp hle)

/-- An eighth and a half are finite doubles. -/
theorem round2_stable_eighth :
    (ofRatio false 1 8).isFinite = true ∧ (ofRatio false 1 2).isFinite = true ∧
      ∃ x' y', (Value.double (ofRatio false 1 8)).round2 = .ok x' ∧
        (Value.double (ofRatio false 1 2)).round2 = .ok y' ∧
        x'.isFinite = true ∧ y'.isFinite = true ∧
        (Value.double x').round2 = .ok x' ∧
        (Value.double (ofRatio false 1 8).neg).round2 = .ok x'.neg ∧
        ((ofRatio false 1 8).le (ofRatio false 1 2) = true → x'.le y' = true) := by
  have heighth : (ofRatio false 1 8).isFinite = true := by decide +kernel
  have hhalf : (ofRatio false 1 2).isFinite = true := by decide +kernel
  exact ⟨heighth, hhalf, round2_stable heighth hhalf⟩

end Loyalty
