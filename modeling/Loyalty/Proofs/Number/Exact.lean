import Loyalty.Proofs.Number.Values
import Loyalty.Proofs.Value.Equality
import Loyalty.Value.Text

/-!
# Exact values of numbers

A finite number, integer or double, has an exact value, and equality of numbers is equality of
these values. All that is made of a number but its kind depends on the value alone: the integer
that it is equal to, its text as an integer, and the double that stands in its place, up to the
sign of zero.
-/

namespace Loyalty

namespace Number

/-- The count of the smallest unit of doubles in a number, zero where it is not
finite. -/
def units : Number → Int
  | .int n => n * Double.unitsPerOne
  | .double x => x.units

/-- Neither an infinity nor not-a-number; integers of any size are finite. -/
def Finite : Number → Prop
  | .int _ => True
  | .double x => x.isFinite = true

variable {x y : Number}

/-- A finite number stands where its units are. -/
theorem Finite.level?_eq (hx : x.Finite) : x.level? = some (.at x.units) := by
  cases x with
  | int n => rfl
  | double d => exact Double.level?_of_isFinite hx

/-- Finite numbers are ordered by their units. -/
theorem Finite.lt_iff (hx : x.Finite) (hy : y.Finite) : x.lt y = true ↔ x.units < y.units := by
  simp only [Number.lt, hx.level?_eq, hy.level?_eq, Level.lt, decide_eq_true_eq]

/-- The exact value of a finite number, zero for the others. -/
def value (n : Number) : ℚ := n.units / Double.unitsPerOne

/-- An integer is its own value. -/
theorem value_int (i : Int) : (Number.int i).value = i := by
  have hone : (Double.unitsPerOne : ℚ) ≠ 0 := by exact_mod_cast Double.unitsPerOne_pos.ne'
  rw [value, units, Int.cast_mul, Int.cast_natCast, mul_div_cancel_right₀ _ hone]

/-- Two numbers have one value if they have the same units. -/
theorem value_eq_iff : x.value = y.value ↔ x.units = y.units := by
  have hone : (Double.unitsPerOne : ℚ) ≠ 0 := by exact_mod_cast Double.unitsPerOne_pos.ne'
  rw [value, value, div_left_inj' hone, Int.cast_inj]

/-- Two numbers are the same if both are finite with one exact value, or one infinity. -/
inductive Same : Number → Number → Prop
  | finite {x y : Number} (hx : x.Finite) (hy : y.Finite) (h : x.value = y.value) : Same x y
  | infinity (negative : Bool) :
    Same (.double (.infinity negative)) (.double (.infinity negative))

/-- Sameness goes both ways. -/
theorem Same.symm (h : x.Same y) : y.Same x := by
  cases h with
  | finite hx hy h => exact .finite hy hx h.symm
  | infinity negative => exact .infinity negative

/-- A number with a place on the line is finite and stands where its units are, or it is an
infinity. -/
theorem cases_of_level?_eq {l : Level} (h : x.level? = some l) :
    (x.Finite ∧ l = .at x.units) ∨
      ∃ negative, x = .double (.infinity negative) ∧ l = if negative then .below else .above := by
  cases x with
  | int n => exact .inl ⟨trivial, (Option.some.inj h).symm⟩
  | double d =>
    cases d with
    | finite negative m s hcanonical => exact .inl ⟨rfl, (Option.some.inj h).symm⟩
    | nan => cases h
    | infinity negative =>
      refine .inr ⟨negative, rfl, ?_⟩
      cases negative <;> exact (Option.some.inj h).symm

/-- Numbers are equal if they are the same. -/
theorem eq_iff_same : x.eq y = true ↔ x.Same y := by
  rw [Number.eq_iff]
  constructor
  · rintro ⟨l, hx, hy⟩
    rcases cases_of_level?_eq hx with ⟨hxfinite, rfl⟩ | ⟨negative, rfl, rfl⟩
    · rcases cases_of_level?_eq hy with ⟨hyfinite, hunits⟩ | ⟨negative, -, hinfinity⟩
      · exact .finite hxfinite hyfinite (value_eq_iff.mpr (Level.at.inj hunits))
      · cases negative <;> cases hinfinity
    · rcases cases_of_level?_eq hy with ⟨-, hfinite⟩ | ⟨negative', rfl, hsign⟩
      · cases negative <;> cases hfinite
      · have hnegative : negative = negative' := by
          cases negative <;> cases negative' <;> first | rfl | cases hsign
        rw [hnegative]
        exact .infinity negative'
  · rintro (⟨hx, hy, h⟩ | ⟨negative⟩)
    · exact ⟨_, hx.level?_eq, by rw [hy.level?_eq, value_eq_iff.mp h]⟩
    · cases negative
      · exact ⟨_, rfl, rfl⟩
      · exact ⟨_, rfl, rfl⟩

/-- So are the leaves of values, where not-a-number differs from itself. -/
theorem numberEq_distinct_iff : Value.numberEq .distinct x y = true ↔ x.Same y := by
  simp [Value.numberEq, eq_iff_same]

/-- Truth values that count as the same number are the same. -/
theorem Same.flag_inj {b c : Bool}
    (h : Same (.int (if b then 1 else 0)) (.int (if c then 1 else 0))) : b = c := by
  have heq := eq_iff_same.mpr h
  cases b <;> cases c <;> first | rfl | cases heq

/-! ## The double in place of a number -/

/-- The double in place of a finite number is the one nearest to it. -/
theorem isNearest_of_toDouble? {n : Number} {x : Double} (h : n.toDouble? = some x)
    (hfinite : n.Finite) : x.isFinite = true ∧ x.IsNearest n.value := by
  cases n with
  | int i =>
    obtain ⟨hx, hnearest⟩ := Double.ofInt?_eq_some_iff.mp h
    rw [value_int, ← hnearest]
    exact ⟨hnearest ▸ hx, Double.isNearest_nearestInt i⟩
  | double y =>
    have hy : y = x := Option.some.inj h
    subst hy
    exact ⟨hfinite, Double.isNearest_value hfinite⟩

/-- The finite numbers without a double in their place are those from half a place above the
largest double on. -/
theorem toDouble?_eq_none_iff (hx : x.Finite) :
    x.toDouble? = none ↔ (2 : ℚ) ^ 1024 - 2 ^ 970 ≤ |x.value| := by
  cases x with
  | int n => rw [value_int, toDouble?, Double.ofInt?_eq_none_iff]
  | double d =>
    refine iff_of_false (by simp [toDouble?]) ?_
    rw [not_le]
    exact (Double.isNearest_value hx).isFinite_iff.mp hx

/-- In place of the same numbers stand doubles with the same place, or none. -/
theorem Same.map_toDouble? (h : x.Same y) :
    x.toDouble?.map Double.level? = y.toDouble?.map Double.level? := by
  cases h with
  | infinity negative => rfl
  | finite hx hy h =>
    have hnone : x.toDouble? = none ↔ y.toDouble? = none := by
      rw [toDouble?_eq_none_iff hx, toDouble?_eq_none_iff hy, h]
    cases hxd : x.toDouble? with
    | none => rw [hnone.mp hxd]
    | some d =>
      cases hyd : y.toDouble? with
      | none => cases hxd.symm.trans (hnone.mpr hyd)
      | some e =>
        obtain ⟨hd, hdnearest⟩ := isNearest_of_toDouble? hxd hx
        obtain ⟨he, henearest⟩ := isNearest_of_toDouble? hyd hy
        rw [← h] at henearest
        have hvalue := hdnearest.value_eq henearest hd he
        have hsame := Number.eq_iff_same.mpr (@Same.finite (.double d) (.double e) hd he hvalue)
        obtain ⟨l, hdl, hel⟩ := Number.eq_iff.mp hsame
        exact congrArg some (hdl.trans hel.symm)

/-! ## The text of a number -/

/-- The integer that a number is equal to, if it has no fraction. -/
def toInt? : Number → Option Int
  | .int n => some n
  | .double x => x.toInt?

/-- A number is equal to an integer if it is finite and that is its value. -/
theorem toInt?_eq_some_iff {n : Int} : x.toInt? = some n ↔ x.Finite ∧ x.value = n := by
  cases x with
  | int m => simp [toInt?, Finite, value_int]
  | double d => exact Double.toInt?_eq_some_iff

/-- The same numbers are equal to the same integer. -/
theorem Same.toInt?_eq (h : x.Same y) : x.toInt? = y.toInt? := by
  cases h with
  | infinity negative => rfl
  | finite hx hy h =>
    ext n
    rw [toInt?_eq_some_iff, toInt?_eq_some_iff, h]
    exact and_congr_left fun _ => iff_of_true hx hy

/-- The same numbers have the same text, as integers where they are integers. -/
theorem Same.plainText_eq (h : x.Same y) : x.plainText = y.plainText := by
  have htext : ∀ {x : Number} {n : Int}, x.toInt? = some n → x.plainText = intText n := by
    intro x n hn
    cases x with
    | int m => cases hn; rfl
    | double d =>
      have hd : d.toInt? = some n := hn
      simp only [plainText, hd]
  have hint := h.toInt?_eq
  cases hx : x.toInt? with
  | some n => rw [htext hx, htext (hint.symm.trans hx)]
  | none =>
    -- A number with a fraction is a double, and the only one with its value.
    have hy := hint.symm.trans hx
    cases h with
    | infinity negative => rfl
    | @finite x y hxfinite hyfinite h =>
      cases x with
      | int m => cases hx
      | double d =>
        cases y with
        | int m => cases hy
        | double e =>
          have hvalue : d.value = e.value := h
          have hne : d.value ≠ 0 := by
            intro hzero
            have hd : d.toInt? = some 0 :=
              Double.toInt?_eq_some_iff.mpr ⟨hxfinite, by rw [hzero, Int.cast_zero]⟩
            cases hd.symm.trans hx
          have hnearest := Double.isNearest_value hyfinite
          rw [← hvalue] at hnearest
          rw [(Double.isNearest_value hxfinite).eq_of_ne_zero hnearest hne]

end Number

end Loyalty
