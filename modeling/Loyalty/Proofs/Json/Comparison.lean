import Loyalty.Proofs.Json.Writable
import Loyalty.Proofs.Number.Cents
import Loyalty.Proofs.Value.Equality

/-!
# What equals a writable value

Loose equality goes by exact values. An integer that equals another one has the same
digits, and one that equals a double has few of them. A date, a moment or the mark of
an absent field equals nothing that can be written. So what equals a value with a JSON
text has a JSON text itself.
-/

namespace Loyalty.Json

open Loyalty.Value

/-- An integer with the value of a double is below the limit of digits. -/
private theorem hasTooManyDigits_of_level? {n : Int} {x : Double}
    (h : x.level? = some (.at (n * Double.unitsPerOne))) :
    hasTooManyDigits (.int n) = false := by
  obtain ⟨k, j, hk, hj⟩ : ∃ k j, k = 1024 ∧ j = 1074 := ⟨_, _, rfl, rfl⟩
  obtain ⟨hfinite, hunits⟩ : x.isFinite = true ∧ x.units = n * Double.unitsPerOne := by
    cases x with
    | nan => cases h
    | infinity negative => cases negative <;> cases h
    | finite negative m s hcanonical =>
      simp only [Double.level?, Option.some.injEq, Level.at.injEq] at h
      exact ⟨rfl, h⟩
  have hmagnitude : n.natAbs * 2 ^ j < 2 ^ (k + j) := by
    have hlt := Double.magnitude_lt_of_isFinite hfinite (show 2098 ≤ k + j by omega)
    rwa [Double.magnitude, hunits, Int.natAbs_mul, Int.natAbs_natCast,
      Double.unitsPerOne_eq hj] at hlt
  have hlt : n.natAbs < 10 ^ 342 := by
    rw [Nat.pow_add] at hmagnitude
    calc n.natAbs < 2 ^ k := Nat.lt_of_mul_lt_mul_right hmagnitude
      _ ≤ 10 ^ 342 := Decimal.two_pow_le_ten_pow (by omega)
  have hcount : digitCount n.natAbs ≤ 342 := (digitCount_le_iff (by decide)).mpr hlt
  rw [hasTooManyDigits, digitLimit]
  exact decide_eq_false (by omega)

/-- A number that equals one with few digits has few digits itself. -/
theorem hasTooManyDigits_of_eq {x y : Number} (h : x.eq y = true)
    (hy : hasTooManyDigits y = false) : hasTooManyDigits x = false := by
  obtain ⟨l, hx, hl⟩ := Number.eq_iff.mp h
  cases x with
  | double x => rfl
  | int n =>
    cases hx
    cases y with
    | double y => exact hasTooManyDigits_of_level? hl
    | int m =>
      simp only [Number.level?, Option.some.injEq, Level.at.injEq] at hl
      have hone : (Double.unitsPerOne : Int) ≠ 0 := by
        have := Double.unitsPerOne_pos
        omega
      rwa [← Int.eq_of_mul_eq_mul_right hone hl]

private theorem isWritable_of_looseEqItems {nan marks : Identity} {vs ws : List Value}
    (ih : ∀ v ∈ vs, ∀ w, looseEq nan marks v w = true → IsWritable w → IsWritable v)
    (h : looseEqItems nan marks vs ws = true) (hws : ∀ w ∈ ws, IsWritable w) :
    ∀ v ∈ vs, IsWritable v := by
  induction vs generalizing ws with
  | nil => simp
  | cons v vs ihs =>
    cases ws with
    | nil => simp [looseEqItems] at h
    | cons w ws =>
      simp only [looseEqItems, Bool.and_eq_true] at h
      rw [List.forall_mem_cons] at hws ⊢
      have hhead := ih v (by simp) w h.1 hws.1
      exact ⟨hhead, ihs (fun v' hv' => ih v' (by simp [hv'])) h.2 hws.2⟩

/-- What equals a value with a JSON text has one too. -/
theorem isWritable_of_looseEq {nan marks : Identity} {v w : Value}
    (h : looseEq nan marks v w = true) (hw : IsWritable w) : IsWritable v := by
  induction v using treeInduction generalizing w with
  | null => exact ⟨_, rfl⟩
  | bool b => exact ⟨_, rfl⟩
  | text s => exact ⟨_, rfl⟩
  | number n =>
    obtain ⟨y, hy, hny⟩ := (looseEq_of_number? rfl w).mp h
    have hdigits : hasTooManyDigits y = false := by
      cases w with
      | bool b =>
        cases hy
        cases b <;> rfl
      | number m =>
        cases hy
        exact isWritable_number.mp hw
      | _ => cases hy
    rw [isWritable_number]
    rcases numberEq_iff.mp hny with hlevels | ⟨-, hn, -⟩
    · exact hasTooManyDigits_of_eq (Number.eq_iff.mpr hlevels) hdigits
    · cases n with
      | int n => cases hn
      | double x => rfl
  | array kind items ih =>
    cases w with
    | array kind' items' =>
      simp only [looseEq, Bool.and_eq_true] at h
      rw [isWritable_array] at hw ⊢
      exact isWritable_of_looseEqItems (fun u hu _ => ih u hu) h.2 hw
    | _ => simp [looseEq] at h
  | object fields ih =>
    cases w with
    | object fields' =>
      simp only [looseEq, Bool.and_eq_true, looseEqFields_iff] at h
      rw [isWritable_object] at hw ⊢
      intro p hp
      obtain ⟨u, hu, hpu⟩ := h.2 p hp
      exact ih p hp hpu (hw _ (Fields.mem_of_lookup hu))
    | _ => simp [looseEq] at h
  | date d =>
    obtain ⟨text, htext⟩ := hw
    cases w with
    | date e => cases htext
    | _ => simp [looseEq] at h
  | moment m =>
    obtain ⟨text, htext⟩ := hw
    cases w with
    | moment n => cases htext
    | _ => simp [looseEq] at h
  | missing =>
    obtain ⟨text, htext⟩ := hw
    cases w with
    | missing => cases htext
    | _ => simp [looseEq] at h

end Loyalty.Json
