import Loyalty.Proofs.Number.Shortest
import Loyalty.Proofs.Value.Parts
import Loyalty.Value.Sequence
import Loyalty.Value.Text

/-!
# Values that can be spelled

A value has a text if none of its integers has too many digits, and only then. The
parts of a value with a text have one too, and so have all values but integers,
arrays and objects.
-/

namespace Loyalty

namespace Value

/-! ## The digits of integers -/

/-- The integers of an array are those of its items. -/
theorem hasFewDigits_array {kind : ArrayKind} {items : List Value} :
    (Value.array kind items).HasFewDigits ↔ ∀ v ∈ items, v.HasFewDigits := by
  have hitems : (∀ n ∈ itemIntegers items, digitCount n.natAbs ≤ Json.digitLimit) ↔
      ∀ v ∈ items, v.HasFewDigits := by
    induction items with
    | nil => simp [itemIntegers]
    | cons v vs ih =>
      rw [itemIntegers, List.forall_mem_append, List.forall_mem_cons, ih]
      rfl
  rw [← hitems, HasFewDigits, integers]

/-- The integers of an object are those of its fields. -/
theorem hasFewDigits_object {fields : Fields} :
    (Value.object fields).HasFewDigits ↔ ∀ p ∈ fields, p.2.HasFewDigits := by
  have hfields : (∀ n ∈ fieldIntegers fields, digitCount n.natAbs ≤ Json.digitLimit) ↔
      ∀ p ∈ fields, p.2.HasFewDigits := by
    induction fields with
    | nil => simp [fieldIntegers]
    | cons field fields ih =>
      rw [fieldIntegers, List.forall_mem_append, List.forall_mem_cons, ih]
      rfl
  rw [← hfields, HasFewDigits, integers]

/-- A number has few digits if it can be written, and only then. -/
theorem hasFewDigits_number {n : Number} :
    (Value.number n).HasFewDigits ↔ Json.hasTooManyDigits n = false := by
  cases n with
  | int n => simp [HasFewDigits, integers, Json.hasTooManyDigits]
  | double x => simp [HasFewDigits, integers, Json.hasTooManyDigits]

/-- A power of ten has a digit more than its exponent. -/
theorem not_hasFewDigits_pow {k : Nat} (hk : Json.digitLimit ≤ k) :
    ¬ (Value.int (10 ^ k)).HasFewDigits := by
  intro hfew
  have hpos : 0 < Json.digitLimit := by decide
  have hcount : digitCount (10 ^ k : Int).natAbs ≤ Json.digitLimit :=
    hfew _ (List.mem_singleton.mpr rfl)
  rw [digitCount_pow (Nat.lt_of_lt_of_le hpos hk)] at hcount
  omega

/-- A power of ten counts as true. -/
theorem isTruthy_pow (k : Nat) : (Value.int (10 ^ k)).isTruthy = true := by
  simp [int, isTruthy, Number.isZero]

/-- There are no integers in a value of another kind. -/
theorem hasFewDigits_of_integers_eq_nil {v : Value} (h : v.integers = []) : v.HasFewDigits := by
  rw [HasFewDigits, h]
  exact List.forall_mem_nil _

/-- A text has no integers in it. -/
@[simp] theorem hasFewDigits_text (s : String) : (text s).HasFewDigits :=
  hasFewDigits_of_integers_eq_nil rfl

/-- Null has no integers in it. -/
@[simp] theorem hasFewDigits_null : null.HasFewDigits := hasFewDigits_of_integers_eq_nil rfl

/-- The fields of an object with few digits have few digits. -/
theorem HasFewDigits.getD {fields : Fields} {default : Value}
    (h : (Value.object fields).HasFewDigits) (hdefault : default.HasFewDigits) (key : String) :
    ((fields.lookup key).getD default).HasFewDigits := by
  cases hlookup : fields.lookup key with
  | none => exact hdefault
  | some v => exact hasFewDigits_object.mp h _ (Fields.mem_of_lookup hlookup)

/-- So they have with null in the place of an absent one. -/
theorem HasFewDigits.get {fields : Fields} (h : (Value.object fields).HasFewDigits)
    (key : String) : (fields.get key).HasFewDigits :=
  h.getD hasFewDigits_null key

/-- The parts of a value with few digits have few digits. -/
theorem HasFewDigits.of_isPart {part v : Value} (h : v.HasFewDigits) (hpart : IsPart part v) :
    part.HasFewDigits := by
  induction hpart with
  | self => exact h
  | item hmem _ ih => exact ih (hasFewDigits_array.mp h _ hmem)
  | field hmem _ ih => exact ih (hasFewDigits_object.mp h _ hmem)

/-- The elements of a value with few digits have few digits. -/
theorem HasFewDigits.of_mem_elements {v : Value} {items : List Value} (h : v.HasFewDigits)
    (helements : v.elements = .ok items) : ∀ item ∈ items, item.HasFewDigits := by
  cases v with
  | array kind vs =>
    cases helements
    exact hasFewDigits_array.mp h
  | text s =>
    cases helements
    exact List.forall_mem_map.mpr fun c _ => hasFewDigits_text _
  | object fields =>
    cases helements
    exact List.forall_mem_map.mpr fun p _ => hasFewDigits_text _
  | _ => cases helements

/-! ## Texts -/

/-- A value with few digits is displayed as it is spelled. -/
theorem display_of_hasFewDigits {v : Value} (h : v.HasFewDigits) : v.display = .ok v.spelling :=
  if_pos h

/-- A value with an integer of too many digits is not displayed. -/
theorem display_of_not_hasFewDigits {v : Value} (h : ¬ v.HasFewDigits) :
    v.display = .error (.notWritable .tooManyDigits) :=
  if_neg h

/-- A text is displayed as it is. -/
@[simp] theorem display_text (s : String) : (text s).display = .ok s :=
  display_of_hasFewDigits (hasFewDigits_text s)

/-- Only values with few digits are displayed, as they are spelled. -/
theorem display_eq_ok_iff {v : Value} {s : String} :
    v.display = .ok s ↔ v.HasFewDigits ∧ v.spelling = s := by
  by_cases h : v.HasFewDigits
  · simp [display_of_hasFewDigits h, h]
  · simp [display_of_not_hasFewDigits h, h]

/-- Too many digits are the only thing that keeps a value from being displayed. -/
theorem display_eq_error_iff {v : Value} {f : Fault} :
    v.display = .error f ↔ ¬ v.HasFewDigits ∧ f = .notWritable .tooManyDigits := by
  by_cases h : v.HasFewDigits
  · simp [display_of_hasFewDigits h, h]
  · simp [display_of_not_hasFewDigits h, h, eq_comm]

/-- The text that conditions look at is there whenever the displayed one is. -/
theorem plainText_eq_error_iff {v : Value} {f : Fault} :
    v.plainText = .error f ↔ ¬ v.HasFewDigits ∧ f = .notWritable .tooManyDigits := by
  cases v with
  | bool b =>
    have hfew : (bool b).HasFewDigits := hasFewDigits_of_integers_eq_nil rfl
    exact iff_of_false nofun fun h => h.1 hfew
  | number n =>
    cases n with
    | int n => exact display_eq_error_iff
    | double x =>
      have hfew : (double x).HasFewDigits := hasFewDigits_of_integers_eq_nil rfl
      exact iff_of_false nofun fun h => h.1 hfew
  | _ => exact display_eq_error_iff

/-- The plain text of a number with few digits. -/
theorem plainText_number {n : Number} (h : (number n).HasFewDigits) :
    (number n).plainText = .ok n.plainText := by
  cases n with
  | int n => exact display_of_hasFewDigits h
  | double x => rfl

end Value

end Loyalty
