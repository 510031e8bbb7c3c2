import Loyalty.Json.Writer
import Loyalty.Proofs.Action
import Loyalty.Proofs.Json.Reading
import Loyalty.Proofs.Number.Shortest
import Loyalty.Proofs.Text.Digits
import Loyalty.Proofs.Value.Spelling
import Loyalty.Proofs.Value.Tree

/-!
# Values with a JSON text

A value has a JSON text unless there is a date, a moment, the mark of an absent
field or an integer with too many digits in it. Nothing of that kind is ever read,
so what was read from one text can be written as another.
-/

namespace Loyalty.Json

/-- The whole part that is read of a number has digits, and they are below ten. -/
theorem digits_of_readWhole {cs rest : List Char} {ds : List Nat}
    (h : readWhole? cs = some (ds, rest)) : ds ≠ [] ∧ ∀ d ∈ ds, d < 10 := by
  unfold readWhole? at h
  split at h
  · cases h
    exact ⟨by simp, by simp⟩
  · split at h
    · cases h
    · rename_i hne htake
      cases h
      refine ⟨hne, fun d hd => ?_⟩
      exact lt_of_mem_takeDigits (by rw [htake]; exact hd)

/-- A number that is read has no more digits than the limit. -/
theorem hasTooManyDigits_of_number {cs rest : List Char} {t : NumberText} {n : Number}
    (hread : readNumberText? cs = some (t, rest)) (h : t.number = .ok n) :
    hasTooManyDigits n = false := by
  obtain ⟨⟨whole, afterWhole⟩, hwhole, hparts⟩ := Option.bind_eq_some_iff.mp hread
  obtain ⟨hne, hdigits⟩ := digits_of_readWhole hwhole
  have htext : t.whole = whole := by
    cases hparts
    rfl
  rw [← htext] at hne hdigits
  unfold NumberText.number at h
  split at h
  · split at h
    · cases h
    · rename_i hlimit
      cases h
      have habs : (if t.negative then -(ofDigits t.whole : Int) else ofDigits t.whole).natAbs =
          ofDigits t.whole := by
        split <;> omega
      have hcount := (digitCount_le_iff (List.length_pos_iff.mpr hne)).mpr
        (ofDigits_lt_pow hdigits)
      rw [hasTooManyDigits, habs]
      exact decide_eq_false (by omega)
  · cases h
    rfl

/-- A text is made of parts if there are parts. -/
private theorem exists_ok_map {α β : Type} {r : Except Unwritable α} {g : α → β} :
    (∃ b, r.map g = .ok b) ↔ ∃ a, r = .ok a := by
  simp [map_eq_ok]

/-- There is a part with the parts behind it if there are both. -/
private theorem exists_ok_parts {α β γ : Type} {r : Except Unwritable α}
    {rest : Except Unwritable β} {g : α → β → γ} :
    (∃ c, (do let a ← r; let b ← rest; return g a b) = .ok c) ↔
      (∃ a, r = .ok a) ∧ ∃ b, rest = .ok b := by
  cases r with
  | error e => simp [bind, Except.bind]
  | ok a =>
    cases rest with
    | error e => simp [bind, Except.bind]
    | ok b => simp [bind, Except.bind, pure, Except.pure]

/-- A value that has a JSON text. -/
def IsWritable (v : Value) : Prop := ∃ text, written v = .ok text

/-- A number can be written if it has few digits, and only then. -/
theorem isWritable_number {n : Number} :
    IsWritable (.number n) ↔ hasTooManyDigits n = false := by
  rw [IsWritable, written]
  cases hasTooManyDigits n with
  | true => simp
  | false => simp

/-- An array can be written if its items can, and only then. -/
theorem isWritable_array {kind : ArrayKind} {items : List Value} :
    IsWritable (.array kind items) ↔ ∀ v ∈ items, IsWritable v := by
  have hparts : (∃ parts, writtenItems items = .ok parts) ↔ ∀ v ∈ items, IsWritable v := by
    induction items with
    | nil => simp [writtenItems]
    | cons v vs ih =>
      rw [List.forall_mem_cons, ← ih, writtenItems]
      exact exists_ok_parts
  rw [← hparts, IsWritable, written]
  exact exists_ok_map

/-- An object can be written if its fields can, and only then. -/
theorem isWritable_object {fields : Fields} :
    IsWritable (.object fields) ↔ ∀ p ∈ fields, IsWritable p.2 := by
  have hparts : (∃ parts, writtenFields fields = .ok parts) ↔ ∀ p ∈ fields, IsWritable p.2 := by
    induction fields with
    | nil => simp [writtenFields]
    | cons field fields ih =>
      obtain ⟨key, v⟩ := field
      rw [List.forall_mem_cons, ← ih, writtenFields]
      exact exists_ok_parts
  rw [← hparts, IsWritable, written]
  exact exists_ok_map

/-- The integers in a value that can be written have few digits. -/
theorem hasFewDigits_of_isWritable {v : Value} (h : IsWritable v) : v.HasFewDigits := by
  induction v using Value.treeInduction with
  | number n => exact Value.hasFewDigits_number.mpr (isWritable_number.mp h)
  | array kind items ih =>
    exact Value.hasFewDigits_array.mpr fun v hv => ih v hv (isWritable_array.mp h v hv)
  | object fields ih =>
    exact Value.hasFewDigits_object.mpr fun p hp => ih p hp (isWritable_object.mp h p hp)
  | _ => exact Value.hasFewDigits_of_integers_eq_nil rfl

/-- Being writable is closed. -/
theorem closed_isWritable : Closed IsWritable where
  word := by
    intro word hword
    simp only [words, List.mem_cons, List.not_mem_nil, or_false] at hword
    rcases hword with rfl | rfl | rfl | rfl | rfl | rfl <;> exact ⟨_, rfl⟩
  number _ _ _ _ hread hnumber :=
    isWritable_number.mpr (hasTooManyDigits_of_number hread hnumber)
  text _ := ⟨_, rfl⟩
  list _ h := isWritable_array.mpr h
  object _ _ h := isWritable_object.mpr h

/-- Every document that is read can be written. -/
theorem isWritable_of_read {text : String} {v : Value} (h : read text = .ok v) : IsWritable v :=
  closed_isWritable.of_read h

end Loyalty.Json
