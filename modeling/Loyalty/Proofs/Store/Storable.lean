import Loyalty.Proofs.Json.RoundTrip
import Loyalty.Proofs.Json.Writable
import Loyalty.Store

/-!
# Storable values

What a column of documents holds is well-formed, has a JSON text, and is read
back from that text as it is. Stored rules are storable whatever was saved, and
so is the document of a row that holds them.
-/

namespace Loyalty

namespace Value

/-- A well-formed value that its JSON text gives back. -/
structure Storable (v : Value) : Prop where
  wellFormed : v.WellFormed
  reread_eq : Json.reread v = v
  exists_written : ∃ text, Json.written v = .ok text

/-- A storable value is read back from its text. -/
theorem Storable.read_written {v : Value} (hv : v.Storable) {text : List Char}
    (h : Json.written v = .ok text) : Json.read (String.ofList text) = .ok v := by
  have hread := Json.read_written hv.wellFormed h
  rwa [hv.reread_eq] at hread

/-- Texts are storable. -/
theorem storable_text (s : String) : (text s).Storable := ⟨trivial, rfl, _, rfl⟩

/-- Null is storable. -/
theorem storable_null : null.Storable := ⟨trivial, rfl, _, rfl⟩

private theorem hasTooManyDigits_of_fitsWord {n : Int} (hn : fitsWord n = true) :
    Json.hasTooManyDigits (.int n) = false := by
  simp only [fitsWord, Bool.and_eq_true, decide_eq_true_eq] at hn
  have hcount : digitCount n.natAbs ≤ 19 := (digitCount_le_iff (by decide)).mpr (by omega)
  have hlimit : ¬ Json.digitLimit < digitCount n.natAbs := by
    rw [Json.digitLimit]
    omega
  exact decide_eq_false hlimit

/-- A number in a column of documents is a double or has few digits. -/
private theorem hasTooManyDigits_inColumn (n : Number) :
    Json.hasTooManyDigits n.inColumn = false := by
  cases n with
  | int n =>
    rw [Number.inColumn]
    split
    · rename_i hn
      exact hasTooManyDigits_of_fitsWord hn
    · rfl
  | double x =>
    rw [Number.inColumn]
    split
    · rw [Double.wholeInColumn]
      split
      · split
        · rename_i hn
          refine hasTooManyDigits_of_fitsWord ?_
          simp only [fitsWord, Bool.and_eq_true, decide_eq_true_eq]
          omega
        · rfl
      · rfl
    · rfl

/-- A number is storable if it can be written. -/
theorem storable_number {n : Number} (hn : Json.hasTooManyDigits n = false) :
    (number n).Storable := by
  refine ⟨trivial, rfl, Json.writtenNumber n, ?_⟩
  rw [Json.written, hn]
  rfl

private theorem inColumn_of_not_number {v : Value} (hv : ∀ n, v ≠ number n) : v.inColumn = v := by
  cases v with
  | number n => exact absurd rfl (hv n)
  | _ => rfl

/-- A column keeps few digits. -/
private theorem hasFewDigits_inColumn {v : Value} (h : v.HasFewDigits) :
    v.inColumn.HasFewDigits := by
  by_cases hnumber : ∃ n, v = number n
  · obtain ⟨n, rfl⟩ := hnumber
    exact hasFewDigits_number.mpr (hasTooManyDigits_inColumn n)
  · rwa [inColumn_of_not_number (not_exists.mp hnumber)]

/-- Rules with a JSON text are stored as what is read back of it. -/
theorem stored_of_written {rules : Value} {text : List Char} (h : Json.written rules = .ok text) :
    ∃ v : Stored, rules.stored = .ok v ∧ v.val = (Json.reread rules).inColumn := by
  have hreread : Json.IsWritable (Json.reread rules) := ⟨text, (Json.written_reread rules).trans h⟩
  have hfew := hasFewDigits_inColumn (Json.hasFewDigits_of_isWritable hreread)
  refine ⟨⟨_, hfew⟩, ?_, rfl⟩
  rw [stored, h]
  exact dif_pos hfew

/-- Rules without a JSON text are not stored. -/
theorem stored_of_not_written {rules : Value} {reason : Json.Unwritable}
    (h : Json.written rules = .error reason) : rules.stored = .error (.notWritable reason) := by
  rw [stored, h]

/-- What is stored has a JSON text, and is what is read back of it. -/
theorem exists_written_of_stored {rules : Value} {v : Stored} (h : rules.stored = .ok v) :
    (∃ text, Json.written rules = .ok text) ∧ v.val = (Json.reread rules).inColumn := by
  cases hwritten : Json.written rules with
  | ok text =>
    obtain ⟨w, hw, hval⟩ := stored_of_written hwritten
    cases hw.symm.trans h
    exact ⟨⟨text, rfl⟩, hval⟩
  | error reason => cases (stored_of_not_written hwritten).symm.trans h

/-- Values with a JSON text are those that can be stored. -/
theorem exists_stored_iff {rules : Value} :
    (∃ v, rules.stored = .ok v) ↔ Json.IsWritable rules := by
  constructor
  · rintro ⟨v, hv⟩
    exact (exists_written_of_stored hv).1
  · rintro ⟨text, hwritten⟩
    obtain ⟨v, hv, -⟩ := stored_of_written hwritten
    exact ⟨v, hv⟩

/-- What is stored for well-formed rules is storable. -/
theorem storable_of_stored {rules : Value} {v : Stored} (hrules : rules.WellFormed)
    (h : rules.stored = .ok v) : v.val.Storable := by
  obtain ⟨⟨text, hwritten⟩, hval⟩ := exists_written_of_stored h
  rw [hval]
  by_cases hnumber : ∃ n, Json.reread rules = number n
  · obtain ⟨n, hn⟩ := hnumber
    rw [hn]
    exact storable_number (hasTooManyDigits_inColumn n)
  · rw [inColumn_of_not_number (not_exists.mp hnumber)]
    refine ⟨Json.wellFormed_reread hrules, Json.reread_reread rules, text, ?_⟩
    rw [Json.written_reread, hwritten]

/-- What is stored for a list is the list as it is read back. -/
theorem stored_list {items : List Value} {v : Stored} (h : (list items).stored = .ok v) :
    v.val = Json.reread (list items) :=
  (exists_written_of_stored h).2

end Value

namespace Row

private theorem storable_textOrNull (s : Option String) :
    ((s.map Value.text).getD .null).Storable := by
  cases s with
  | none => exact Value.storable_null
  | some s => exact Value.storable_text s

/-- The document of a row is storable if its rules are. -/
theorem storable_document {row : Row} (h : row.rules.Storable) : row.document.Storable := by
  have hversion := storable_textOrNull row.version
  have hdescription := storable_textOrNull row.description
  obtain ⟨version, hwversion⟩ := hversion.exists_written
  obtain ⟨description, hwdescription⟩ := hdescription.exists_written
  obtain ⟨rules, hwrules⟩ := h.exists_written
  have hstamp : Json.written (.text row.updatedAt.stamp) =
      .ok (Json.writtenText row.updatedAt.stamp) := rfl
  refine ⟨?_, ?_, ?_⟩
  · rw [document, Value.wellFormed_object]
    have hkeys : ["version", "description", "lastUpdated", "rules"].Nodup := by decide
    refine ⟨hkeys, ?_⟩
    intro p hp
    simp only [List.mem_cons, List.not_mem_nil, or_false] at hp
    rcases hp with rfl | rfl | rfl | rfl
    · exact hversion.wellFormed
    · exact hdescription.wellFormed
    · trivial
    · exact h.wellFormed
  · simp only [document, Json.reread, Json.rereadFields, hversion.reread_eq,
      hdescription.reread_eq, h.reread_eq]
  · rw [document, Json.written]
    simp only [Json.writtenFields, hwversion, hwdescription, hwrules, hstamp]
    exact ⟨_, rfl⟩

end Row

end Loyalty
