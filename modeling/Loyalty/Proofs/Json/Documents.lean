import Loyalty.Proofs.Json.Writable
import Loyalty.Proofs.Store.Storable

/-!
# JSON documents

Words, numbers, texts, and lists and objects of such values are JSON documents, an
object with each key once. Reading their text gives them back as they are, and all
of them have a text but those with an integer of too many digits in them, which is
the only thing that their writing can fail on. What is read is such a document.
-/

namespace Loyalty

namespace Json

/-- Items that are read as they were written. -/
theorem rereadItems_of_forall {items : List Value} (h : ∀ v ∈ items, reread v = v) :
    rereadItems items = items := by
  induction items with
  | nil => rfl
  | cons v vs ih =>
    obtain ⟨hv, hvs⟩ := List.forall_mem_cons.mp h
    rw [rereadItems, hv, ih hvs]

/-- Fields that are read as they were written. -/
theorem rereadFields_of_forall {fields : Fields} (h : ∀ p ∈ fields, reread p.2 = p.2) :
    rereadFields fields = fields := by
  induction fields with
  | nil => rfl
  | cons field fields ih =>
    obtain ⟨key, v⟩ := field
    obtain ⟨hv, hfields⟩ := List.forall_mem_cons.mp h
    rw [rereadFields, hv, ih hfields]

/-- The writing of some items fails on one of them. -/
theorem exists_of_writtenItems_eq_error {items : List Value} {reason : Unwritable}
    (h : writtenItems items = .error reason) : ∃ v ∈ items, written v = .error reason := by
  induction items with
  | nil => cases h
  | cons v vs ih =>
    rw [writtenItems] at h
    rcases bind_eq_error.mp h with hpart | ⟨part, -, h⟩
    · exact ⟨v, List.mem_cons_self, hpart⟩
    · rcases bind_eq_error.mp h with hmore | ⟨more, -, h⟩
      · obtain ⟨w, hw, hreason⟩ := ih hmore
        exact ⟨w, List.mem_cons_of_mem _ hw, hreason⟩
      · cases h

/-- The writing of some fields fails on one of them. -/
theorem exists_of_writtenFields_eq_error {fields : Fields} {reason : Unwritable}
    (h : writtenFields fields = .error reason) : ∃ p ∈ fields, written p.2 = .error reason := by
  induction fields with
  | nil => cases h
  | cons field fields ih =>
    obtain ⟨key, v⟩ := field
    rw [writtenFields] at h
    rcases bind_eq_error.mp h with hpart | ⟨part, -, h⟩
    · exact ⟨_, List.mem_cons_self, hpart⟩
    · rcases bind_eq_error.mp h with hmore | ⟨more, -, h⟩
      · obtain ⟨p, hp, hreason⟩ := ih hmore
        exact ⟨p, List.mem_cons_of_mem _ hp, hreason⟩
      · cases h

end Json

namespace Value

/-- A JSON document. -/
inductive IsDocument : Value → Prop where
  | null : IsDocument .null
  | bool (b : Bool) : IsDocument (.bool b)
  | number (n : Number) : IsDocument (.number n)
  | text (s : String) : IsDocument (.text s)
  | list {items : List Value} (hitems : ∀ v ∈ items, IsDocument v) :
      IsDocument (.array .list items)
  | object {fields : Fields} (hkeys : (fields.map Prod.fst).Nodup)
      (hfields : ∀ p ∈ fields, IsDocument p.2) : IsDocument (.object fields)

namespace IsDocument

variable {v : Value}

/-- Documents are well-formed. -/
theorem wellFormed (h : v.IsDocument) : v.WellFormed := by
  induction h with
  | null | bool | number | text => trivial
  | list _ ih => exact wellFormed_array.mpr ih
  | object hkeys _ ih => exact wellFormed_object.mpr ⟨hkeys, ih⟩

/-- The items of a document are documents. -/
theorem of_mem_items {kind : ArrayKind} {items : List Value}
    (h : (Value.array kind items).IsDocument) (hv : v ∈ items) : v.IsDocument := by
  cases h with
  | list hitems => exact hitems v hv

/-- The fields of a document are documents. -/
theorem of_mem_fields {fields : Fields} (h : (Value.object fields).IsDocument)
    {p : String × Value} (hp : p ∈ fields) : p.2.IsDocument := by
  cases h with
  | object _ hfields => exact hfields p hp

/-- A document is read as it was written. -/
theorem reread_eq (h : v.IsDocument) : Json.reread v = v := by
  induction h with
  | null | bool | number | text => rfl
  | list _ ih => rw [Json.reread, Json.rereadItems_of_forall ih]
  | object _ _ ih => rw [Json.reread, Json.rereadFields_of_forall ih]

/-- A document can be written if its integers have few digits, and only then. -/
theorem isWritable_iff (h : v.IsDocument) : Json.IsWritable v ↔ v.HasFewDigits := by
  induction h with
  | null | bool | text => exact iff_of_true ⟨_, rfl⟩ (by simp [HasFewDigits, integers])
  | number n => rw [Json.isWritable_number, hasFewDigits_number]
  | list _ ih =>
    rw [Json.isWritable_array, hasFewDigits_array]
    exact forall₂_congr ih
  | object _ _ ih =>
    rw [Json.isWritable_object, hasFewDigits_object]
    exact forall₂_congr ih

/-- The writing of a document fails on nothing but the digits of an integer. -/
theorem eq_tooManyDigits (h : v.IsDocument) {reason : Json.Unwritable}
    (hreason : Json.written v = .error reason) : reason = .tooManyDigits := by
  induction h with
  | null | bool | text => cases hreason
  | number n =>
    rw [Json.written] at hreason
    split at hreason
    · cases hreason
      rfl
    · cases hreason
  | list _ ih =>
    rw [Json.written, map_eq_error] at hreason
    obtain ⟨v, hv, hitem⟩ := Json.exists_of_writtenItems_eq_error hreason
    exact ih v hv hitem
  | object _ _ ih =>
    rw [Json.written, map_eq_error] at hreason
    obtain ⟨p, hp, hfield⟩ := Json.exists_of_writtenFields_eq_error hreason
    exact ih p hp hfield

/-- The writing of a document fails if an integer in it has too many digits. -/
theorem written_of_not_hasFewDigits (h : v.IsDocument) (hmany : ¬ v.HasFewDigits) :
    Json.written v = .error .tooManyDigits := by
  cases hwritten : Json.written v with
  | ok text => exact absurd (h.isWritable_iff.mp ⟨text, hwritten⟩) hmany
  | error reason => rw [h.eq_tooManyDigits hwritten]

/-- A document whose integers have few digits is given back by its text. -/
theorem storable (h : v.IsDocument) (hfew : v.HasFewDigits) : v.Storable :=
  ⟨h.wellFormed, h.reread_eq, h.isWritable_iff.mpr hfew⟩

end IsDocument

end Value

namespace Json

/-- Being a document is closed. -/
theorem closed_isDocument : Closed Value.IsDocument where
  word := by
    intro word hword
    simp only [words, List.mem_cons, List.not_mem_nil, or_false] at hword
    rcases hword with rfl | rfl | rfl | rfl | rfl | rfl <;> constructor
  number _ _ _ n _ _ := .number n
  text s := .text s
  list _ h := .list h
  object _ hkeys h := .object hkeys h

/-- Everything that is read is a document. -/
theorem isDocument_of_read {text : String} {v : Value} (h : read text = .ok v) : v.IsDocument :=
  closed_isDocument.of_read h

/-- The integers that are read have few digits. -/
theorem hasFewDigits_of_read {text : String} {v : Value} (h : read text = .ok v) :
    v.HasFewDigits :=
  (isDocument_of_read h).isWritable_iff.mp (isWritable_of_read h)

end Json

end Loyalty
