import Loyalty.Proofs.Json.Numbers
import Loyalty.Proofs.Json.RoundTrip

/-!
# Written texts are plain ASCII

Digits, words and punctuation are ASCII, and a character that is not is escaped by
the hexadecimal digits of its units. So is every text that is written, by induction
on the value.
-/

namespace Loyalty

/-- Only ASCII characters. -/
def IsAscii (cs : List Char) : Prop := ∀ c ∈ cs, c.toNat < 128

instance (cs : List Char) : Decidable (IsAscii cs) :=
  List.decidableBAll (fun c : Char => c.toNat < 128) cs

/-- No character at all. -/
@[simp] theorem isAscii_nil : IsAscii [] := List.forall_mem_nil _

/-- One character after the other. -/
@[simp] theorem isAscii_cons {c : Char} {cs : List Char} :
    IsAscii (c :: cs) ↔ c.toNat < 128 ∧ IsAscii cs := List.forall_mem_cons

/-- Both parts of a text. -/
@[simp] theorem isAscii_append {cs ds : List Char} :
    IsAscii (cs ++ ds) ↔ IsAscii cs ∧ IsAscii ds := List.forall_mem_append

/-- A part of a text. -/
theorem IsAscii.of_subset {cs ds : List Char} (hds : IsAscii ds) (h : cs ⊆ ds) : IsAscii cs :=
  fun _ hc => hds _ (h hc)

/-- Decimal digits are ASCII. -/
theorem isAscii_of_isDigit {cs : List Char} (h : ∀ c ∈ cs, c.isDigit = true) : IsAscii cs := by
  intro c hc
  have hdigit := h c hc
  simp only [Char.isDigit, Bool.and_eq_true, decide_eq_true_eq] at hdigit
  have hnine : c.toNat ≤ 57 := hdigit.2
  omega

/-- A natural in decimal is ASCII. -/
theorem isAscii_toDigits (n : Nat) : IsAscii (Nat.toDigits 10 n) :=
  isAscii_of_isDigit fun _ => isDigit_of_mem_toDigits

/-- Zeros are ASCII. -/
theorem isAscii_zeros (k : Nat) : IsAscii (List.replicate k '0') :=
  isAscii_of_isDigit fun _ => isDigit_of_mem_zeros

namespace DecimalLayout

variable {digits : List Char}

/-- Digits with a point in them are ASCII. -/
theorem isAscii_positional (h : IsAscii digits) (leading : Int) :
    IsAscii (positional digits leading) := by
  unfold positional
  split
  · simp [isAscii_zeros, h]
  · have htake := h.of_subset (digits.take_subset (leading.toNat + 1))
    have hdrop := h.of_subset (digits.drop_subset (leading.toNat + 1))
    have hwhole := isAscii_append.mpr ⟨htake, isAscii_zeros (leading.toNat + 1 - digits.length)⟩
    refine isAscii_append.mpr ⟨hwhole, isAscii_cons.mpr ⟨by decide, ?_⟩⟩
    split
    · decide
    · exact hdrop

/-- Digits with an exponent after them are ASCII. -/
theorem isAscii_scientific (layout : DecimalLayout) (h : IsAscii digits) (leading : Int) :
    IsAscii (layout.scientific digits leading) := by
  have hsign : (if leading < 0 then '-' else '+').toNat < 128 := by
    split <;> decide
  have hexponent : IsAscii (List.replicate (layout.exponentDigits -
      (Nat.toDigits 10 leading.natAbs).length) '0' ++ Nat.toDigits 10 leading.natAbs) :=
    isAscii_append.mpr ⟨isAscii_zeros _, isAscii_toDigits _⟩
  refine isAscii_append.mpr ⟨?_, isAscii_cons.mpr ⟨by decide, isAscii_cons.mpr ⟨hsign, hexponent⟩⟩⟩
  split
  · simpa using h
  · split
    · exact isAscii_append.mpr ⟨h, by decide⟩
    · exact h

/-- A decimal is written in ASCII. -/
theorem isAscii_write (layout : DecimalLayout) (d : Decimal) : IsAscii (layout.write d) := by
  have hdigits : IsAscii d.writtenDigits :=
    isAscii_of_isDigit (Json.writtenDigits_spec d).1.isDigit
  have hbody : IsAscii
      (if layout.lowestPositional ≤ d.leading ∧ d.leading < layout.firstScientific then
        positional d.writtenDigits d.leading
      else layout.scientific d.writtenDigits d.leading) := by
    split
    · exact isAscii_positional hdigits d.leading
    · exact layout.isAscii_scientific hdigits d.leading
  rw [write]
  split
  · exact isAscii_cons.mpr ⟨show '-'.toNat < 128 by decide, hbody⟩
  · exact hbody

end DecimalLayout

/-- A double is written in ASCII. -/
theorem Double.isAscii_text (x : Double) : IsAscii x.text.toList := by
  cases x with
  | nan => decide
  | infinity negative => cases negative <;> decide
  | finite negative mantissa shift h =>
    obtain ⟨d, hd, -⟩ := exists_shortest negative h
    have htext : text (.finite negative mantissa shift h) =
        String.ofList (doubleLayout.write d) := by
      simp only [text, hd, Option.map_some, Option.getD_some]
    rw [htext, String.toList_ofList]
    exact doubleLayout.isAscii_write d

/-- An integer is written in ASCII. -/
theorem isAscii_intText (n : Int) : IsAscii (intText n).toList := by
  rw [intText, String.toList_ofList, isAscii_append]
  refine ⟨?_, isAscii_toDigits n.natAbs⟩
  split <;> decide

namespace Json

/-- The written text of a number is ASCII. -/
theorem isAscii_writtenNumber (n : Number) : IsAscii (writtenNumber n) := by
  unfold writtenNumber
  split
  · decide
  · decide
  · decide
  · cases n with
    | int n => exact isAscii_intText n
    | double x => exact x.isAscii_text

/-- A hexadecimal digit is ASCII. -/
private theorem digitChar_lt {d : Nat} (hd : d < 16) : (Nat.digitChar d).toNat < 128 := by
  interval_cases d <;> decide

/-- The escape of a unit is ASCII. -/
theorem isAscii_unitEscape {u : Nat} (hu : u < 65536) : IsAscii (unitEscape u) := by
  rw [unitEscape, paddedDigits_unit hu]
  simp only [isAscii_cons, isAscii_nil, and_true]
  refine ⟨by decide, by decide, digitChar_lt ?_, digitChar_lt ?_, digitChar_lt ?_, digitChar_lt ?_⟩
  all_goals omega

/-- Every character is written in ASCII. -/
theorem isAscii_escapedChar (c : Char) : IsAscii (escapedChar c) := by
  obtain ⟨hhigh, hlow⟩ := units_lt c
  unfold escapedChar
  -- the first seven branches are a letter after a backslash
  iterate 7 (refine iteInduction (fun _ => by decide) fun _ => ?_)
  refine iteInduction (fun hplain => ?_) fun _ => iteInduction (fun hunit => ?_) fun _ => ?_
  · exact isAscii_cons.mpr ⟨by omega, isAscii_nil⟩
  · exact isAscii_unitEscape hunit
  · exact isAscii_append.mpr ⟨isAscii_unitEscape hhigh, isAscii_unitEscape hlow⟩

/-- The written text of a text is ASCII. -/
theorem isAscii_writtenText (s : String) : IsAscii (writtenText s) := by
  have hbody : IsAscii (s.toList.flatMap escapedChar) := by
    intro c hc
    obtain ⟨d, -, hd⟩ := List.mem_flatMap.mp hc
    exact isAscii_escapedChar d c hd
  simp [writtenText, hbody]

/-- Parts that are ASCII are joined to ASCII. -/
theorem isAscii_commaJoin {parts : List (List Char)} (h : ∀ part ∈ parts, IsAscii part) :
    IsAscii (commaJoin parts) := by
  fun_induction commaJoin parts with
  | case1 => exact isAscii_nil
  | case2 part => exact h part List.mem_cons_self
  | case3 part parts _ ih =>
    obtain ⟨hpart, hparts⟩ := List.forall_mem_cons.mp h
    simp [hpart, ih hparts]

private theorem isAscii_of_writtenItems {items : List Value} {parts : List (List Char)}
    (ih : ∀ v ∈ items, ∀ cs, written v = .ok cs → IsAscii cs)
    (h : writtenItems items = .ok parts) : ∀ part ∈ parts, IsAscii part := by
  induction items generalizing parts with
  | nil =>
    cases h
    simp
  | cons v vs ihs =>
    obtain ⟨part, more, hpart, hmore, rfl⟩ := writtenItems_cons h
    obtain ⟨hv, hvs⟩ := List.forall_mem_cons.mp ih
    exact List.forall_mem_cons.mpr ⟨hv part hpart, ihs hvs hmore⟩

private theorem isAscii_of_writtenFields {fields : Fields} {parts : List (List Char)}
    (ih : ∀ p ∈ fields, ∀ cs, written p.2 = .ok cs → IsAscii cs)
    (h : writtenFields fields = .ok parts) : ∀ part ∈ parts, IsAscii part := by
  induction fields generalizing parts with
  | nil =>
    cases h
    simp
  | cons field fields ihs =>
    obtain ⟨key, v⟩ := field
    obtain ⟨part, more, hpart, hmore, rfl⟩ := writtenFields_cons h
    obtain ⟨hv, hfields⟩ := List.forall_mem_cons.mp ih
    refine List.forall_mem_cons.mpr ⟨?_, ihs hfields hmore⟩
    simp [isAscii_writtenText, hv part hpart]

/-- Every written text is ASCII. -/
theorem isAscii_written {v : Value} {cs : List Char} (h : written v = .ok cs) : IsAscii cs := by
  induction v using Value.treeInduction generalizing cs with
  | null =>
    cases h
    decide
  | bool b =>
    cases h
    cases b <;> decide
  | number n =>
    rw [written] at h
    split at h
    · cases h
    · cases h
      exact isAscii_writtenNumber n
  | text s =>
    cases h
    exact isAscii_writtenText s
  | array kind items ih =>
    rw [written] at h
    obtain ⟨parts, hparts, rfl⟩ := map_eq_ok.mp h
    have hjoin := isAscii_commaJoin (isAscii_of_writtenItems (fun v hv cs => ih v hv) hparts)
    simp [hjoin]
  | object fields ih =>
    rw [written] at h
    obtain ⟨parts, hparts, rfl⟩ := map_eq_ok.mp h
    have hjoin := isAscii_commaJoin (isAscii_of_writtenFields (fun p hp cs => ih p hp) hparts)
    simp [hjoin]
  | date d => cases h
  | moment m => cases h
  | missing => cases h

end Json

end Loyalty
