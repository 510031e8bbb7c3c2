import Loyalty.Proofs.Action
import Loyalty.Proofs.Json.Numbers
import Loyalty.Proofs.Json.Reading
import Loyalty.Proofs.Json.Texts

/-!
# Documents written and read

The written text of a well-formed value is read back as that value, tuples
becoming lists: a stored or cached document is what was put there. The induction
is on the value, with any text after it that cannot be read on as a number.
-/

namespace Loyalty.Json

/-- A value that is read back from its text whatever comes after it. -/
def ReadsBack (v : Value) : Prop :=
  ∀ cs rest, written v = .ok cs → EndsNumber rest →
    ∃ hlt, readValue (cs ++ rest) = .ok (reread v, ⟨rest, hlt⟩)

/-- A word or a number is a value. -/
theorem readValue_of_readScalar {cs : List Char} {r : Value × Shorter cs}
    (h : readScalar cs = .ok r) : readValue cs = .ok r := by
  have hquote : ∀ body, readScalar ('"' :: body) = .error ⟨.valueExpected, body.length + 1⟩ :=
    fun _ => rfl
  have hbracket : ∀ body, readScalar ('[' :: body) = .error ⟨.valueExpected, body.length + 1⟩ :=
    fun _ => rfl
  have hbrace : ∀ body, readScalar ('\x7b' :: body) = .error ⟨.valueExpected, body.length + 1⟩ :=
    fun _ => rfl
  rw [readValue.eq_def]
  split
  · rw [hquote] at h
    cases h
  · rw [hbracket] at h
    cases h
  · rw [hbrace] at h
    cases h
  · exact h

/-- A text that begins with no quote and no opening bracket is read as a word or a number. -/
theorem readValue_eq_readScalar {cs : List Char}
    (h : ∀ c, cs.head? = some c → c ≠ '"' ∧ c ≠ '[' ∧ c ≠ '\x7b') :
    readValue cs = readScalar cs := by
  rw [readValue.eq_def]
  split
  · exact absurd rfl (h _ rfl).1
  · exact absurd rfl (h _ rfl).2.1
  · exact absurd rfl (h _ rfl).2.2
  · rfl

/-- The items of an array are written one after the other. -/
theorem writtenItems_cons {v : Value} {vs : List Value} {parts : List (List Char)}
    (h : writtenItems (v :: vs) = .ok parts) :
    ∃ part more, written v = .ok part ∧ writtenItems vs = .ok more ∧ parts = part :: more := by
  rw [writtenItems] at h
  obtain ⟨part, hpart, h⟩ := bind_eq_ok.mp h
  obtain ⟨more, hmore, h⟩ := bind_eq_ok.mp h
  cases h
  exact ⟨part, more, hpart, hmore, rfl⟩

/-- The fields of an object are written one after the other. -/
theorem writtenFields_cons {key : String} {v : Value} {fields : List (String × Value)}
    {parts : List (List Char)} (h : writtenFields ((key, v) :: fields) = .ok parts) :
    ∃ part more, written v = .ok part ∧ writtenFields fields = .ok more ∧
      parts = (writtenText key ++ ':' :: ' ' :: part) :: more := by
  rw [writtenFields] at h
  obtain ⟨part, hpart, h⟩ := bind_eq_ok.mp h
  obtain ⟨more, hmore, h⟩ := bind_eq_ok.mp h
  cases h
  exact ⟨part, more, hpart, hmore, rfl⟩

/-- Reading back keeps the keys. -/
theorem map_fst_rereadFields (fields : Fields) :
    (rereadFields fields).map Prod.fst = fields.map Prod.fst := by
  induction fields with
  | nil => rfl
  | cons field fields ih =>
    obtain ⟨key, v⟩ := field
    simp [rereadFields, ih]

private theorem readItems_written {v : Value} {vs : List Value} {parts : List (List Char)}
    (hvs : ∀ w ∈ v :: vs, ReadsBack w) (h : writtenItems (v :: vs) = .ok parts)
    (rest : List Char) :
    ∃ hlt, readItems (commaJoin parts ++ ']' :: rest) =
      .ok (rereadItems (v :: vs), ⟨rest, hlt⟩) := by
  have hbracket : EndsNumber (']' :: rest) := endsNumber_cons rfl (by decide) rest
  induction vs generalizing v parts with
  | nil =>
    obtain ⟨part, more, hpart, hmore, rfl⟩ := writtenItems_cons h
    cases hmore
    obtain ⟨hlt, hread⟩ := hvs v List.mem_cons_self part _ hpart hbracket
    exact readItems_last hread
  | cons w vs ih =>
    obtain ⟨part, more, hpart, hmore, rfl⟩ := writtenItems_cons h
    obtain ⟨second, others, hsecond, hothers, rfl⟩ := writtenItems_cons hmore
    obtain ⟨hltItems, hitems⟩ := ih (fun u hu => hvs u (List.mem_cons_of_mem _ hu)) hmore
    have htext : commaJoin (part :: second :: others) ++ ']' :: rest =
        part ++ ',' :: ' ' :: (commaJoin (second :: others) ++ ']' :: rest) := by
      simp [commaJoin]
    have hcomma : EndsNumber (',' :: ' ' :: (commaJoin (second :: others) ++ ']' :: rest)) :=
      endsNumber_cons rfl (by decide) _
    obtain ⟨hlt, hread⟩ := hvs v List.mem_cons_self part _ hpart hcomma
    rw [htext]
    exact readItems_more hread hitems

private theorem readFields_written {field : String × Value} {fields : List (String × Value)}
    {parts : List (List Char)} (hfields : ∀ p ∈ field :: fields, ReadsBack p.2)
    (h : writtenFields (field :: fields) = .ok parts) (rest : List Char) :
    ∃ body hlt, commaJoin parts ++ '\x7d' :: rest = '"' :: body ∧
      readFields ('"' :: body) = .ok (rereadFields (field :: fields), ⟨rest, hlt⟩) := by
  have hbrace : EndsNumber ('\x7d' :: rest) := endsNumber_cons rfl (by decide) rest
  induction fields generalizing field parts with
  | nil =>
    obtain ⟨key, v⟩ := field
    obtain ⟨part, more, hpart, hmore, rfl⟩ := writtenFields_cons h
    cases hmore
    obtain ⟨hlt, hread⟩ := hfields _ List.mem_cons_self part _ hpart hbrace
    obtain ⟨hname, hkey⟩ := readString_written key (':' :: ' ' :: (part ++ '\x7d' :: rest))
    obtain ⟨hend, hlast⟩ := readFields_last hkey hread
    exact ⟨_, hend, by simp [commaJoin, writtenText], hlast⟩
  | cons second fields ih =>
    obtain ⟨key, v⟩ := field
    obtain ⟨part, more, hpart, hmore, rfl⟩ := writtenFields_cons h
    obtain ⟨body, hltBody, hbody, hread⟩ :=
      ih (fun p hp => hfields p (List.mem_cons_of_mem _ hp)) hmore
    have hcomma : EndsNumber (',' :: ' ' :: '"' :: body) := endsNumber_cons rfl (by decide) _
    obtain ⟨hlt, hvalue⟩ := hfields _ List.mem_cons_self part _ hpart hcomma
    obtain ⟨hname, hkey⟩ :=
      readString_written key (':' :: ' ' :: (part ++ ',' :: ' ' :: '"' :: body))
    obtain ⟨hend, hall⟩ := readFields_more hkey hvalue hread
    refine ⟨_, hend, ?_, hall⟩
    obtain ⟨next, others, rfl⟩ : ∃ next others, more = next :: others := by
      obtain ⟨_, _, _, _, rfl⟩ := writtenFields_cons hmore
      exact ⟨_, _, rfl⟩
    simp only [commaJoin, writtenText, List.append_assoc, List.cons_append, List.nil_append, hbody]

private theorem readsBack_word {word : List Char × Value} (hword : word ∈ words) {v : Value}
    (hv : reread v = word.2) (hwritten : written v = .ok word.1) : ReadsBack v := by
  intro cs rest h _
  rw [hwritten] at h
  cases h
  obtain ⟨hlt, hread⟩ := readScalar_word hword rest
  rw [hv]
  exact ⟨hlt, readValue_of_readScalar hread⟩

private theorem readsBack_number (n : Number) : ReadsBack (.number n) := by
  intro cs rest h hrest
  rw [written] at h
  split at h
  · cases h
  · rename_i hdigits
    cases h
    obtain ⟨hlt, hread⟩ := readScalar_writtenNumber (by simpa using hdigits) hrest
    exact ⟨hlt, readValue_of_readScalar hread⟩

private theorem readsBack_text (s : String) : ReadsBack (.text s) := by
  intro cs rest h _
  cases h
  obtain ⟨hlt, hread⟩ := readString_written s rest
  obtain ⟨hvalue_lt, hvalue⟩ := readValue_text hread
  have htext : writtenText s ++ rest = '"' :: (s.toList.flatMap escapedChar ++ '"' :: rest) := by
    simp [writtenText]
  rw [htext]
  exact ⟨hvalue_lt, hvalue⟩

private theorem readsBack_array (kind : ArrayKind) {items : List Value}
    (ih : ∀ v ∈ items, ReadsBack v) : ReadsBack (.array kind items) := by
  intro cs rest h _
  rw [written] at h
  obtain ⟨parts, hparts, rfl⟩ := map_eq_ok.mp h
  rw [List.cons_append, List.append_assoc]
  cases items with
  | nil =>
    cases hparts
    exact readValue_emptyArray rest
  | cons v vs =>
    obtain ⟨hlt, hitems⟩ := readItems_written ih hparts rest
    exact readValue_array hitems

private theorem readsBack_object {fields : Fields} (hkeys : (fields.map Prod.fst).Nodup)
    (ih : ∀ p ∈ fields, ReadsBack p.2) : ReadsBack (.object fields) := by
  intro cs rest h _
  rw [written] at h
  obtain ⟨parts, hparts, rfl⟩ := map_eq_ok.mp h
  rw [List.cons_append, List.append_assoc]
  cases fields with
  | nil =>
    cases hparts
    exact readValue_emptyObject rest
  | cons field fields =>
    obtain ⟨body, hlt, hbody, hfields⟩ := readFields_written ih hparts rest
    have hreread : Fields.ofList (rereadFields (field :: fields)) =
        rereadFields (field :: fields) := by
      refine Fields.ofList_of_nodup ?_
      rwa [map_fst_rereadFields]
    obtain ⟨hlt', hvalue⟩ := readValue_object hfields
    rw [hreread] at hvalue
    rw [List.singleton_append, hbody]
    exact ⟨hlt', hvalue⟩

/-- Every well-formed value is read back from its text. -/
theorem readsBack {v : Value} (hv : v.WellFormed) : ReadsBack v := by
  induction v using Value.treeInduction with
  | null => exact readsBack_word (show ("null".toList, .null) ∈ words by simp [words]) rfl rfl
  | bool b =>
    cases b
    · exact readsBack_word (show ("false".toList, .bool false) ∈ words by simp [words]) rfl rfl
    · exact readsBack_word (show ("true".toList, .bool true) ∈ words by simp [words]) rfl rfl
  | number n => exact readsBack_number n
  | text s => exact readsBack_text s
  | array kind items ih =>
    rw [Value.wellFormed_array] at hv
    exact readsBack_array kind fun v hmem => ih v hmem (hv v hmem)
  | object fields ih =>
    rw [Value.wellFormed_object] at hv
    exact readsBack_object hv.1 fun p hmem => ih p hmem (hv.2 p hmem)
  | date d =>
    intro cs rest h _
    cases h
  | moment m =>
    intro cs rest h _
    cases h
  | missing =>
    intro cs rest h _
    cases h

/-- A document is read back from its text. -/
theorem read_written {v : Value} (hv : v.WellFormed) {cs : List Char} (h : written v = .ok cs) :
    read (String.ofList cs) = .ok (reread v) := by
  have hread := readsBack hv cs [] h endsNumber_nil
  rw [List.append_nil] at hread
  obtain ⟨hlt, hread⟩ := hread
  have hbegins := beginsValue_of_readValue hread
  have hmark : cs.head? ≠ some '\ufeff' := by
    obtain ⟨c, rest, rfl, -, -⟩ := hbegins
    intro hhead
    cases hhead
    have hnone : readValue ('\ufeff' :: rest) = .error ⟨.valueExpected, rest.length + 1⟩ := by
      rw [readValue.eq_def]
      rfl
    rw [hnone] at hread
    cases hread
  have hskipped : ∃ hlt, readValue (skipSpace (String.ofList cs).toList) =
      .ok (reread v, ⟨[], hlt⟩) := by
    rw [String.toList_ofList, hbegins.skipSpace_eq]
    exact ⟨hlt, hread⟩
  obtain ⟨hlt', hskipped⟩ := hskipped
  unfold read
  simp only [String.toList_ofList, if_neg hmark, hskipped]
  rfl

/-- The same for a text that is known to be the written one. -/
theorem read_of_written {v : Value} {text : String} (hv : v.WellFormed)
    (h : written v = .ok text.toList) : read text = .ok (reread v) := by
  have hread := read_written hv h
  rwa [String.ofList_toList] at hread

/-- The text of an integer begins with a minus or a digit. -/
theorem exists_intText_eq_cons (n : Int) :
    ∃ c cs, (intText n).toList = c :: cs ∧ (c = '-' ∨ c.isDigit = true) := by
  rw [intText, String.toList_ofList]
  by_cases hneg : n < 0
  · rw [if_pos hneg]
    exact ⟨'-', _, rfl, .inl rfl⟩
  · have hdigits : Nat.toDigits 10 n.natAbs ≠ [] := Nat.toDigits_ne_nil
    obtain ⟨d, ds, hds⟩ := List.exists_cons_of_ne_nil hdigits
    rw [if_neg hneg, List.nil_append]
    have hmem : d ∈ Nat.toDigits 10 n.natAbs := by
      rw [hds]
      exact List.mem_cons_self
    exact ⟨d, ds, hds, .inr (isDigit_of_mem_toDigits hmem)⟩

/-- What is wrong with the word or number that a text begins with is wrong with the text. -/
theorem read_of_readScalar_eq_error {text : String} {c : Char} {cs : List Char} {kind : FaultKind}
    (htext : text.toList = c :: cs) (hspace : isSpace c = false) (hmark : c ≠ '\ufeff')
    (hother : c ≠ '"' ∧ c ≠ '[' ∧ c ≠ '\x7b')
    (h : readScalar (c :: cs) = .error ⟨kind, (c :: cs).length⟩) :
    read text = .error ⟨kind, 1, 1, 0⟩ := by
  have hvalue : readValue (skipSpace text.toList) = .error ⟨kind, text.toList.length⟩ := by
    rw [htext, skipSpace_cons hspace, readValue_eq_readScalar, h]
    rintro _ ⟨⟩
    exact hother
  have hhead : text.toList.head? ≠ some '\ufeff' := by
    rw [htext]
    exact fun h => hmark (Option.some.inj h)
  unfold read
  simp only [if_neg hhead, hvalue, Stop.locate, Nat.sub_self, List.take_zero]
  rfl

/-- An integer with more digits than the limit is not read from its text. -/
theorem read_of_tooManyDigits {n : Int} (hn : digitLimit < digitCount n.natAbs) :
    read (intText n) = .error ⟨.tooManyDigits (digitCount n.natAbs), 1, 1, 0⟩ := by
  obtain ⟨c, cs, htext, hc⟩ := exists_intText_eq_cons n
  have hother : ∀ d : Char, d ≠ '-' → d.isDigit = false → c ≠ d := by
    rintro d hminus hdigit rfl
    rcases hc with rfl | hc
    · exact hminus rfl
    · rw [hdigit] at hc
      cases hc
  have hspace : isSpace c = false := by
    simp only [isSpace, Bool.or_eq_false_iff, decide_eq_false_iff_not]
    exact ⟨⟨⟨hother _ (by decide) rfl, hother _ (by decide) rfl⟩, hother _ (by decide) rfl⟩,
      hother _ (by decide) rfl⟩
  have hscalar := readScalar_of_tooManyDigits hn
  rw [htext] at hscalar
  exact read_of_readScalar_eq_error htext hspace (hother _ (by decide) rfl)
    ⟨hother _ (by decide) rfl, hother _ (by decide) rfl, hother _ (by decide) rfl⟩ hscalar

mutual

/-- A document that was read back is read back as itself. -/
theorem reread_reread : ∀ v, reread (reread v) = reread v
  | .array _ items => by rw [reread, reread, rereadItems_rereadItems items]
  | .object fields => by rw [reread, reread, rereadFields_rereadFields fields]
  | .null | .bool _ | .number _ | .text _ | .date _ | .moment _ | .missing => rfl

/-- The same for the items of an array. -/
theorem rereadItems_rereadItems : ∀ vs, rereadItems (rereadItems vs) = rereadItems vs
  | [] => rfl
  | v :: vs => by
    simp only [rereadItems, reread_reread v, rereadItems_rereadItems vs]

/-- The same for the fields of an object. -/
theorem rereadFields_rereadFields : ∀ fields,
    rereadFields (rereadFields fields) = rereadFields fields
  | [] => rfl
  | (key, v) :: fields => by
    simp only [rereadFields, reread_reread v, rereadFields_rereadFields fields]

end

mutual

/-- Tuples and lists are written alike. -/
theorem written_reread : ∀ v, written (reread v) = written v
  | .array _ items => by rw [reread, written, written, writtenItems_rereadItems items]
  | .object fields => by rw [reread, written, written, writtenFields_rereadFields fields]
  | .null | .bool _ | .number _ | .text _ | .date _ | .moment _ | .missing => rfl

/-- The same for the items of an array. -/
theorem writtenItems_rereadItems : ∀ vs, writtenItems (rereadItems vs) = writtenItems vs
  | [] => rfl
  | v :: vs => by
    rw [rereadItems, writtenItems, writtenItems, written_reread v, writtenItems_rereadItems vs]

/-- The same for the fields of an object. -/
theorem writtenFields_rereadFields : ∀ fields,
    writtenFields (rereadFields fields) = writtenFields fields
  | [] => rfl
  | (key, v) :: fields => by
    rw [rereadFields, writtenFields, writtenFields, written_reread v,
      writtenFields_rereadFields fields]

end

private theorem forall_rereadItems {items : List Value}
    (ih : ∀ v ∈ items, (reread v).WellFormed) : ∀ v ∈ rereadItems items, v.WellFormed := by
  induction items with
  | nil => simp [rereadItems]
  | cons v vs ihs =>
    rw [rereadItems]
    exact List.forall_mem_cons.mpr ⟨ih v List.mem_cons_self,
      ihs fun w hw => ih w (List.mem_cons_of_mem _ hw)⟩

private theorem forall_rereadFields {fields : Fields}
    (ih : ∀ p ∈ fields, (reread p.2).WellFormed) : ∀ p ∈ rereadFields fields, p.2.WellFormed := by
  induction fields with
  | nil => simp [rereadFields]
  | cons field fields ihs =>
    obtain ⟨key, v⟩ := field
    rw [rereadFields]
    exact List.forall_mem_cons.mpr ⟨ih _ List.mem_cons_self,
      ihs fun p hp => ih p (List.mem_cons_of_mem _ hp)⟩

/-- A document stays well-formed when it is read back. -/
theorem wellFormed_reread {v : Value} (hv : v.WellFormed) : (reread v).WellFormed := by
  induction v using Value.treeInduction with
  | array kind items ih =>
    rw [Value.wellFormed_array] at hv
    rw [reread, Value.wellFormed_array]
    exact forall_rereadItems fun v hmem => ih v hmem (hv v hmem)
  | object fields ih =>
    rw [Value.wellFormed_object] at hv
    rw [reread, Value.wellFormed_object, map_fst_rereadFields]
    exact ⟨hv.1, forall_rereadFields fun p hmem => ih p hmem (hv.2 p hmem)⟩
  | null | bool _ | number _ | text _ | date _ | moment _ | missing => exact hv

end Loyalty.Json
