import Loyalty.Json.Reader
import Loyalty.Proofs.Value.Tree

/-!
# Steps of the JSON reader

What the reader does with a value, with the items of an array and with the
fields of an object, said once for each way a text can go on. What all words,
numbers and texts have, and arrays and objects inherit, all documents that are read
have; so they are well-formed: an object keeps one value for each key.
-/

namespace Loyalty.Json

/-- A text that begins with neither white space nor a closing bracket. -/
def BeginsValue (cs : List Char) : Prop :=
  ∃ c rest, cs = c :: rest ∧ isSpace c = false ∧ c ≠ ']'

/-- White space in front of other characters is dropped. -/
theorem skipSpace_cons {c : Char} (hc : isSpace c = false) (cs : List Char) :
    skipSpace (c :: cs) = c :: cs := by
  rw [skipSpace, List.dropWhile_cons, hc]
  rfl

/-- The beginning of a value is not dropped. -/
theorem BeginsValue.skipSpace_eq {cs : List Char} (h : BeginsValue cs) : skipSpace cs = cs := by
  obtain ⟨c, rest, rfl, hc, -⟩ := h
  exact skipSpace_cons hc rest

private theorem readValue_of_not_begins {c : Char} (hc : isSpace c = true ∨ c = ']')
    (cs : List Char) : readValue (c :: cs) = .error ⟨.valueExpected, cs.length + 1⟩ := by
  have hspace : isSpace c = true → c = ' ' ∨ c = '\t' ∨ c = '\n' ∨ c = '\r' := by
    intro h
    simpa [isSpace, or_assoc] using h
  have hcases : c = ' ' ∨ c = '\t' ∨ c = '\n' ∨ c = '\r' ∨ c = ']' := by
    rcases hc with hc | hc
    · rcases hspace hc with h | h | h | h <;> simp [h]
    · simp [hc]
  rcases hcases with rfl | rfl | rfl | rfl | rfl <;>
    (rw [readValue.eq_def]; rfl)

/-- A text whose value was read begins with it. -/
theorem beginsValue_of_readValue {cs : List Char} {v : Value} {rest : Shorter cs}
    (h : readValue cs = .ok (v, rest)) : BeginsValue cs := by
  cases cs with
  | nil =>
    have hnil : readValue [] = .error ⟨.valueExpected, 0⟩ := by
      rw [readValue.eq_def]
      rfl
    rw [hnil] at h
    cases h
  | cons c cs =>
    refine ⟨c, cs, rfl, ?_, ?_⟩
    · cases hc : isSpace c with
      | false => rfl
      | true =>
        rw [readValue_of_not_begins (.inl hc)] at h
        cases h
    · rintro rfl
      rw [readValue_of_not_begins (.inr rfl)] at h
      cases h

/-- A text whose items were read begins with the first. -/
theorem beginsValue_of_readItems {cs : List Char} {vs : List Value} {rest : Shorter cs}
    (h : readItems cs = .ok (vs, rest)) : BeginsValue cs := by
  rw [readItems.eq_def] at h
  split at h
  · cases h
  · rename_i hread
    exact beginsValue_of_readValue hread

/-- A text in quotes is a value. -/
theorem readValue_text {body rest : List Char} {s : String} {hrest}
    (h : readString body = .ok (s, ⟨rest, hrest⟩)) :
    ∃ hlt, readValue ('"' :: body) = .ok (.text s, ⟨rest, hlt⟩) := by
  refine ⟨Nat.lt_succ_of_lt hrest, ?_⟩
  rw [readValue.eq_def]
  simp only [h]

/-- An array without items is a value. -/
theorem readValue_emptyArray (rest : List Char) :
    ∃ hlt, readValue ('[' :: ']' :: rest) = .ok (.list [], ⟨rest, hlt⟩) := by
  refine ⟨Nat.lt_succ_of_lt (Nat.lt_succ_self _), ?_⟩
  rw [readValue.eq_def]
  rfl

/-- An array with items is a value. -/
theorem readValue_array {items rest : List Char} {vs : List Value} {hrest}
    (h : readItems items = .ok (vs, ⟨rest, hrest⟩)) :
    ∃ hlt, readValue ('[' :: items) = .ok (.list vs, ⟨rest, hlt⟩) := by
  have hbegins := beginsValue_of_readItems h
  have hskip := hbegins.skipSpace_eq
  obtain ⟨hskipped, hitems⟩ : ∃ hlt, readItems (skipSpace items) = .ok (vs, ⟨rest, hlt⟩) := by
    rw [hskip]
    exact ⟨hrest, h⟩
  refine ⟨Nat.lt_succ_of_lt hrest, ?_⟩
  rw [readValue.eq_def]
  simp only
  split
  · rename_i hbracket
    rw [hskip] at hbracket
    obtain ⟨c, cs, rfl, -, hc⟩ := hbegins
    exact absurd (List.cons.inj hbracket).1 hc
  · simp only [hitems]

/-- An object without fields is a value. -/
theorem readValue_emptyObject (rest : List Char) :
    ∃ hlt, readValue ('\x7b' :: '\x7d' :: rest) = .ok (.object [], ⟨rest, hlt⟩) := by
  refine ⟨Nat.lt_succ_of_lt (Nat.lt_succ_self _), ?_⟩
  rw [readValue.eq_def]
  rfl

/-- An object with fields is a value. -/
theorem readValue_object {body rest : List Char} {fields : List (String × Value)} {hrest}
    (h : readFields ('"' :: body) = .ok (fields, ⟨rest, hrest⟩)) :
    ∃ hlt, readValue ('\x7b' :: '"' :: body) =
      .ok (.object (Fields.ofList fields), ⟨rest, hlt⟩) := by
  have hskip : skipSpace ('"' :: body) = '"' :: body := skipSpace_cons rfl body
  obtain ⟨hskipped, hfields⟩ :
      ∃ hlt, readFields (skipSpace ('"' :: body)) = .ok (fields, ⟨rest, hlt⟩) := by
    rw [hskip]
    exact ⟨hrest, h⟩
  refine ⟨Nat.lt_succ_of_lt hrest, ?_⟩
  rw [readValue.eq_def]
  simp only
  split
  · rename_i hbrace
    rw [hskip] at hbrace
    exact absurd (List.cons.inj hbrace).1 (by decide)
  · simp only [hfields]

/-- The last item of an array has the closing bracket after it. -/
theorem readItems_last {cs rest : List Char} {v : Value} {hrest}
    (h : readValue cs = .ok (v, ⟨']' :: rest, hrest⟩)) :
    ∃ hlt, readItems cs = .ok ([v], ⟨rest, hlt⟩) := by
  have hskip : skipSpace (']' :: rest) = ']' :: rest := skipSpace_cons rfl rest
  refine ⟨Nat.lt_of_succ_lt hrest, ?_⟩
  rw [readItems.eq_def]
  simp only [h]
  split
  · rename_i hbracket
    rw [hskip] at hbracket
    cases hbracket
    rfl
  · rename_i hcomma
    rw [hskip] at hcomma
    cases hcomma
  · rename_i hother _
    exact absurd hskip (hother rest)

/-- The other items have a comma after them. -/
theorem readItems_more {cs items rest : List Char} {v : Value} {vs : List Value} {hitems hrest}
    (h : readValue cs = .ok (v, ⟨',' :: ' ' :: items, hitems⟩))
    (hmore : readItems items = .ok (vs, ⟨rest, hrest⟩)) :
    ∃ hlt, readItems cs = .ok (v :: vs, ⟨rest, hlt⟩) := by
  have hcomma : skipSpace (',' :: ' ' :: items) = ',' :: ' ' :: items := skipSpace_cons rfl _
  have hskip : skipSpace (' ' :: items) = items := (beginsValue_of_readItems hmore).skipSpace_eq
  obtain ⟨hskipped, hread⟩ : ∃ hlt, readItems (skipSpace (' ' :: items)) =
      .ok (vs, ⟨rest, hlt⟩) := by
    rw [hskip]
    exact ⟨hrest, hmore⟩
  refine ⟨Nat.lt_trans hrest (Nat.lt_of_succ_lt (Nat.lt_of_succ_lt hitems)), ?_⟩
  rw [readItems.eq_def]
  simp only [h]
  split
  · rename_i heq
    rw [hcomma] at heq
    cases heq
  · rename_i heq
    rw [hcomma] at heq
    cases heq
    simp only [hread]
  · rename_i _ hother
    exact absurd hcomma (hother (' ' :: items))

/-- The last field of an object has the closing brace after it. -/
theorem readFields_last {body value rest : List Char} {key : String} {v : Value} {hkey hrest}
    (hname : readString body = .ok (key, ⟨':' :: ' ' :: value, hkey⟩))
    (hvalue : readValue value = .ok (v, ⟨'\x7d' :: rest, hrest⟩)) :
    ∃ hlt, readFields ('"' :: body) = .ok ([(key, v)], ⟨rest, hlt⟩) := by
  have hcolon : skipSpace (':' :: ' ' :: value) = ':' :: ' ' :: value := skipSpace_cons rfl _
  have hskip : skipSpace (' ' :: value) = value := (beginsValue_of_readValue hvalue).skipSpace_eq
  have hend : skipSpace ('\x7d' :: rest) = '\x7d' :: rest := skipSpace_cons rfl rest
  obtain ⟨hskipped, hread⟩ : ∃ hlt, readValue (skipSpace (' ' :: value)) =
      .ok (v, ⟨'\x7d' :: rest, hlt⟩) := by
    rw [hskip]
    exact ⟨hrest, hvalue⟩
  have hlength : value.length < body.length := Nat.lt_of_succ_lt (Nat.lt_of_succ_lt hkey)
  refine ⟨Nat.lt_succ_of_lt (Nat.lt_trans (Nat.lt_of_succ_lt hrest) hlength), ?_⟩
  rw [readFields.eq_def]
  simp only [hname]
  split
  · rename_i heq
    rw [hcolon] at heq
    cases heq
    simp only [hread]
    split
    · rename_i hbrace
      rw [hend] at hbrace
      cases hbrace
      rfl
    · rename_i hcomma
      rw [hend] at hcomma
      cases hcomma
    · rename_i hother _
      exact absurd hend (hother rest)
  · rename_i hother
    exact absurd hcolon (hother (' ' :: value))

/-- The other fields have a comma after them. -/
theorem readFields_more {body value fields rest : List Char} {key : String} {v : Value}
    {more : List (String × Value)} {hkey hfields hrest}
    (hname : readString body = .ok (key, ⟨':' :: ' ' :: value, hkey⟩))
    (hvalue : readValue value = .ok (v, ⟨',' :: ' ' :: '"' :: fields, hfields⟩))
    (hmore : readFields ('"' :: fields) = .ok (more, ⟨rest, hrest⟩)) :
    ∃ hlt, readFields ('"' :: body) = .ok ((key, v) :: more, ⟨rest, hlt⟩) := by
  have hcolon : skipSpace (':' :: ' ' :: value) = ':' :: ' ' :: value := skipSpace_cons rfl _
  have hskip : skipSpace (' ' :: value) = value := (beginsValue_of_readValue hvalue).skipSpace_eq
  have hend : skipSpace (',' :: ' ' :: '"' :: fields) = ',' :: ' ' :: '"' :: fields :=
    skipSpace_cons rfl _
  have hquote : skipSpace (' ' :: '"' :: fields) = '"' :: fields := rfl
  obtain ⟨hskipped, hread⟩ : ∃ hlt, readValue (skipSpace (' ' :: value)) =
      .ok (v, ⟨',' :: ' ' :: '"' :: fields, hlt⟩) := by
    rw [hskip]
    exact ⟨hfields, hvalue⟩
  have hlength : value.length < body.length := Nat.lt_of_succ_lt (Nat.lt_of_succ_lt hkey)
  have hshorter : ('"' :: fields).length < value.length :=
    Nat.lt_of_succ_lt (Nat.lt_of_succ_lt hfields)
  refine ⟨Nat.lt_succ_of_lt (Nat.lt_trans hrest (Nat.lt_trans hshorter hlength)), ?_⟩
  rw [readFields.eq_def]
  simp only [hname]
  split
  · rename_i heq
    rw [hcolon] at heq
    cases heq
    simp only [hread]
    split
    · rename_i hbrace
      rw [hend] at hbrace
      cases hbrace
    · rename_i hcomma
      rw [hend] at hcomma
      cases hcomma
      obtain ⟨hlt, hfs⟩ : ∃ hlt, readFields (skipSpace (' ' :: '"' :: fields)) =
          .ok (more, ⟨rest, hlt⟩) := by
        rw [hquote]
        exact ⟨hrest, hmore⟩
      simp only [hfs]
    · rename_i _ hother
      exact absurd hend (hother (' ' :: '"' :: fields))
  · rename_i hother
    exact absurd hcolon (hother (' ' :: value))

/-- A property of values that the reader meets: words, numbers and texts have it, and
arrays and objects if what is in them has it. -/
structure Closed (P : Value → Prop) : Prop where
  word : ∀ word ∈ words, P word.2
  number : ∀ cs t rest n, readNumberText? cs = some (t, rest) → t.number = .ok n → P (.number n)
  text : ∀ s, P (.text s)
  list : ∀ vs, (∀ v ∈ vs, P v) → P (.list vs)
  object : ∀ fields : Fields, (fields.map Prod.fst).Nodup → (∀ p ∈ fields, P p.2) →
    P (.object fields)

section Closed

variable {P : Value → Prop} (hP : Closed P)

/-- What is read at the start of a text has a property, be it a value, items or
fields. -/
private structure Reads (P : Value → Prop) (cs : List Char) : Prop where
  value : ∀ v rest, readValue cs = .ok (v, rest) → P v
  items : ∀ vs rest, readItems cs = .ok (vs, rest) → ∀ v ∈ vs, P v
  fields : ∀ fs rest, readFields cs = .ok (fs, rest) → ∀ p ∈ fs, P p.2

include hP

private theorem of_readScalar {cs : List Char} {v : Value} {rest : Shorter cs}
    (h : readScalar cs = .ok (v, rest)) : P v := by
  unfold readScalar at h
  split at h
  · rename_i hfind
    split at h
    · cases h
      exact hP.word _ (List.mem_of_find?_eq_some hfind)
    · cases h
  · split at h
    · cases h
    · rename_i hread
      split at h
      · rename_i hnumber
        cases h
        exact hP.number _ _ _ _ hread hnumber
      · cases h

private theorem of_readValue_step {cs : List Char}
    (ih : ∀ shorter : List Char, shorter.length < cs.length → Reads P shorter) {v : Value}
    {rest : Shorter cs} (h : readValue cs = .ok (v, rest)) : P v := by
  rw [readValue.eq_def] at h
  split at h
  · split at h
    · cases h
      exact hP.text _
    · cases h
  · rename_i body
    have hlt := Nat.lt_succ_of_le (length_skipSpace_le body)
    split at h
    · cases h
      exact hP.list [] (by simp)
    · split at h
      · rename_i hitems
        cases h
        exact hP.list _ ((ih _ hlt).items _ _ hitems)
      · cases h
  · rename_i body
    have hlt := Nat.lt_succ_of_le (length_skipSpace_le body)
    split at h
    · cases h
      exact hP.object [] (by simp) (by simp)
    · split at h
      · rename_i hfields
        cases h
        exact hP.object _ (Fields.nodup_ofList _)
          (Fields.forall_ofList ((ih _ hlt).fields _ _ hfields))
      · cases h
  · exact of_readScalar hP h

private theorem of_readItems_step {cs : List Char}
    (ih : ∀ shorter : List Char, shorter.length < cs.length → Reads P shorter)
    {vs : List Value} {rest : Shorter cs} (h : readItems cs = .ok (vs, rest)) :
    ∀ v ∈ vs, P v := by
  rw [readItems.eq_def] at h
  split at h
  · cases h
  · rename_i v tail hv hread
    have hhead := of_readValue_step hP ih hread
    split at h
    · cases h
      simpa using hhead
    · rename_i items hcomma
      have hlt := length_lt_of_skipSpace hcomma
      have hskip := length_skipSpace_le items
      split at h
      · rename_i hmore
        cases h
        have htail := (ih _ (by omega)).items _ _ hmore
        exact List.forall_mem_cons.mpr ⟨hhead, htail⟩
      · cases h
    · cases h

omit hP in
private theorem of_readFields_step {cs : List Char}
    (ih : ∀ shorter : List Char, shorter.length < cs.length → Reads P shorter)
    {fs : List (String × Value)} {rest : Shorter cs} (h : readFields cs = .ok (fs, rest)) :
    ∀ p ∈ fs, P p.2 := by
  rw [readFields.eq_def] at h
  split at h
  · rename_i body
    split at h
    · cases h
    · rename_i key afterKey hkey hname
      split at h
      · rename_i afterColon hcolon
        have hcolon_lt := length_lt_of_skipSpace hcolon
        have hvalue_le := length_skipSpace_le afterColon
        simp only [List.length_cons] at ih
        split at h
        · cases h
        · rename_i v tail hv hread
          have hhead := (ih _ (by omega)).value _ _ hread
          split at h
          · cases h
            simpa using hhead
          · rename_i more hcomma
            have hcomma_lt := length_lt_of_skipSpace hcomma
            have hmore_le := length_skipSpace_le more
            split at h
            · rename_i hmore
              cases h
              have htail := (ih _ (by omega)).fields _ _ hmore
              exact List.forall_mem_cons.mpr ⟨hhead, htail⟩
            · cases h
          · cases h
      · cases h
  · cases h

private theorem reads_of_closed (n : Nat) (cs : List Char) (hn : cs.length = n) :
    Reads P cs := by
  induction n using Nat.strongRecOn generalizing cs with
  | ind n ih =>
    subst hn
    have hshorter : ∀ shorter : List Char, shorter.length < cs.length →
        Reads P shorter := fun shorter hlt => ih _ hlt shorter rfl
    exact ⟨fun _ _ => of_readValue_step hP hshorter,
      fun _ _ => of_readItems_step hP hshorter,
      fun _ _ => of_readFields_step hshorter⟩

/-- Every document that is read has a property that is closed in this way. -/
theorem Closed.of_read {text : String} {v : Value} (h : read text = .ok v) : P v := by
  unfold read at h
  simp only at h
  split at h
  · cases h
  · split at h
    · cases h
    · rename_i hvalue
      split at h
      · cases h
        exact (reads_of_closed hP _ _ rfl).value _ _ hvalue
      · cases h

end Closed

/-- Well-formedness is closed: of the values of a key that stands twice one is kept. -/
theorem closed_wellFormed : Closed Value.WellFormed where
  word := by simp [words, Value.WellFormed, Value.double]
  number _ _ _ _ _ _ := trivial
  text _ := trivial
  list _ h := Value.wellFormed_array.mpr h
  object _ hkeys h := Value.wellFormed_object.mpr ⟨hkeys, h⟩

/-- Every document that is read is well-formed. -/
theorem wellFormed_of_read {text : String} {v : Value} (h : read text = .ok v) :
    v.WellFormed := closed_wellFormed.of_read h

/-- No document is read from an empty text. -/
theorem ne_empty_of_read {text : String} {v : Value} (h : read text = .ok v) : text ≠ "" := by
  rintro rfl
  have hempty : skipSpace "".toList = [] := rfl
  unfold read at h
  simp only at h
  split at h
  · cases h
  · split at h
    · cases h
    · rename_i hvalue
      obtain ⟨c, rest, hcons, -⟩ := beginsValue_of_readValue hvalue
      rw [hempty] at hcons
      cases hcons

end Loyalty.Json
