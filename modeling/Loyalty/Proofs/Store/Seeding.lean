import Loyalty.Proofs.Json.RoundTrip
import Loyalty.Proofs.Json.Writable
import Loyalty.Proofs.Store.Saving

/-!
# What seeding does to a store

A rule set that is stored already is left alone. Otherwise what the rule file asks
to be saved is saved. It was read from a text, so it is well-formed and can be
written as a text again, and a store that is filled from a file holds storable
rules.
-/

namespace Loyalty

namespace RuleFile

/-- What a file asks to be saved under a name. -/
def asked (file : RuleFile) (name : RuleSetName) : Except Fault SaveRequest := do
  let bytes ← file.bytes
  let document ← document bytes
  request name document

variable {file : RuleFile} {name : RuleSetName} {request : SaveRequest}

/-- A file asks for a request through its document. -/
theorem asked_eq_ok (h : file.asked name = .ok request) :
    ∃ bytes v, document bytes = .ok v ∧ RuleFile.request name v = .ok request := by
  obtain ⟨bytes, -, h⟩ := bind_eq_ok.mp h
  obtain ⟨v, hdocument, hrequest⟩ := bind_eq_ok.mp h
  exact ⟨bytes, v, hdocument, hrequest⟩

/-- The bytes of a text are read as the text is. -/
theorem parse_toUTF8 {v : Value} {text : String} (h : Json.read text = .ok v) :
    parse text.toUTF8 = .ok v := by
  have hutf8 : String.fromUTF8? text.toUTF8 = some text := dif_pos text.isValidUTF8
  rw [parse, hutf8]
  simp only [h]

/-- The document in a file that was written from a value. -/
theorem document_toUTF8 {v : Value} {text : String} (hv : v.WellFormed)
    (h : Json.written v = .ok text.toList) :
    document text.toUTF8 = .ok (wrapped (Json.reread v)) := by
  rw [document, parse_toUTF8 (Json.read_of_written hv h)]
  rfl

/-- What is asked for under a name has that name. -/
theorem name_of_asked (h : file.asked name = .ok request) : request.name = name := by
  obtain ⟨_, v, -, hrequest⟩ := asked_eq_ok h
  obtain ⟨rules, -, h⟩ := bind_eq_ok.mp hrequest
  obtain ⟨description, -, h⟩ := bind_eq_ok.mp h
  obtain ⟨version, -, h⟩ := bind_eq_ok.mp h
  cases h
  rfl

section Closed

variable {P : Value → Prop} (hP : Json.Closed P)

include hP

/-- The document in a file has what all documents have that are read. -/
private theorem of_document {bytes : ByteArray} {v : Value} (h : document bytes = .ok v) :
    P v := by
  have hparse : ∀ w, parse bytes = .ok w → P w := by
    intro w hw
    unfold parse at hw
    split at hw
    · cases hw
    · split at hw
      · rename_i hread
        cases hw
        exact hP.of_read hread
      · cases hw
  unfold document at h
  cases hw : parse bytes with
  | error f =>
    rw [hw] at h
    cases h
  | ok w =>
    rw [hw] at h
    cases h
    have hwhole := hparse w hw
    unfold wrapped
    split
    · refine hP.object _ (by simp) ?_
      intro p hp
      rw [List.mem_singleton.mp hp]
      exact hwhole
    · exact hwhole

/-- The rules that a file asks to be saved have it too, if fields inherit it. -/
private theorem of_asked (hfields : ∀ fields : Fields, P (.object fields) → ∀ p ∈ fields, P p.2)
    (h : file.asked name = .ok request) : P request.rules := by
  obtain ⟨_, document, hdocument, hrequest⟩ := asked_eq_ok h
  obtain ⟨rules, hrules, h⟩ := bind_eq_ok.mp hrequest
  obtain ⟨description, -, h⟩ := bind_eq_ok.mp h
  obtain ⟨version, -, h⟩ := bind_eq_ok.mp h
  cases h
  have hwhole := of_document hP hdocument
  cases document with
  | object fields =>
    cases hrules
    cases hlookup : List.lookup "rules" fields with
    | none => exact hP.list [] (by simp)
    | some v => exact hfields fields hwhole _ (Fields.mem_of_lookup hlookup)
  | _ => cases hrules

end Closed

/-- The rules that a file asks to be saved are well-formed. -/
theorem wellFormed_of_asked (h : file.asked name = .ok request) : request.rules.WellFormed :=
  of_asked Json.closed_wellFormed (fun _ hfields => (Value.wellFormed_object.mp hfields).2) h

/-- The rules that a file asks to be saved can be written. -/
theorem isWritable_of_asked (h : file.asked name = .ok request) : Json.IsWritable request.rules :=
  of_asked Json.closed_isWritable (fun _ => Json.isWritable_object.mp) h

end RuleFile

namespace Store

variable {store : Store} {now : Instant} {name : RuleSetName} {file : RuleFile}

/-- A rule set that is stored is not filled again, and nothing is told. -/
theorem seed_apply_of_find? {row : Row} (h : store.find? name = some row) :
    seed now name file store = (.of row, store) := by
  have hget : (Action.get : Action Store Store) store = (⟨[], .ok store⟩, store) := rfl
  rw [seed, Action.bind_of_ok hget, h]
  rfl

/-- A rule set that is stored is not filled again. -/
theorem seed_of_find? {row : Row} (h : store.find? name = some row) :
    (seed now name file).result store = (.ok row, store) := by
  rw [Action.result, seed_apply_of_find? h]
  rfl

/-- Where a rule set is not stored, what the file asks for is saved. -/
theorem seed_of_find?_eq_none (h : store.find? name = none) :
    (seed now name file).result store =
      match file.asked name with
      | .error f => (.error f, store)
      | .ok request => (save now request).result store := by
  rw [seed, Action.result_get_bind, h, RuleFile.asked]
  simp only
  cases file.bytes with
  | error f => rfl
  | ok bytes =>
    rw [Action.result_ofExcept_ok_bind, ok_bind]
    cases RuleFile.document bytes with
    | error f => rfl
    | ok document =>
      rw [Action.result_ofExcept_ok_bind, Action.result_note_bind, ok_bind]
      cases RuleFile.request name document with
      | error f => rfl
      | ok request => rw [Action.result_ofExcept_ok_bind]

/-- A store that is filled from a file still has storable rules. -/
theorem storable_seed (hstore : ∀ row ∈ store.rows, row.rules.Storable) (now : Instant)
    (name : RuleSetName) (file : RuleFile) :
    ∀ row ∈ ((seed now name file).result store).2.rows, row.rules.Storable := by
  cases hfind : store.find? name with
  | some row =>
    rw [seed_of_find? hfind]
    exact hstore
  | none =>
    rw [seed_of_find?_eq_none hfind]
    split
    · exact hstore
    · rename_i request hasked
      exact (save_cases now request store).storable (RuleFile.wellFormed_of_asked hasked) hstore

end Store

end Loyalty
