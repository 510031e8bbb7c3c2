import Loyalty.Cache
import Loyalty.Proofs.Json.Ascii
import Loyalty.Proofs.Json.Documents

/-!
# What the cache gives back

A document that is kept is the one that is found until its time is over: its text is
ASCII, reading the text gives the document again, and the entries of the other rule sets
stay. A document that has no text is not kept at all, and the cache is as before.
-/

namespace Loyalty.Cache

open Loyalty.Action

/-- The documents of two rule sets are under different keys. -/
theorem documentKey_inj {name other : String} :
    documentKey name = documentKey other ↔ name = other := by
  rw [documentKey, documentKey, String.append_left_inj, String.append_right_inj]

/-- An entry is kept at least at the instant at which it is put in. -/
theorem Lifetime.reaches_start (start : Instant) (seconds : Nat) :
    (Lifetime.mk start seconds).reaches start = true :=
  decide_eq_true (Nat.le_add_right _ _)

section Runs

variable {now : Instant} {name : String} {cache : Cache} {document : Value}

/-- A document with a text is put under its key. -/
theorem keep_of_written {text : List Char} (htext : Json.written document = .ok text) :
    keep now name document cache = (⟨[.cacheFilled name], .ok ()⟩,
      cache.put (documentEntry now name text)) := by
  rw [keep, htext]
  rfl

/-- A document without a text is not kept. -/
theorem keep_of_not_writable {reason : Json.Unwritable}
    (hreason : Json.written document = .error reason) :
    keep now name document cache = (⟨[], .error (.notWritable reason)⟩, cache) := by
  rw [keep, hreason]
  rfl

/-- What is found is what the text under the key is read as. -/
theorem document_of_read {entry : CacheEntry}
    (hentry : cache.find? now (documentKey name) = some entry)
    (hread : Json.read entry.text = .ok document) :
    Cache.document now name cache = (⟨[.cacheHit name], .ok (some document)⟩, cache) := by
  have hget : (get : Action Cache Cache) cache = (⟨[], .ok cache⟩, cache) := rfl
  have hnote : (note (.cacheHit name) : Action Cache Unit) cache =
      (⟨[.cacheHit name], .ok ()⟩, cache) := rfl
  rw [Cache.document, bind_of_ok hget]
  simp only [hentry, if_neg (Json.ne_empty_of_read hread)]
  rw [bind_of_ok hnote]
  simp only [hread]
  rfl

/-- A look for a document leaves the cache alone. -/
theorem preserves_document {P : Cache → Prop} : Preserves P (Cache.document now name) := by
  refine preserves_get.bind fun cache => ?_
  split
  · exact (preserves_lift _).bind fun _ => preserves_pure _
  · split
    · exact (preserves_lift _).bind fun _ => preserves_pure _
    · refine (preserves_lift _).bind fun _ => ?_
      split
      · exact preserves_pure _
      · exact preserves_lift _

end Runs

/-- What a cache is after a document was kept in another at an instant. -/
structure Keeps (start : Instant) (name : String) (document : Value) (before after : Cache) :
    Prop where
  /-- The document is found right away, and looking for it changes nothing. -/
  found : Cache.document start name after = (⟨[.cacheHit name], .ok (some document)⟩, after)
  /-- It is found until its time is over. -/
  lasting : ∀ now, (Lifetime.mk start documentLifetime).reaches now = true →
    Cache.document now name after = (⟨[.cacheHit name], .ok (some document)⟩, after)
  /-- The text under its key is ASCII. -/
  ascii : ∃ text, after.find? start (documentKey name) = some (documentEntry start name text) ∧
    IsAscii text
  /-- The other rule sets have the entries that they had. -/
  others : ∀ now other, other ≠ name →
    after.find? now (documentKey other) = before.find? now (documentKey other)

/-- A storable document is found as it was kept. -/
theorem keeps_of_storable {document : Value} (h : document.Storable) {text : List Char}
    (htext : Json.written document = .ok text) (start : Instant) (name : String)
    (cache : Cache) :
    Keeps start name document cache (cache.put (documentEntry start name text)) := by
  have hentry : ∀ now, (Lifetime.mk start documentLifetime).reaches now = true →
      (cache.put (documentEntry start name text)).find? now (documentKey name) =
        some (documentEntry start name text) := fun now hlive =>
    (find?_put_self (documentEntry start name text) cache).trans (if_pos hlive)
  have hstart := hentry start (Lifetime.reaches_start start _)
  have hread := h.read_written htext
  refine ⟨document_of_read hstart hread, fun now hlive => document_of_read (hentry now hlive) hread,
    ⟨text, hstart, Json.isAscii_written htext⟩, fun now other hother => ?_⟩
  have hkey : documentKey other ≠ documentKey name := fun h => hother (documentKey_inj.mp h)
  exact find?_put_of_ne hkey cache

/-- A JSON document is found as it was kept, right away and until its time is over, in a
cache that has the other rule sets' entries as before, unless an integer in it has more
digits than the limit: then nothing is kept. -/
theorem keep_document {document : Value} (hdocument : document.IsDocument) (now : Instant)
    (name : String) (cache : Cache) :
    (document.HasFewDigits → ∃ after,
      keep now name document cache = (⟨[.cacheFilled name], .ok ()⟩, after) ∧
        Keeps now name document cache after) ∧
      (¬ document.HasFewDigits →
        keep now name document cache = (⟨[], .error (.notWritable .tooManyDigits)⟩, cache)) := by
  constructor
  · intro hfew
    obtain ⟨text, htext⟩ := hdocument.isWritable_iff.mpr hfew
    exact ⟨_, keep_of_written htext,
      keeps_of_storable (hdocument.storable hfew) htext now name cache⟩
  · intro hmany
    exact keep_of_not_writable (hdocument.written_of_not_hasFewDigits hmany)

/-- A document with a key and a text to escape, an integer, the double and the truth
value next to it, a negative zero, and the doubles that are written as words. -/
def assortedDocument : Value :=
  .object [("\"\\\n𝄞", .list [.int 1, .double (.nearestInt 1), .bool true, .double (.zero true)]),
    ("", .list [.double .nan, .double (.infinity true), .null, .object [], .text "é\t"])]

/-- A document with values of all sorts is found as it was kept. -/
theorem keep_document_assorted :
    assortedDocument.IsDocument ∧ assortedDocument.HasFewDigits ∧
      ∃ after, keep .first "loyalty" assortedDocument .empty =
          (⟨[.cacheFilled "loyalty"], .ok ()⟩, after) ∧
        Keeps .first "loyalty" assortedDocument .empty after := by
  have hnumbers : ∀ v ∈ [Value.int 1, .double (.nearestInt 1), .bool true,
      .double (.zero true)], v.IsDocument := by
    simp only [List.forall_mem_cons]
    exact ⟨.number _, .number _, .bool _, .number _, List.forall_mem_nil _⟩
  have hothers : ∀ v ∈ [Value.double .nan, .double (.infinity true), .null, .object [],
      .text "é\t"], v.IsDocument := by
    simp only [List.forall_mem_cons]
    exact ⟨.number _, .number _, .null, .object (by decide) (by simp), .text _,
      List.forall_mem_nil _⟩
  have hdocument : assortedDocument.IsDocument := by
    refine .object (by decide) ?_
    simp only [List.forall_mem_cons]
    exact ⟨.list hnumbers, .list hothers, List.forall_mem_nil _⟩
  have hfew : assortedDocument.HasFewDigits := by decide
  exact ⟨hdocument, hfew, (keep_document hdocument .first "loyalty" .empty).1 hfew⟩

/-- The least integer with a digit too many is a document, but it is not found after it
was to be kept. -/
theorem not_keeps_powerOfTen :
    (Value.int (10 ^ 4300)).IsDocument ∧
      keep .first "loyalty" (.int (10 ^ 4300)) .empty =
        (⟨[], .error (.notWritable .tooManyDigits)⟩, .empty) ∧
      ¬ Keeps .first "loyalty" (.int (10 ^ 4300)) .empty
        (keep .first "loyalty" (.int (10 ^ 4300)) .empty).2 := by
  have hdocument : (Value.int (10 ^ 4300)).IsDocument := .number _
  have hmany : ¬ (Value.int (10 ^ 4300)).HasFewDigits :=
    Value.not_hasFewDigits_pow (Nat.le_refl _)
  have hkeep := @keep_of_not_writable .first "loyalty" .empty _ _
    (hdocument.written_of_not_hasFewDigits hmany)
  refine ⟨hdocument, hkeep, fun hkeeps => ?_⟩
  rw [hkeep] at hkeeps
  obtain ⟨text, hentry, -⟩ := hkeeps.ascii
  cases hentry

end Loyalty.Cache
