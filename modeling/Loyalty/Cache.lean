import Loyalty.Calendar.Moment
import Loyalty.Json.Reader
import Loyalty.Json.Writer
import Loyalty.Report

/-!
# The cache of documents

Documents are kept as JSON text under a key made of the name of their rule set,
for five minutes: an entry whose time is over is not found. Other texts can be put in
under any key and have no end; an empty one counts as absent.
-/

namespace Loyalty

/-- Some seconds from an instant on. -/
structure Lifetime where
  start : Instant
  seconds : Nat

/-- Whether an instant is no later than the end of a lifetime. -/
def Lifetime.reaches (lifetime : Lifetime) (now : Instant) : Bool :=
  now.micros ≤ lifetime.start.micros + lifetime.seconds * 1000000

/-- A text under a key, and how long it is kept, if there is an end to that. -/
structure CacheEntry where
  key : String
  lifetime : Option Lifetime
  text : String

/-- Whether an entry is kept at an instant. -/
def CacheEntry.isLive (now : Instant) (entry : CacheEntry) : Bool :=
  entry.lifetime.all fun lifetime => lifetime.reaches now

/-- The entries, one for each key. -/
structure Cache where
  entries : List CacheEntry

namespace Cache

/-- A cache without entries. -/
def empty : Cache := ⟨[]⟩

/-- The seconds that a document is kept. -/
def documentLifetime : Nat := 300

/-- The key of the document of a rule set. -/
def documentKey (name : String) : String := "rule_set:" ++ name ++ ":document"

/-- The entry under a key at an instant. -/
def find? (now : Instant) (cache : Cache) (key : String) : Option CacheEntry :=
  cache.entries.find? fun entry => entry.key == key && entry.isLive now

/-- Removes what is under a key. -/
def erase (key : String) (cache : Cache) : Cache :=
  ⟨cache.entries.filter fun entry => entry.key != key⟩

/-- Puts an entry in the place of what is under its key. -/
def put (entry : CacheEntry) (cache : Cache) : Cache :=
  ⟨(cache.erase entry.key).entries ++ [entry]⟩

section Lookup

variable {now : Instant} {key other : String} {entry : CacheEntry}

/-- Nothing is under a key that was erased. -/
theorem find?_erase_self (key : String) (cache : Cache) :
    (cache.erase key).find? now key = none := by
  simp only [find?, erase, List.find?_eq_none, List.mem_filter]
  rintro entry ⟨-, hother⟩
  simpa using fun hkey => absurd hkey (by simpa using hother)

/-- The other keys keep their entries. -/
theorem find?_erase_of_ne (h : other ≠ key) (cache : Cache) :
    (cache.erase key).find? now other = cache.find? now other := by
  simp only [find?, erase, List.find?_filter]
  congr 1
  funext entry
  by_cases hentry : entry.key = other
  · simp [hentry, h]
  · simp [hentry]

/-- An entry that was put is under its key while it is kept. -/
theorem find?_put_self (entry : CacheEntry) (cache : Cache) :
    (cache.put entry).find? now entry.key = if entry.isLive now then some entry else none := by
  have hnone := @find?_erase_self now entry.key cache
  simp only [find?] at hnone
  rw [find?, put, List.find?_append, hnone]
  cases hlive : entry.isLive now with
  | true => simp [hlive]
  | false => simp [hlive]

/-- The other keys keep their entries. -/
theorem find?_put_of_ne (h : key ≠ entry.key) (cache : Cache) :
    (cache.put entry).find? now key = cache.find? now key := by
  have hold := @find?_erase_of_ne now _ _ h cache
  have hbeq : (entry.key == key) = false := by simpa using Ne.symm h
  simp only [find?] at hold ⊢
  simp [put, List.find?_append, hold, hbeq]

end Lookup

/-- The entries in the order of their keys. -/
def sorted (cache : Cache) : List CacheEntry :=
  cache.entries.mergeSort fun a b => !decide (b.key < a.key)

/-- The entry of the document of a rule set, which was put in at an instant. -/
def documentEntry (now : Instant) (name : String) (text : List Char) : CacheEntry :=
  ⟨documentKey name, some ⟨now, documentLifetime⟩, String.ofList text⟩

/-- The document of a rule set, if a text is kept for it. The text has to be JSON. -/
def document (now : Instant) (name : String) : Action Cache (Option Value) := do
  let cache ← Action.get
  match cache.find? now (documentKey name) with
  | none =>
    Action.note (.cacheMiss name)
    return none
  | some entry =>
    if entry.text = "" then
      Action.note (.cacheMiss name)
      return none
    else
      Action.note (.cacheHit name)
      match Json.read entry.text with
      | .ok v => return some v
      | .error fault => Action.fail (.badJson fault)

/-- Keeps the document of a rule set. -/
def keep (now : Instant) (name : String) (document : Value) : Action Cache Unit := do
  match Json.written document with
  | .error reason => Action.fail (.notWritable reason)
  | .ok text =>
    Action.modify (put (documentEntry now name text))
    Action.note (.cacheFilled name)

/-- Drops the document of a rule set. -/
def invalidate (name : String) : Action Cache Unit := do
  Action.modify (erase (documentKey name))
  Action.note (.cacheInvalidated name)

end Cache

end Loyalty
