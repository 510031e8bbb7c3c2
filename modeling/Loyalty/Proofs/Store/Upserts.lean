import Loyalty.Proofs.Json.Comparison
import Loyalty.Proofs.Store.Taking

/-!
# Creating and overwriting a row

A save that found no row tries to create one. If another save was faster, the creation
is refused and the row of the other one is overwritten: that ends as a save which found
the row at once, since what no column takes is refused in both ways with the same
fault. Which of the two a save does is seen in one place alone: null as a version
becomes the usual one in a row that is created, and stays null in one that is
overwritten.
-/

namespace Loyalty

/-- The version of a row that is saved, given the row that was there. -/
def SaveRequest.savedVersion (request : SaveRequest) (found : Option Row) :
    Except Fault (Option String) :=
  match found with
  | none => request.createdVersion
  | some _ => request.version.columnText

/-- Null is stored where a row is overwritten, and becomes the usual version where one is
created. -/
theorem SaveRequest.savedVersion_of_null {request : SaveRequest} (h : request.version = .null)
    (found : Option Row) :
    request.savedVersion found = .ok (if found.isSome then none else some defaultVersion) := by
  cases found with
  | none =>
    rw [savedVersion, createdVersion, h]
    rfl
  | some old =>
    rw [savedVersion, h]
    rfl

/-- Any other version does not go by the row that was there. -/
theorem SaveRequest.savedVersion_of_ne_null {request : SaveRequest} (h : request.version ≠ .null)
    (found : Option Row) : request.savedVersion found = request.version.columnText := by
  cases found with
  | none => exact createdVersion_of_ne_null h
  | some old => rfl

/-- The first column that does not take its part of a request, and the fault that it
answers. -/
inductive SaveRequest.Fails (request : SaveRequest) (f : Fault) : Prop where
  | rules (h : request.rules.stored = .error f)
  | description (h : request.description.columnText = .error f)
    (hrules : ∃ v, request.rules.stored = .ok v)
  | version (h : request.version.columnText = .error f) (hrules : ∃ v, request.rules.stored = .ok v)
    (hdescription : request.description.FitsColumn)

namespace Store

variable {now : Instant} {request : SaveRequest} {store : Store}

/-- A creation fails at the first column that does not take its part. -/
theorem fails_of_insert?_eq_error {f : Fault} (h : store.insert? now request = .error f) :
    request.Fails f := by
  cases hrules : request.rules.stored with
  | error f' =>
    rw [insert?, hrules] at h
    cases h
    exact .rules hrules
  | ok rules =>
    cases hdescription : request.description.columnText with
    | error f' =>
      rw [insert?, hrules, ok_bind, hdescription] at h
      cases h
      exact .description hdescription ⟨rules, hrules⟩
    | ok description =>
      cases hversion : request.version.columnText with
      | error f' =>
        simp only [insert?, hrules, hdescription, ok_bind] at h
        split at h
        · rename_i hnull
          rw [hnull] at hversion
          cases hversion
        · rw [hversion] at h
          cases h
          exact .version hversion ⟨rules, hrules⟩ ⟨description, hdescription⟩
      | ok version =>
        obtain ⟨inserted, hinserted⟩ := exists_insert?_iff.mpr
          ⟨⟨rules, hrules⟩, ⟨description, hdescription⟩, version, hversion⟩
        cases h.symm.trans hinserted

/-- An overwrite of stored rules fails there too. -/
theorem overwritten_of_fails (now : Instant) {old : Row} {f : Fault}
    (hold : Json.IsWritable old.rules) (h : request.Fails f) :
    old.overwritten now request = .error f := by
  have hstored : request.rules.looseEq request.nan .shared old.rules = true →
      ∃ v, request.rules.stored = .ok v := fun heq =>
    Value.exists_stored_iff.mpr (Json.isWritable_of_looseEq heq hold)
  unfold Row.overwritten
  simp only
  cases h with
  | rules h =>
    have hne : ¬ request.rules.looseEq request.nan .shared old.rules = true := by
      intro heq
      obtain ⟨v, hv⟩ := hstored heq
      cases h.symm.trans hv
    rw [if_neg hne, h]
    rfl
  | description h hrules =>
    obtain ⟨v, hv⟩ := hrules
    rw [h, hv]
    split
    · rfl
    · rfl
  | version h hrules hdescription =>
    obtain ⟨v, hv⟩ := hrules
    obtain ⟨text, htext⟩ := hdescription
    rw [h, hv, htext]
    split
    · rfl
    · rfl

/-- A save that found no row ends as one that found it, in all that it writes and
tells. -/
theorem saveOver_none_eq {old : Row} (hfind : store.find? request.name = some old)
    (hold : Json.IsWritable old.rules) :
    saveOver now request none store = overwrite now request (some old) store := by
  rw [saveOver_none_apply]
  cases hinsert : store.insert? now request with
  | error f =>
    have hfails := overwritten_of_fails now hold (fails_of_insert?_eq_error hinsert)
    simp only [overwrite]
    rw [hfails]
    rfl
  | ok inserted =>
    cases inserted with
    | none => rw [hfind]
    | some pair =>
      obtain ⟨hrow, -⟩ := insert?_eq_ok hinsert
      rw [hrow.name, hrow.free] at hfind
      cases hfind

/-- A save goes by the row of its name. -/
theorem save_apply (now : Instant) (request : SaveRequest) (store : Store) :
    save now request store = saveOver now request (store.find? request.name) store := by
  have hget : (Action.get : Action Store Store) store = (⟨[], .ok store⟩, store) := rfl
  rw [save, Action.bind_of_ok hget]
  rfl

/-- Losing the race for a row is not seen: a save whose first look-up still found
nothing ends in the same store, with the same row or fault and the same notices, as
one that found what is there. It overwrites the row of its name if there is one and
creates one if not, as far as the request is taken; otherwise, and always without a
name, it fails and leaves the store as it is. -/
theorem saveAfterLostRace_eq_save (hstore : ∀ row ∈ store.rows, Json.IsWritable row.rules)
    (now : Instant) (request : SaveRequest) :
    saveAfterLostRace now request store = save now request store ∧
      (∀ old, store.find? request.name = some old → request.IsTaken (some old) →
        ∃ row, Row.Overwrites now request old row ∧ saveAfterLostRace now request store =
          (request.told .rowReplaced row, store.replace row)) ∧
      (store.find? request.name = none → request.IsTaken none →
        ∃ row, Creates now request store row ∧ saveAfterLostRace now request store =
          (request.told .rowCreated row, ⟨store.rows ++ [row]⟩)) ∧
      (¬ request.IsTaken (store.find? request.name) ∨ request.name = none →
        ∃ f, saveAfterLostRace now request store = (.fail f, store)) := by
  have hsame : saveAfterLostRace now request store = save now request store := by
    rw [save_apply, saveAfterLostRace]
    cases hfind : store.find? request.name with
    | none => rfl
    | some old => exact saveOver_none_eq hfind (hstore old (mem_of_find? hfind))
  refine ⟨hsame, ?_, ?_, ?_⟩
  · intro old hfind htaken
    rw [hsame, save_apply, hfind]
    exact overwrite_of_isTaken htaken store
  · intro hfind htaken
    rcases @insert?_of_isTaken now _ store htaken with ⟨row, hrow, hinsert⟩ | ⟨old, hold, -⟩
    · exact ⟨row, hrow, by rw [saveAfterLostRace, saveOver_none_apply, hinsert]⟩
    · rw [hfind] at hold
      cases hold
  · intro hnot
    rw [hsame, save_apply]
    refine saveOver_of_not_isTaken (.inl rfl) ?_
    rcases hnot with hnot | hname
    · exact hnot
    · exact fun htaken => htaken.named hname

/-- A row under the usual name. -/
def usualRow (rules : Value) (updatedAt : Instant)
    (fewDigits : rules.HasFewDigits := by decide) : Row :=
  ⟨0, SaveRequest.defaultName, none, none, rules, updatedAt, fewDigits⟩

/-- Rules to be saved under that name. -/
def usualSave (rules : List Value) (version : Value) : SaveRequest :=
  { SaveRequest.ofRules (some SaveRequest.defaultName) (.list rules) with version := version }

/-- Zero stays in its row when a false was saved that lost the race. -/
theorem saveAfterLostRace_eq_save_false :
    ∃ row, saveAfterLostRace .first (usualSave [.bool false] .null)
        ⟨[usualRow (.list [.int 0]) .first]⟩ =
          ((usualSave [.bool false] .null).told .rowReplaced row, ⟨[row]⟩) ∧
      row.rules = .list [.int 0] := by
  have hstore : ∀ row ∈ (⟨[usualRow (.list [.int 0]) .first]⟩ : Store).rows,
      Json.IsWritable row.rules := by
    intro row hrow
    rw [List.mem_singleton.mp hrow]
    refine Json.isWritable_array.mpr fun v hv => ?_
    rw [List.mem_singleton.mp hv]
    exact ⟨_, rfl⟩
  obtain ⟨row, hrow, hsave⟩ := (saveAfterLostRace_eq_save hstore .first
    (usualSave [.bool false] .null)).2.1 _ rfl ⟨nofun, .inr ⟨_, rfl, rfl⟩, ⟨_, rfl⟩, ⟨_, rfl⟩⟩
  have hreplace : Store.replace row ⟨[usualRow (.list [.int 0]) .first]⟩ = ⟨[row]⟩ := by
    simp [replace, hrow.name]
  exact ⟨row, by rw [hsave, hreplace], hrow.rules⟩

/-- The texts of the row that a save gave are those of the request, and null as a
version goes by the row that was there. -/
theorem texts_of_save {row : Row} {after : Store}
    (h : (save now request).result store = (.ok row, after)) :
    after.find? request.name = some row ∧
      request.description.columnText = .ok row.description ∧
      request.savedVersion (store.find? request.name) = .ok row.version := by
  have hsaved := save_cases now request store
  rw [h] at hsaved
  obtain ⟨-, ⟨hcreated, rfl⟩ | ⟨old, hfind, hrow, rfl⟩⟩ := hsaved.of_ok
  · rw [hcreated.name, hcreated.free]
    exact ⟨find?_append hcreated.free, hcreated.description, hcreated.created⟩
  · obtain ⟨name, hname⟩ : ∃ name, request.name = some name := by
      cases hname : request.name with
      | none =>
        rw [hname] at hfind
        cases hfind
      | some name => exact ⟨name, rfl⟩
    rw [hname] at hfind ⊢
    rw [hfind]
    exact ⟨find?_replace hfind hrow.name, hrow.description, hrow.version⟩

/-- What two saves with the same request leave in the rows of its name has the same
description, whatever rows were there before. It has the same version too, unless that
is null in the request and one of the saves created the row while the other one
overwrote it. -/
theorem version_save_eq_iff {now' : Instant} {store' after after' : Store} {row row' : Row}
    (h : (save now request).result store = (.ok row, after))
    (h' : (save now' request).result store' = (.ok row', after')) :
    after.find? request.name = some row ∧ after'.find? request.name = some row' ∧
      row.description = row'.description ∧
      (row.version = row'.version ↔
        (request.version = .null →
          ((store.find? request.name).isSome ↔ (store'.find? request.name).isSome))) := by
  obtain ⟨hrow, hdescription, hversion⟩ := texts_of_save h
  obtain ⟨hrow', hdescription', hversion'⟩ := texts_of_save h'
  refine ⟨hrow, hrow', Except.ok.inj (hdescription.symm.trans hdescription'), ?_⟩
  by_cases hnull : request.version = .null
  · rw [SaveRequest.savedVersion_of_null hnull] at hversion hversion'
    rw [← Except.ok.inj hversion, ← Except.ok.inj hversion']
    cases (store.find? request.name).isSome with
    | true => cases (store'.find? request.name).isSome <;> simp [hnull]
    | false => cases (store'.find? request.name).isSome <;> simp [hnull]
  · rw [SaveRequest.savedVersion_of_ne_null hnull] at hversion hversion'
    exact iff_of_true (Except.ok.inj (hversion.symm.trans hversion')) fun h => absurd h hnull

/-- A version that is given is the same in a row that is created and in one that is
overwritten. -/
theorem version_save_eq_iff_given :
    ∃ row row' after after',
      (save .first (usualSave [] (.text "2.0.0"))).result .empty = (.ok row, after) ∧
      (save .first (usualSave [] (.text "2.0.0"))).result
        ⟨[usualRow .null .first]⟩ = (.ok row', after') ∧
      row.version = row'.version := by
  refine ⟨_, _, _, _, rfl, rfl, ?_⟩
  refine (@version_save_eq_iff .first (usualSave [] (.text "2.0.0")) .empty
    .first ⟨[usualRow .null .first]⟩ _ _ _ _ rfl rfl).2.2.2.mpr fun hnull => ?_
  cases hnull

/-- With null as its version, saving the same twice creates a row with the usual
version and then leaves it without one. -/
theorem version_save_ne_null :
    ∃ row row' after after',
      (save .first (usualSave [] .null)).result .empty = (.ok row, after) ∧
      (save .first (usualSave [] .null)).result after = (.ok row', after') ∧
      row.version = some "1.0.0" ∧ row'.version = none ∧
      after'.find? (some SaveRequest.defaultName) = some row' :=
  ⟨_, _, _, _, rfl, rfl, rfl, rfl, rfl⟩

end Store

end Loyalty
