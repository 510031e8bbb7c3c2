import Loyalty.Proofs.Store.Saving

/-!
# What the store takes

A request is taken if its rules can be stored and its texts have a place in their
columns. One that is not taken leaves the rows alone. One that is taken has its row
written, and only then are its rules counted: where that cannot be done the save
fails, and the row stays.
-/

namespace Loyalty

namespace Value

/-- A value that can be counted, as every list can. -/
def IsCountable (v : Value) : Prop := ∃ n, v.count = .ok n

/-- A value that a column of texts takes. -/
def FitsColumn (v : Value) : Prop := ∃ t, v.columnText = .ok t

/-- What can be counted can be gone through. -/
theorem isCountable_iff {v : Value} : v.IsCountable ↔ ∃ items, v.elements = .ok items := by
  rw [IsCountable, count, elements]
  cases v.elements? with
  | some items => simp
  | none => simp

/-- What is stored can be counted exactly if what was saved can. -/
theorem isCountable_of_stored {rules : Value} {v : Stored} (h : rules.stored = .ok v) :
    v.val.IsCountable ↔ rules.IsCountable := by
  rw [(exists_written_of_stored h).2]
  cases rules with
  | array kind items => exact iff_of_true ⟨_, rfl⟩ ⟨_, rfl⟩
  | object fields => exact iff_of_true ⟨_, rfl⟩ ⟨_, rfl⟩
  | number n => exact iff_of_false (fun ⟨_, h⟩ => by cases h) (fun ⟨_, h⟩ => by cases h)
  | _ => exact Iff.rfl

/-- What counts as a number cannot be counted. -/
private theorem not_isCountable_of_number? {v : Value} {n : Number} (h : v.number? = some n) :
    ¬ v.IsCountable := by
  rintro ⟨count, hcount⟩
  cases v with
  | bool b => cases hcount
  | number n => cases hcount
  | _ => cases h

/-- What equals a countable value loosely can be counted too. -/
theorem isCountable_of_looseEq {nan marks : Identity} {v w : Value}
    (h : v.looseEq nan marks w = true) : v.IsCountable ↔ w.IsCountable := by
  unfold looseEq at h
  split at h
  · rfl
  · split at h
    · rename_i hw
      exact iff_of_false (not_isCountable_of_number? rfl) (not_isCountable_of_number? hw)
    · cases h
  · split at h
    · rename_i hw
      exact iff_of_false (not_isCountable_of_number? rfl) (not_isCountable_of_number? hw)
    · cases h
  · exact iff_of_true ⟨_, rfl⟩ ⟨_, rfl⟩
  · exact iff_of_true ⟨_, rfl⟩ ⟨_, rfl⟩
  · exact iff_of_true ⟨_, rfl⟩ ⟨_, rfl⟩
  · rfl
  · rfl
  · rfl
  · cases h

end Value

namespace SaveRequest

/-- A request that is taken, given the row that a first look-up found. -/
structure IsTaken (request : SaveRequest) (found : Option Row) : Prop where
  named : request.name ≠ none
  rules : (∃ v, request.rules.stored = .ok v) ∨
    ∃ old, found = some old ∧ request.rules.looseEq request.nan .shared old.rules = true
  description : request.description.FitsColumn
  version : request.version.FitsColumn

/-- What is taken where no row was found is taken where one was. -/
theorem IsTaken.of_none {request : SaveRequest} (h : request.IsTaken none) (found : Option Row) :
    request.IsTaken found :=
  ⟨h.named, .inl (by simpa using h.rules), h.description, h.version⟩

/-- A request that is taken although its rules cannot be counted. -/
structure Tears (request : SaveRequest) (found : Option Row) : Prop where
  isTaken : request.IsTaken found
  uncountable : ¬ request.rules.IsCountable

end SaveRequest

namespace Store

variable {now : Instant} {request : SaveRequest} {store : Store}

/-- An overwrite writes a row if the new rules can be stored or equal the old ones
loosely, and the texts fit. -/
theorem exists_overwrites_iff {old : Row} :
    (∃ row, Row.Overwrites now request old row) ↔
      ((∃ v, request.rules.stored = .ok v) ∨
        request.rules.looseEq request.nan .shared old.rules = true) ∧
      request.description.FitsColumn ∧ request.version.FitsColumn := by
  constructor
  · rintro ⟨row, -, -, -, hrules, hdescription, hversion⟩
    refine ⟨?_, ⟨_, hdescription⟩, ⟨_, hversion⟩⟩
    split at hrules
    · rename_i heq
      exact .inr heq
    · exact .inl ⟨_, hrules⟩
  · rintro ⟨hrules, ⟨description, hdescription⟩, version, hversion⟩
    by_cases heq : request.rules.looseEq request.nan .shared old.rules = true
    · exact ⟨⟨old.identity, old.name, description, version, old.rules, now, old.fewDigits⟩, rfl,
        rfl, rfl, by rw [if_pos heq], hdescription, hversion⟩
    · obtain ⟨⟨rules, hfew⟩, hstored⟩ := hrules.resolve_right heq
      exact ⟨⟨old.identity, old.name, description, version, rules, now, hfew⟩, rfl, rfl, rfl,
        by rw [if_neg heq]; exact hstored, hdescription, hversion⟩

/-- An insertion is tried if the rules can be stored and the texts fit. -/
theorem exists_insert?_iff :
    (∃ inserted, store.insert? now request = .ok inserted) ↔
      (∃ v, request.rules.stored = .ok v) ∧ request.description.FitsColumn ∧
        request.version.FitsColumn := by
  constructor
  · rintro ⟨inserted, h⟩
    obtain ⟨rules, hrules, h⟩ := bind_eq_ok.mp h
    obtain ⟨description, hdescription, h⟩ := bind_eq_ok.mp h
    refine ⟨⟨rules, hrules⟩, ⟨description, hdescription⟩, ?_⟩
    simp only at h
    split at h
    · rename_i hnull
      rw [hnull]
      exact ⟨none, rfl⟩
    · obtain ⟨version, hversion, -⟩ := bind_eq_ok.mp h
      exact ⟨version, hversion⟩
  · rintro ⟨⟨rules, hrules⟩, ⟨description, hdescription⟩, version, hversion⟩
    simp only [insert?, hrules, hdescription, ok_bind]
    split
    on_goal 2 => rw [hversion, ok_bind]
    all_goals
      cases request.name with
      | none => exact ⟨_, rfl⟩
      | some name =>
        simp only
        split
        · exact ⟨_, rfl⟩
        · exact ⟨_, rfl⟩

/-- An insertion that is refused under a name has found the name taken. -/
theorem find?_of_insert?_eq_none (h : store.insert? now request = .ok none)
    (hname : request.name ≠ none) : ∃ old, store.find? request.name = some old := by
  obtain ⟨rules, -, h⟩ := bind_eq_ok.mp h
  obtain ⟨description, -, h⟩ := bind_eq_ok.mp h
  obtain ⟨version, h⟩ : ∃ version : Option String, _ = Except.ok _ := by
    simp only at h
    split at h
    · obtain ⟨version, -, h⟩ := bind_eq_ok.mp h
      exact ⟨version, h⟩
    · obtain ⟨version, -, h⟩ := bind_eq_ok.mp h
      exact ⟨version, h⟩
  split at h
  · rename_i hnone
    exact absurd hnone hname
  · rename_i name hname
    split at h
    · rename_i htaken
      rw [hname]
      exact Option.isSome_iff_exists.mp htaken
    · cases h

/-- The rules of an overwritten row can be counted exactly if those that were saved
can. -/
theorem isCountable_of_overwrites {old row : Row} (h : Row.Overwrites now request old row) :
    row.rules.IsCountable ↔ request.rules.IsCountable := by
  have hrules := h.rules
  split at hrules
  · rename_i heq
    rw [hrules, Value.isCountable_of_looseEq heq]
  · exact Value.isCountable_of_stored hrules

/-- A request that is taken where its name has a row overwrites that row. -/
theorem overwrite_of_isTaken {old : Row} (h : request.IsTaken (some old)) (store : Store) :
    ∃ row, Row.Overwrites now request old row ∧
      overwrite now request (some old) store = (request.told .rowReplaced row, store.replace row) := by
  have hrules : (∃ v, request.rules.stored = .ok v) ∨
      request.rules.looseEq request.nan .shared old.rules = true := by
    refine h.rules.imp_right ?_
    rintro ⟨_, ⟨⟩, heq⟩
    exact heq
  obtain ⟨row, hrow⟩ := exists_overwrites_iff.mpr ⟨hrules, h.description, h.version⟩
  exact ⟨row, hrow, overwrite_apply hrow store⟩

/-- A request that is taken where no row was looked for creates a row, or is refused
because its name has one. -/
theorem insert?_of_isTaken (h : request.IsTaken none) :
    (∃ row, Creates now request store row ∧
        store.insert? now request = .ok (some (row, ⟨store.rows ++ [row]⟩))) ∨
      ∃ old, store.find? request.name = some old ∧ store.insert? now request = .ok none := by
  have hstored : ∃ v, request.rules.stored = .ok v := by simpa using h.rules
  obtain ⟨inserted, hinserted⟩ : ∃ inserted, store.insert? now request = .ok inserted :=
    exists_insert?_iff.mpr ⟨hstored, h.description, h.version⟩
  rw [hinserted]
  cases inserted with
  | none =>
    obtain ⟨old, hold⟩ := find?_of_insert?_eq_none hinserted h.named
    exact .inr ⟨old, hold, rfl⟩
  | some pair =>
    obtain ⟨row, store'⟩ := pair
    obtain ⟨hrow, rfl⟩ := creates_of_insert? hinserted
    exact .inl ⟨row, hrow, rfl⟩

/-- A request that is taken has its row written, stamped with the time, and its rules
counted after that. The rules of the row can be counted exactly if those that were
saved can. -/
theorem result_saveOver_of_isTaken {found : Option Row}
    (hfound : found = store.find? request.name ∨ found = none) (h : request.IsTaken found) :
    ∃ row store', (saveOver now request found).result store =
        (request.rules.count.map fun _ => row, store') ∧
      store'.find? request.name = some row ∧ row.updatedAt = now ∧
        (row.rules.IsCountable ↔ request.rules.IsCountable) := by
  obtain ⟨name, hname⟩ := Option.ne_none_iff_exists'.mp h.named
  -- An overwrite comes up twice: at once, and after an insertion that was refused.
  have hoverwritten : ∀ old, store.find? request.name = some old → request.IsTaken (some old) →
      ∃ row store', (overwrite now request (some old)).result store =
          (request.rules.count.map fun _ => row, store') ∧
        store'.find? request.name = some row ∧ row.updatedAt = now ∧
          (row.rules.IsCountable ↔ request.rules.IsCountable) := by
    intro old hold htaken
    obtain ⟨row, hrow, -⟩ := @overwrite_of_isTaken now _ _ htaken store
    rw [hname] at hold ⊢
    exact ⟨row, _, result_overwrite hrow store, find?_replace hold hrow.name, hrow.updatedAt,
      isCountable_of_overwrites hrow⟩
  cases found with
  | some old =>
    have hold : store.find? request.name = some old := by simpa [eq_comm] using hfound
    exact hoverwritten old hold h
  | none =>
    rw [result_saveOver_none]
    rcases @insert?_of_isTaken now _ store h with ⟨row, hrow, hinsert⟩ | ⟨old, hold, hinsert⟩
    · rw [hinsert]
      refine ⟨row, _, rfl, ?_, hrow.updatedAt, Value.isCountable_of_stored hrow.rules⟩
      rw [hrow.name]
      exact find?_append hrow.free
    · rw [hinsert]
      simpa only [hold] using hoverwritten old hold (h.of_none (some old))

/-- Rules that were saved could be counted. -/
theorem Saved.isCountable {store' : Store} {row : Row}
    (h : Saved now request store (.ok row, store')) : request.rules.IsCountable := h.of_ok.1

/-- A request that is not taken leaves the rows alone, and nothing is told of it. -/
theorem saveOver_of_not_isTaken {found : Option Row}
    (hfound : found = store.find? request.name ∨ found = none) (h : ¬ request.IsTaken found) :
    ∃ f, saveOver now request found store = (.fail f, store) := by
  have hoverwritten : ∀ old, store.find? request.name = some old →
      (∀ row, ¬ Row.Overwrites now request old row) →
      ∃ f, overwrite now request (some old) store = (.fail f, store) := by
    intro old hold hnone
    cases hrow : old.overwritten now request with
    | error f =>
      simp only [overwrite]
      rw [hrow]
      exact ⟨f, rfl⟩
    | ok row => exact absurd (Row.overwritten_eq_ok_iff.mp hrow) (hnone row)
  have hnamed : ∀ {old}, store.find? request.name = some old → request.name ≠ none := by
    intro old hold hnone
    rw [hnone] at hold
    cases hold
  cases found with
  | some old =>
    have hold : store.find? request.name = some old := by simpa [eq_comm] using hfound
    refine hoverwritten old hold fun row hrow => h ?_
    obtain ⟨hrules, hdescription, hversion⟩ := exists_overwrites_iff.mp ⟨row, hrow⟩
    exact ⟨hnamed hold, hrules.imp_right fun heq => ⟨old, rfl, heq⟩, hdescription, hversion⟩
  | none =>
    rw [saveOver_none_apply]
    cases hinserted : store.insert? now request with
    | error f => exact ⟨f, rfl⟩
    | ok inserted =>
      obtain ⟨hstored, hdescription, hversion⟩ := exists_insert?_iff.mp ⟨inserted, hinserted⟩
      have htaken : request.name ≠ none → request.IsTaken none := fun hname =>
        ⟨hname, .inl hstored, hdescription, hversion⟩
      cases inserted with
      | some pair =>
        obtain ⟨hrow, -⟩ := insert?_eq_ok hinserted
        exact absurd (htaken (by simp [hrow.name])) h
      | none =>
        cases hfind : store.find? request.name with
        | none => exact ⟨_, rfl⟩
        | some old => exact absurd (htaken (hnamed hfind)) h

/-- A request that is not taken leaves the rows alone. -/
theorem result_saveOver_of_not_isTaken {found : Option Row}
    (hfound : found = store.find? request.name ∨ found = none) (h : ¬ request.IsTaken found) :
    ∃ f, (saveOver now request found).result store = (.error f, store) := by
  obtain ⟨f, hrefused⟩ := @saveOver_of_not_isTaken now _ _ _ hfound h
  exact ⟨f, by rw [Action.result, hrefused]; rfl⟩

end Store

end Loyalty
