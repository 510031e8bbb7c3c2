import Loyalty.Proofs.Service.Recovery
import Loyalty.Proofs.Service.Writes

/-!
# Fillings from rule files

A filling gives the row of a rule set that is stored and touches nothing. Where the rule
set is not stored, a filling or a start adds its row behind the others, or it fails and
adds none. So however fillings and starts follow on each other, and whatever is in their
files, a row that is there once stays as it is.
-/

namespace Loyalty

namespace Store

/-- What a filling makes of a store: the same store, or one with a row more, whose name
had none. -/
inductive Adds (name : RuleSetName) (store : Store) : Store → Prop
  | nothing : Adds name store store
  | row {row : Row} (hname : name = some row.name) (hfree : store.find? name = none) :
    Adds name store ⟨store.rows ++ [row]⟩

variable {store store' : Store} {name : RuleSetName}

/-- A filling from a file adds a row or nothing. -/
theorem adds_seed (now : Instant) (name : RuleSetName) (file : RuleFile) (store : Store) :
    Adds name store ((seed now name file).result store).2 := by
  cases hfind : store.find? name with
  | some row =>
    rw [seed_of_find? hfind]
    exact .nothing
  | none =>
    rw [seed_of_find?_eq_none hfind]
    cases hasked : file.asked name with
    | error f => exact .nothing
    | ok request =>
      have hname := RuleFile.name_of_asked hasked
      have hsaved := save_cases now request store
      simp only
      generalize (save now request).result store = saved at hsaved
      cases hsaved with
      | refused f => exact .nothing
      | created hinsert =>
        obtain ⟨hrow, rfl⟩ := insert?_eq_ok hinsert
        exact .row (hname.symm.trans hrow.name) hfind
      | replaced hold hrow =>
        rw [hname, hfind] at hold
        cases hold

/-- What is added comes behind the rows that are there. -/
theorem Adds.keeps_rows (h : Adds name store store') : store.rows <+: store'.rows := by
  cases h with
  | nothing => exact List.prefix_refl _
  | row hname hfree => exact List.prefix_append _ _

/-- A row is still found when rows have come behind it. -/
theorem find?_of_keeps_rows (hrows : store.rows <+: store'.rows) {row : Row}
    (h : store.find? name = some row) : store'.find? name = some row := by
  obtain ⟨added, hadded⟩ := hrows
  cases name with
  | none => cases h
  | some name =>
    simp only [find?] at h ⊢
    rw [← hadded, List.find?_append, h, Option.some_or]

/-- The row that a save has given is found under its name. -/
theorem Saved.find?_eq {now : Instant} {request : SaveRequest} {row : Row}
    (h : Saved now request store (.ok row, store')) : store'.find? request.name = some row := by
  cases hname : request.name with
  | some name => exact (h.find? hname).1
  | none =>
    obtain ⟨-, ⟨hcreated, -⟩ | ⟨old, hold, -⟩⟩ := h.of_ok
    · cases hname.symm.trans hcreated.name
    · rw [hname] at hold
      cases hold

/-- The row that a filling has given is found under its name. -/
theorem find?_of_seed {now : Instant} {file : RuleFile} {row : Row}
    (h : (seed now name file).result store = (.ok row, store')) :
    store'.find? name = some row := by
  cases hfind : store.find? name with
  | some found =>
    rw [seed_of_find? hfind] at h
    cases h
    exact hfind
  | none =>
    rw [seed_of_find?_eq_none hfind] at h
    cases hasked : file.asked name with
    | error f =>
      rw [hasked] at h
      cases h
    | ok request =>
      rw [hasked] at h
      simp only at h
      have hsaved := save_cases now request store
      rw [h] at hsaved
      rw [← RuleFile.name_of_asked hasked]
      exact hsaved.find?_eq

end Store

/-- A write that fills rule sets which are not stored, and saves nothing else. -/
def Write.IsFilling : Write → Prop
  | .seed .. | .startup .. => True
  | .save _ | .saveAfterLostRace _ | .update .. => False

namespace Service

/-- A filling or a start adds a row or nothing. -/
theorem adds_write {write : Write} (h : write.IsFilling) (now : Instant) (s : Service) :
    Store.Adds write.name s.store (write.after now s).store := by
  cases write with
  | seed name file => exact Store.adds_seed now name file s.store
  | startup file reloadSeconds =>
    simp only [Write.after, Write.name]
    rw [store_startup]
    unfold filled
    split
    · exact .nothing
    · exact Store.adds_seed now _ file s.store
  | save request => cases h
  | saveAfterLostRace request => cases h
  | update payload nan => cases h

/-- After a run of fillings and starts all rows are in their places as they were. -/
theorem keeps_rows_written (s : Service) {fillings : List (Instant × Write)}
    (h : ∀ filling ∈ fillings, filling.2.IsFilling) :
    s.store.rows <+: (s.written fillings).store.rows := by
  induction fillings generalizing s with
  | nil => exact List.prefix_refl _
  | cons filling fillings ih =>
    obtain ⟨hfirst, hrest⟩ := List.forall_mem_cons.mp h
    have hadds := adds_write hfirst filling.1 s
    exact hadds.keeps_rows.trans (ih (filling.2.after filling.1 s) hrest)

/-- Fillings never overwrite. One for a rule set that is stored gives its row, whatever
its file is, changes nothing and tells nothing. No run of fillings and starts changes a
row that was there before it. And a row that a filling has given is the one that every
later filling of its rule set gives, whatever runs of fillings and starts come between. -/
theorem seed_leaves_stored (s : Service) :
    (∀ now name file row, s.store.find? name = some row →
      Store.seed now name file s.store = (.of row, s.store)) ∧
    (∀ fillings : List (Instant × Write), (∀ filling ∈ fillings, filling.2.IsFilling) →
      s.store.rows <+: (s.written fillings).store.rows) ∧
    ∀ now name file row store, (Store.seed now name file).result s.store = (.ok row, store) →
      ∀ fillings : List (Instant × Write), (∀ filling ∈ fillings, filling.2.IsFilling) →
        ∀ later other, ({ s with store := store }.written fillings).store.find? name = some row ∧
          Store.seed later name other ({ s with store := store }.written fillings).store =
            (.of row, ({ s with store := store }.written fillings).store) := by
  refine ⟨fun now name file row h => Store.seed_apply_of_find? h,
    fun fillings h => keeps_rows_written s h, ?_⟩
  intro now name file row store hseeded fillings hfillings later other
  have hkept := Store.find?_of_keeps_rows
    (keeps_rows_written { s with store := store } hfillings) (Store.find?_of_seed hseeded)
  exact ⟨hkept, Store.seed_apply_of_find? hkept⟩

/-- A start with a file that the store refuses, and a filling without a name. -/
def laterFillings : List (Instant × Write) :=
  [(⟨1, by decide⟩, .startup listedDescription (.int 0)), (⟨2, by decide⟩, .seed none nullRules)]

/-- A row that was filled from one file stays, also when another file asks for what would
have torn it. -/
theorem seed_leaves_stored_emptyRules :
    ∃ row store, (Store.seed ⟨0, by decide⟩ (some ruleSet) emptyRules).result .empty =
        (.ok row, store) ∧
      (∀ filling ∈ laterFillings, filling.2.IsFilling) ∧
      store.rows <+:
        ({ fresh ⟨0, by decide⟩ with store := store }.written laterFillings).store.rows ∧
      Store.seed ⟨3, by decide⟩ (some ruleSet) nullRules
          ({ fresh ⟨0, by decide⟩ with store := store }.written laterFillings).store =
        (.of row, ({ fresh ⟨0, by decide⟩ with store := store }.written laterFillings).store) := by
  have hseeded : ∃ row store, (Store.seed ⟨0, by decide⟩ (some ruleSet) emptyRules).result .empty =
      (.ok row, store) := by
    rw [Store.seed_of_find?_eq_none rfl, asked_emptyRules]
    exact ⟨_, _, rfl⟩
  obtain ⟨row, store, hseeded⟩ := hseeded
  have hfillings : ∀ filling ∈ laterFillings, filling.2.IsFilling := by
    simp [laterFillings, Write.IsFilling]
  obtain ⟨-, -, hlast⟩ := seed_leaves_stored (fresh ⟨0, by decide⟩)
  obtain ⟨-, hrows, -⟩ := seed_leaves_stored { fresh ⟨0, by decide⟩ with store := store }
  obtain ⟨hfirst, -, -⟩ :=
    seed_leaves_stored ({ fresh ⟨0, by decide⟩ with store := store }.written laterFillings)
  have hfound := (hlast _ _ _ _ _ hseeded _ hfillings ⟨3, by decide⟩ nullRules).1
  exact ⟨row, store, hseeded, hfillings, hrows _ hfillings, hfirst _ _ _ _ hfound⟩

end Service

end Loyalty
