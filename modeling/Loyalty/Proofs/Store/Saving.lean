import Loyalty.Proofs.Action
import Loyalty.Proofs.Store.Storable
import Loyalty.RuleFile

/-!
# What saving does to a store

A save is refused and leaves the store alone, or it adds the row of its name, or
it overwrites that row. The rules of the row are then the stored form of what was
saved, except that an overwrite with loosely equal rules keeps those that were
there.
-/

namespace Loyalty

namespace Row

/-- A row that an overwrite makes of another one. -/
structure Overwrites (now : Instant) (request : SaveRequest) (old row : Row) : Prop where
  identity : row.identity = old.identity
  name : row.name = old.name
  updatedAt : row.updatedAt = now
  rules : if request.rules.looseEq request.nan .shared old.rules then row.rules = old.rules
    else request.rules.stored = .ok row.storedRules
  description : request.description.columnText = .ok row.description
  version : request.version.columnText = .ok row.version

/-- The row after an overwrite. -/
theorem overwritten_eq_ok_iff {now : Instant} {request : SaveRequest} {old row : Row} :
    old.overwritten now request = .ok row ↔ Overwrites now request old row := by
  constructor
  · intro h
    unfold overwritten at h
    simp only at h
    split at h
    · rename_i heq
      obtain ⟨rules, hrules, h⟩ := bind_eq_ok.mp h
      obtain ⟨description, hdescription, h⟩ := bind_eq_ok.mp h
      obtain ⟨version, hversion, h⟩ := bind_eq_ok.mp h
      cases hrules
      cases h
      exact ⟨rfl, rfl, rfl, by rw [if_pos heq]; rfl, hdescription, hversion⟩
    · rename_i hne
      obtain ⟨rules, hrules, h⟩ := bind_eq_ok.mp h
      obtain ⟨description, hdescription, h⟩ := bind_eq_ok.mp h
      obtain ⟨version, hversion, h⟩ := bind_eq_ok.mp h
      cases h
      exact ⟨rfl, rfl, rfl, by rw [if_neg hne]; exact hrules, hdescription, hversion⟩
  · obtain ⟨identity, name, description, version, rules, updatedAt, fewDigits⟩ := row
    rintro ⟨rfl, rfl, rfl, hrules, hdescription, hversion⟩
    unfold overwritten
    simp only at hrules hdescription hversion ⊢
    rw [hdescription, hversion]
    split at hrules
    · rename_i heq
      subst hrules
      rw [if_pos heq]
      rfl
    · rename_i hne
      rw [if_neg hne, hrules]
      rfl

end Row

namespace SaveRequest

/-- The version of a row that is created: null becomes the usual one. -/
def createdVersion (request : SaveRequest) : Except Fault (Option String) :=
  match request.version with
  | .null => .ok (some defaultVersion)
  | version => version.columnText

/-- Any version but null is created as it is. -/
theorem createdVersion_of_ne_null {request : SaveRequest} (h : request.version ≠ .null) :
    request.createdVersion = request.version.columnText := by
  rw [createdVersion]
  split
  · rename_i hnull
    exact absurd hnull h
  · rfl

/-- What a save says and comes to once its row is written: it counts the rules, and
tells how many there are. -/
def told (request : SaveRequest) (notice : RuleSetName → Nat → Notice) (row : Row) :
    Report Row := do
  let count ← Report.ofExcept request.rules.count
  Report.note (notice request.name count)
  return row

/-- A save comes to its row if the rules can be counted. -/
theorem outcome_told (request : SaveRequest) (notice : RuleSetName → Nat → Notice) (row : Row) :
    (request.told notice row).outcome = request.rules.count.map fun _ => row := by
  rw [told]
  cases request.rules.count with
  | error f => rfl
  | ok count => rfl

end SaveRequest

namespace Store

/-- A row that is found has the name that was looked for. -/
theorem name_of_find? {store : Store} {name : String} {row : Row}
    (h : store.find? (some name) = some row) : row.name = name := by
  have := List.find?_some h
  exact beq_iff_eq.mp this

/-- A row that is found is in the store. -/
theorem mem_of_find? {store : Store} {name : RuleSetName} {row : Row}
    (h : store.find? name = some row) : row ∈ store.rows := by
  cases name with
  | none => cases h
  | some name => exact List.mem_of_find?_eq_some h

/-- A row that was added under a free name is found. -/
theorem find?_append {store : Store} {row : Row} (h : store.find? (some row.name) = none) :
    find? ⟨store.rows ++ [row]⟩ (some row.name) = some row := by
  have hnone : store.rows.find? (fun other => other.name == row.name) = none := h
  simp only [find?, List.find?_append, hnone]
  simp

/-- A row that was put in the place of another is found. -/
theorem find?_replace {store : Store} {old row : Row} {name : String}
    (h : store.find? (some name) = some old) (hname : row.name = old.name) :
    (store.replace row).find? (some name) = some row := by
  have hold := name_of_find? h
  have hfind : store.rows.find? (fun other => other.name == name) = some old := h
  clear h
  simp only [find?, replace]
  generalize store.rows = rows at hfind
  induction rows with
  | nil => cases hfind
  | cons first rows ih =>
    by_cases hfirst : first.name = name
    · simp [hfirst, hname, hold]
    · have hbeq : (first.name == name) = false := by simpa using hfirst
      rw [List.find?_cons, hbeq] at hfind
      have hrow : (first.name == row.name) = false := by
        rw [hname, hold]
        exact hbeq
      rw [List.map_cons, List.find?_cons, hrow]
      simpa [hbeq] using ih hfind

/-- A row that is added for a request. Any version that a column takes will do: null
becomes another one. -/
structure Inserts (now : Instant) (request : SaveRequest) (store : Store) (row : Row) : Prop where
  identity : row.identity = store.rows.length
  name : request.name = some row.name
  free : store.find? (some row.name) = none
  updatedAt : row.updatedAt = now
  rules : request.rules.stored = .ok row.storedRules
  description : request.description.columnText = .ok row.description
  version : ∃ version, request.version.columnText = .ok version

/-- A row that is created for a request, its version included. -/
structure Creates (now : Instant) (request : SaveRequest) (store : Store) (row : Row) : Prop
    extends Inserts now request store row where
  created : request.createdVersion = .ok row.version

/-- The row that was created for a request, behind the others. -/
theorem creates_of_insert? {now : Instant} {request : SaveRequest} {store store' : Store}
    {row : Row} (h : store.insert? now request = .ok (some (row, store'))) :
    Creates now request store row ∧ store' = ⟨store.rows ++ [row]⟩ := by
  obtain ⟨rules, hrules, h⟩ := bind_eq_ok.mp h
  obtain ⟨description, hdescription, h⟩ := bind_eq_ok.mp h
  obtain ⟨version, ⟨hcreated, hfits⟩, h⟩ : ∃ version,
      (request.createdVersion = .ok version ∧
        ∃ version, request.version.columnText = .ok version) ∧ _ = Except.ok _ := by
    simp only at h
    split at h
    · rename_i hnull
      obtain ⟨version, hversion, h⟩ := bind_eq_ok.mp h
      rw [SaveRequest.createdVersion, hnull]
      exact ⟨version, ⟨hversion, none, rfl⟩, h⟩
    · rename_i hne
      obtain ⟨version, hversion, h⟩ := bind_eq_ok.mp h
      rw [SaveRequest.createdVersion_of_ne_null hne]
      exact ⟨version, ⟨hversion, version, hversion⟩, h⟩
  split at h
  · cases h
  · rename_i name hname
    split at h
    · cases h
    · rename_i hfree
      cases h
      refine ⟨⟨⟨rfl, hname, ?_, rfl, hrules, hdescription, hfits⟩, hcreated⟩, rfl⟩
      simpa using hfree

/-- The row that was added for a request, behind the others. -/
theorem insert?_eq_ok {now : Instant} {request : SaveRequest} {store store' : Store} {row : Row}
    (h : store.insert? now request = .ok (some (row, store'))) :
    Inserts now request store row ∧ store' = ⟨store.rows ++ [row]⟩ := by
  obtain ⟨hrow, hstore⟩ := creates_of_insert? h
  exact ⟨hrow.toInserts, hstore⟩

/-- What can come of saving rules. -/
inductive Saved (now : Instant) (request : SaveRequest) (store : Store) :
    Except Fault Row × Store → Prop where
  /-- Nothing is written. -/
  | refused (f : Fault) : Saved now request store (.error f, store)
  /-- A row is added; the rules are counted after that. -/
  | created {row : Row} {store' : Store} (h : store.insert? now request = .ok (some (row, store'))) :
    Saved now request store (request.rules.count.map fun _ => row, store')
  /-- The row is overwritten; the rules are counted after that. -/
  | replaced {old row : Row} (hfind : store.find? request.name = some old)
    (h : Row.Overwrites now request old row) :
    Saved now request store (request.rules.count.map fun _ => row, store.replace row)

/-- A save of rules that can be counted is refused before it writes. -/
theorem Saved.eq_of_error {now : Instant} {request : SaveRequest} {store store' : Store}
    {f : Fault} {count : Nat} (hcount : request.rules.count = .ok count)
    (h : Saved now request store (.error f, store')) : store' = store := by
  generalize hr : ((.error f, store') : Except Fault Row × Store) = r at h
  cases h with
  | refused f => exact (Prod.mk.inj hr).2
  | created h =>
    rw [hcount] at hr
    cases (Prod.mk.inj hr).1
  | replaced hfind h =>
    rw [hcount] at hr
    cases (Prod.mk.inj hr).1

/-- A save that went through could count the rules, and it created or overwrote the row
that it gave. -/
theorem Saved.of_ok {now : Instant} {request : SaveRequest} {store store' : Store} {row : Row}
    (h : Saved now request store (.ok row, store')) :
    (∃ count, request.rules.count = .ok count) ∧
      (Creates now request store row ∧ store' = ⟨store.rows ++ [row]⟩ ∨
        ∃ old, store.find? request.name = some old ∧ Row.Overwrites now request old row ∧
          store' = store.replace row) := by
  have hcount : ∀ saved : Row, .ok row = (request.rules.count.map fun _ => saved) →
      (∃ count, request.rules.count = .ok count) ∧ saved = row := by
    intro saved hsaved
    cases hresult : request.rules.count with
    | error f =>
      rw [hresult] at hsaved
      cases hsaved
    | ok count =>
      rw [hresult] at hsaved
      cases hsaved
      exact ⟨⟨count, rfl⟩, rfl⟩
  generalize hr : ((.ok row, store') : Except Fault Row × Store) = r at h
  cases h with
  | refused f => cases (Prod.mk.inj hr).1
  | created hinsert =>
    obtain ⟨houtcome, rfl⟩ := Prod.mk.inj hr
    obtain ⟨hcounted, rfl⟩ := hcount _ houtcome
    exact ⟨hcounted, .inl (creates_of_insert? hinsert)⟩
  | replaced hfind hrow =>
    obtain ⟨houtcome, rfl⟩ := Prod.mk.inj hr
    obtain ⟨hcounted, rfl⟩ := hcount _ houtcome
    exact ⟨hcounted, .inr ⟨_, hfind, hrow, rfl⟩⟩

/-- After a save that went through, the row of the name is the one it gave. Its
rules are those that were there, if these equal the new ones loosely, and the
stored form of the new ones otherwise. -/
theorem Saved.find? {now : Instant} {request : SaveRequest} {store store' : Store} {row : Row}
    {name : String} (hname : request.name = some name)
    (h : Saved now request store (.ok row, store')) :
    store'.find? (some name) = some row ∧
      ((∃ old, store.find? (some name) = some old ∧
          request.rules.looseEq request.nan .shared old.rules = true ∧ row.rules = old.rules) ∨
        (∀ old, store.find? (some name) = some old →
            request.rules.looseEq request.nan .shared old.rules = false) ∧
          request.rules.stored = .ok row.storedRules) := by
  obtain ⟨-, ⟨hcreated, rfl⟩ | ⟨old, hfind, hrow, rfl⟩⟩ := h.of_ok
  · have hname' := hname.symm.trans hcreated.name
    rw [hname']
    refine ⟨find?_append hcreated.free, .inr ⟨?_, hcreated.rules⟩⟩
    intro old hold
    rw [hcreated.free] at hold
    cases hold
  · have hrules := hrow.rules
    rw [hname] at hfind
    refine ⟨find?_replace hfind hrow.name, ?_⟩
    split at hrules
    · rename_i heq
      exact .inl ⟨old, hfind, heq, hrules⟩
    · rename_i hne
      refine .inr ⟨?_, hrules⟩
      intro other hother
      rw [hfind] at hother
      cases hother
      simpa using hne

/-- An overwrite writes the row, and tells of the rules after that. -/
theorem overwrite_apply {now : Instant} {request : SaveRequest} {old row : Row}
    (h : Row.Overwrites now request old row) (store : Store) :
    overwrite now request (some old) store =
      (request.told .rowReplaced row, store.replace row) := by
  simp only [overwrite]
  rw [Row.overwritten_eq_ok_iff.mpr h, SaveRequest.told]
  cases request.rules.count with
  | error f => rfl
  | ok count => rfl

/-- An overwrite writes the row, and counts the rules after that. -/
theorem result_overwrite {now : Instant} {request : SaveRequest} {old row : Row}
    (h : Row.Overwrites now request old row) (store : Store) :
    (overwrite now request (some old)).result store =
      (request.rules.count.map fun _ => row, store.replace row) := by
  rw [Action.result, overwrite_apply h, SaveRequest.outcome_told]

private theorem saved_overwrite (now : Instant) (request : SaveRequest) (store : Store) :
    Saved now request store ((overwrite now request (store.find? request.name)).result store) := by
  cases hfind : store.find? request.name with
  | none => exact .refused _
  | some old =>
    cases hrow : old.overwritten now request with
    | error f =>
      simp only [overwrite]
      rw [hrow]
      exact .refused f
    | ok row =>
      have hoverwrites := Row.overwritten_eq_ok_iff.mp hrow
      rw [result_overwrite hoverwrites]
      exact .replaced hfind hoverwrites

/-- Where no row was found, a save adds one if it can, and tells of the rules after
that; if the name is missing or taken it overwrites. -/
theorem saveOver_none_apply (now : Instant) (request : SaveRequest) (store : Store) :
    saveOver now request none store =
      match store.insert? now request with
      | .error f => (.fail f, store)
      | .ok (some (row, store')) => (request.told .rowCreated row, store')
      | .ok none => overwrite now request (store.find? request.name) store := by
  have hget : (Action.get : Action Store Store) store = (⟨[], .ok store⟩, store) := rfl
  rw [saveOver, Action.bind_of_ok hget]
  cases store.insert? now request with
  | error f => rfl
  | ok inserted =>
    cases inserted with
    | none => rfl
    | some pair =>
      obtain ⟨row, store'⟩ := pair
      simp only [SaveRequest.told]
      cases request.rules.count with
      | error f => rfl
      | ok count => rfl

/-- Where no row was found, a save adds one if it can, and counts the rules after
that; if the name is missing or taken it overwrites. -/
theorem result_saveOver_none (now : Instant) (request : SaveRequest) (store : Store) :
    (saveOver now request none).result store =
      match store.insert? now request with
      | .error f => (.error f, store)
      | .ok (some (row, store')) => (request.rules.count.map fun _ => row, store')
      | .ok none => (overwrite now request (store.find? request.name)).result store := by
  rw [Action.result, saveOver_none_apply]
  split
  · rfl
  · rw [SaveRequest.outcome_told]
  · rfl

/-- A save is refused, or it adds or overwrites the row of its name, whether the
first look-up found that row or still found nothing. -/
theorem saveOver_cases {found : Option Row} (now : Instant) (request : SaveRequest)
    (store : Store) (hfound : found = store.find? request.name ∨ found = none) :
    Saved now request store ((saveOver now request found).result store) := by
  have hoverwrite := saved_overwrite now request store
  cases found with
  | some old =>
    have hfind : some old = store.find? request.name := by simpa using hfound
    rwa [← hfind] at hoverwrite
  | none =>
    rw [result_saveOver_none]
    split
    · exact .refused _
    · rename_i hinsert
      exact .created hinsert
    · exact hoverwrite

/-- A save is refused, or it adds or overwrites the row of its name. -/
theorem save_cases (now : Instant) (request : SaveRequest) (store : Store) :
    Saved now request store ((save now request).result store) := by
  rw [save, Action.result_get_bind]
  exact saveOver_cases now request store (.inl rfl)

/-- The stored document is the one of the row that is found. -/
theorem document?_of_find? {store : Store} {name : RuleSetName} {found : Option Row}
    (h : store.find? name = found) : store.document? name = found.map Row.document := by
  rw [document?, h]

/-- A row after an overwrite is the new one or an old one. -/
theorem mem_replace {store : Store} {row other : Row} (h : other ∈ (store.replace row).rows) :
    other = row ∨ other ∈ store.rows := by
  obtain ⟨old, hold, heq⟩ := List.mem_map.mp h
  split at heq
  · exact .inl heq.symm
  · rw [← heq]
    exact .inr hold

/-- What holds of the rules of all rows and of the stored form of what is saved
holds of the rules of all rows after the save. -/
theorem Saved.forall_rules {P : Value → Prop} {now : Instant} {request : SaveRequest}
    {store : Store} {saved : Except Fault Row × Store} (h : Saved now request store saved)
    (hstored : ∀ v, request.rules.stored = .ok v → P v.val) (hstore : ∀ row ∈ store.rows, P row.rules) :
    ∀ row ∈ saved.2.rows, P row.rules := by
  cases h with
  | refused f => exact hstore
  | created h =>
    obtain ⟨hinserts, rfl⟩ := insert?_eq_ok h
    intro other hother
    rcases List.mem_append.mp hother with hother | hother
    · exact hstore other hother
    · rw [List.mem_singleton.mp hother]
      exact hstored _ hinserts.rules
  | replaced hfind h =>
    have hnew := h.rules
    intro other hother
    rcases mem_replace hother with rfl | hother
    · split at hnew
      · rw [hnew]
        exact hstore _ (mem_of_find? hfind)
      · exact hstored _ hnew
    · exact hstore other hother

/-- A save of well-formed rules keeps the rules of all rows storable. -/
theorem Saved.storable {now : Instant} {request : SaveRequest} {store : Store}
    {saved : Except Fault Row × Store} (h : Saved now request store saved)
    (hrules : request.rules.WellFormed) (hstore : ∀ row ∈ store.rows, row.rules.Storable) :
    ∀ row ∈ saved.2.rows, row.rules.Storable :=
  h.forall_rules (fun _ hstored => Value.storable_of_stored hrules hstored) hstore

end Store

end Loyalty
