import Loyalty.Proofs.Store.Seeding
import Mathlib.Data.List.Nodup

/-!
# Rows that last

In a store that was only ever written by saves no name stands twice, and the rows are
numbered as they stand. A write under a name keeps this; it keeps all rows in their
places, with their identities and names, and changes none that has another name.
-/

namespace Loyalty.Store

/-- The identities and names of the rows, in their order. -/
def keys (store : Store) : List (Nat × String) :=
  store.rows.map fun row => (row.identity, row.name)

/-- No name stands twice, and the rows are numbered as they stand. -/
structure Sound (store : Store) : Prop where
  names : (store.rows.map Row.name).Nodup
  identities : store.rows.map Row.identity = List.range store.rows.length

/-- A store without rows is sound. -/
theorem sound_empty : Sound .empty := ⟨.nil, rfl⟩

/-- What comes of a store by a write under a name. -/
structure Follows (name : RuleSetName) (store store' : Store) : Prop where
  sound : store'.Sound
  kept : store.keys <+: store'.keys
  others : ∀ other, some other ≠ name → store'.find? (some other) = store.find? (some other)
  unnamed : name = none → store' = store

variable {store : Store}

/-- A write may leave a store as it is. -/
theorem Sound.follows (h : store.Sound) (name : RuleSetName) : Follows name store store :=
  ⟨h, List.prefix_refl _, fun _ _ => rfl, fun _ => rfl⟩

/-- A row that is added behind the others under a free name. -/
theorem Sound.follows_append (h : store.Sound) {row : Row}
    (hidentity : row.identity = store.rows.length)
    (hfree : store.find? (some row.name) = none) :
    Follows (some row.name) store ⟨store.rows ++ [row]⟩ := by
  have hnew : row.name ∉ store.rows.map Row.name := by
    intro hmem
    obtain ⟨other, hother, hname⟩ := List.mem_map.mp hmem
    have hne := List.find?_eq_none.mp hfree other hother
    exact hne (beq_iff_eq.mpr hname)
  refine ⟨⟨?_, ?_⟩, ?_, ?_, fun hnone => by cases hnone⟩
  · rw [List.map_append, List.map_singleton, List.nodup_append]
    exact ⟨h.names, List.nodup_singleton _, by simpa using hnew⟩
  · rw [List.map_append, h.identities, List.map_singleton, hidentity, List.length_append,
      List.length_singleton, List.range_succ]
  · rw [keys, keys, List.map_append]
    exact List.prefix_append _ _
  · intro other hother
    have hne : row.name ≠ other := fun heq => hother (congrArg some heq.symm)
    have hbeq : (row.name == other) = false := beq_eq_false_iff_ne.mpr hne
    simp [find?, List.find?_append, hbeq]

/-- In a sound store the row that is found is the only one of its name. -/
theorem Sound.eq_of_find? (h : store.Sound) {name : String} {row other : Row}
    (hfind : store.find? (some name) = some row) (hother : other ∈ store.rows)
    (hname : other.name = name) : other = row :=
  List.inj_on_of_nodup_map h.names hother (mem_of_find? hfind)
    (hname.trans (name_of_find? hfind).symm)

/-- The other names keep their rows when a row is replaced. -/
theorem find?_replace_of_ne {row : Row} {name : String} (h : row.name ≠ name) :
    (store.replace row).find? (some name) = store.find? (some name) := by
  have hrow : (row.name == name) = false := beq_eq_false_iff_ne.mpr h
  simp only [find?, replace]
  induction store.rows with
  | nil => rfl
  | cons first rows ih =>
    by_cases hfirst : first.name = row.name
    · simpa [hfirst, hrow] using ih
    · rw [List.map_cons, if_neg (by simpa using hfirst), List.find?_cons, List.find?_cons, ih]

/-- A row that is put in the place of the row that was found. -/
theorem Sound.follows_replace (h : store.Sound) {name : String} {old row : Row}
    (hfind : store.find? (some name) = some old) (hidentity : row.identity = old.identity)
    (hname : row.name = old.name) : Follows (some name) store (store.replace row) := by
  have hold := name_of_find? hfind
  -- Rows are replaced by name, so that identities stay takes that names stand once.
  have hsame : ∀ other ∈ store.rows, other.name = row.name → other = old := by
    intro other hother heq
    exact h.eq_of_find? hfind hother (heq.trans (hname.trans hold))
  have hidentities : (store.replace row).rows.map Row.identity = store.rows.map Row.identity := by
    rw [replace, List.map_map]
    refine List.map_congr_left fun other hother => ?_
    simp only [Function.comp_apply]
    split
    · rename_i heq
      rw [hsame other hother (beq_iff_eq.mp heq), hidentity]
    · rfl
  have hnames : (store.replace row).rows.map Row.name = store.rows.map Row.name := by
    rw [replace, List.map_map]
    refine List.map_congr_left fun other _ => ?_
    simp only [Function.comp_apply]
    split
    · rename_i heq
      exact (beq_iff_eq.mp heq).symm
    · rfl
  have hzip : ∀ s : Store, s.keys = (s.rows.map Row.identity).zip (s.rows.map Row.name) := by
    intro s
    rw [keys, List.zip_map']
  have hkeys : (store.replace row).keys = store.keys := by
    rw [hzip, hzip, hidentities, hnames]
  refine ⟨⟨?_, ?_⟩, ⟨[], by rw [List.append_nil, hkeys]⟩, ?_, fun hnone => by cases hnone⟩
  · rw [hnames]
    exact h.names
  · rw [hidentities, h.identities, replace, List.length_map]
  · intro other hother
    refine find?_replace_of_ne fun heq => hother ?_
    rw [← heq, hname, hold]

/-- A save leaves a store that follows the one before under its name. -/
theorem Saved.follows {now : Instant} {request : SaveRequest} {saved : Except Fault Row × Store}
    (h : Saved now request store saved) (hsound : store.Sound) :
    Follows request.name store saved.2 := by
  cases h with
  | refused f => exact hsound.follows request.name
  | created hinsert =>
    obtain ⟨hrow, rfl⟩ := insert?_eq_ok hinsert
    rw [hrow.name]
    exact hsound.follows_append hrow.identity hrow.free
  | replaced hfind hrow =>
    cases hname : request.name with
    | none =>
      rw [hname] at hfind
      cases hfind
    | some name =>
      rw [hname] at hfind
      exact hsound.follows_replace hfind hrow.identity hrow.name

/-- A filling from a file leaves a store that follows the one before under its name. -/
theorem follows_seed (hsound : store.Sound) (now : Instant) (name : RuleSetName)
    (file : RuleFile) : Follows name store ((seed now name file).result store).2 := by
  cases hfind : store.find? name with
  | some row =>
    rw [seed_of_find? hfind]
    exact hsound.follows name
  | none =>
    rw [seed_of_find?_eq_none hfind]
    split
    · exact hsound.follows name
    · rename_i request hasked
      rw [← RuleFile.name_of_asked hasked]
      exact (save_cases now request store).follows hsound

end Loyalty.Store
