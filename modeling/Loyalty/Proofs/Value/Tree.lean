import Loyalty.Value.Basic

/-!
# Values as trees

Induction over values, arrays and objects included, and two properties of whole
trees: that no object has a key twice, which is what an object is, and that no
leaf is not-a-number.
-/

namespace Loyalty

namespace Value

/-- Induction over values: the items of an array and the fields of an object come
before the value that they are in. -/
@[elab_as_elim] theorem treeInduction {motive : Value → Prop} (null : motive .null)
    (bool : ∀ b, motive (.bool b)) (number : ∀ n, motive (.number n))
    (text : ∀ s, motive (.text s))
    (array : ∀ kind items, (∀ v ∈ items, motive v) → motive (.array kind items))
    (object : ∀ fields : Fields, (∀ p ∈ fields, motive p.2) → motive (.object fields))
    (date : ∀ d, motive (.date d)) (moment : ∀ m, motive (.moment m))
    (missing : motive .missing) : ∀ v, motive v
  | .null => null
  | .bool b => bool b
  | .number n => number n
  | .text s => text s
  | .array kind items => array kind items fun v _ =>
      treeInduction null bool number text array object date moment missing v
  | .object fields => object fields fun p _ =>
      treeInduction null bool number text array object date moment missing p.2
  | .date d => date d
  | .moment m => moment m
  | .missing => missing
termination_by v => sizeOf v
decreasing_by
  · rename_i hmem
    have := List.sizeOf_lt_of_mem hmem
    simp only [Value.array.sizeOf_spec]
    omega
  · rename_i hmem
    have := List.sizeOf_lt_of_mem hmem
    obtain ⟨key, v⟩ := p
    simp only [Value.object.sizeOf_spec, Prod.mk.sizeOf_spec] at this ⊢
    omega

mutual

/-- Whether not-a-number is somewhere in a value. -/
def hasNaN : Value → Bool
  | .number n => n.isNaN
  | .array _ items => hasNaNItem items
  | .object fields => hasNaNField fields
  | _ => false

/-- Whether not-a-number is somewhere in some values. -/
def hasNaNItem : List Value → Bool
  | [] => false
  | v :: vs => hasNaN v || hasNaNItem vs

/-- Whether not-a-number is somewhere in some fields. -/
def hasNaNField : List (String × Value) → Bool
  | [] => false
  | (_, v) :: rest => hasNaN v || hasNaNField rest

end

/-- Items are looked at one by one. -/
theorem hasNaNItem_eq_any (vs : List Value) : hasNaNItem vs = vs.any hasNaN := by
  induction vs with
  | nil => rfl
  | cons v vs ih => simp [hasNaNItem, ih]

/-- Fields are looked at one by one. -/
theorem hasNaNField_eq_any (fields : Fields) :
    hasNaNField fields = fields.any fun p => hasNaN p.2 := by
  induction fields with
  | nil => rfl
  | cons p fields ih => simp [hasNaNField, ih]

/-- An array without not-a-number has none in its items. -/
theorem hasNaN_array {kind : ArrayKind} {items : List Value} :
    (Value.array kind items).hasNaN = false ↔ ∀ v ∈ items, v.hasNaN = false := by
  simp [hasNaN, hasNaNItem_eq_any]

/-- An object without not-a-number has none in its fields. -/
theorem hasNaN_object {fields : Fields} :
    (Value.object fields).hasNaN = false ↔ ∀ p ∈ fields, p.2.hasNaN = false := by
  simp [hasNaN, hasNaNField_eq_any]

mutual

/-- No object in a value has a key twice. -/
def WellFormed : Value → Prop
  | .array _ items => WellFormedItems items
  | .object fields => (fields.map Prod.fst).Nodup ∧ WellFormedFields fields
  | _ => True

/-- No object in some values has a key twice. -/
def WellFormedItems : List Value → Prop
  | [] => True
  | v :: vs => WellFormed v ∧ WellFormedItems vs

/-- No object in the values of some fields has a key twice. -/
def WellFormedFields : List (String × Value) → Prop
  | [] => True
  | (_, v) :: rest => WellFormed v ∧ WellFormedFields rest

end

/-- Items are well-formed one by one. -/
theorem wellFormedItems_iff {vs : List Value} : WellFormedItems vs ↔ ∀ v ∈ vs, v.WellFormed := by
  induction vs with
  | nil => simp [WellFormedItems]
  | cons v vs ih => simp [WellFormedItems, ih]

/-- Fields are well-formed one by one. -/
theorem wellFormedFields_iff {fields : Fields} :
    WellFormedFields fields ↔ ∀ p ∈ fields, p.2.WellFormed := by
  induction fields with
  | nil => simp [WellFormedFields]
  | cons p fields ih => simp [WellFormedFields, ih]

/-- An array is as well-formed as its items. -/
theorem wellFormed_array {kind : ArrayKind} {items : List Value} :
    (Value.array kind items).WellFormed ↔ ∀ v ∈ items, v.WellFormed := by
  rw [WellFormed, wellFormedItems_iff]

/-- An object is well-formed if its keys differ and its fields are well-formed. -/
theorem wellFormed_object {fields : Fields} :
    (Value.object fields).WellFormed ↔
      (fields.map Prod.fst).Nodup ∧ ∀ p ∈ fields, p.2.WellFormed := by
  rw [WellFormed, wellFormedFields_iff]

end Value

namespace Fields

/-- A value that was looked up stands under its key. -/
theorem mem_of_lookup {fields : Fields} {key : String} {v : Value}
    (h : fields.lookup key = some v) : (key, v) ∈ fields := by
  induction fields with
  | nil => simp at h
  | cons field rest ih =>
    obtain ⟨k, w⟩ := field
    by_cases hk : key = k
    · subst hk
      simp only [List.lookup_cons_self, Option.some.injEq] at h
      simp [h]
    · have hkey : (key == k) = false := by simpa using hk
      rw [List.lookup_cons, hkey] at h
      exact List.mem_cons_of_mem _ (ih h)

/-- Where no key stands twice, every value is found under its key. -/
theorem lookup_of_mem {fields : Fields} (hkeys : (fields.map Prod.fst).Nodup)
    {p : String × Value} (h : p ∈ fields) : fields.lookup p.1 = some p.2 := by
  induction fields with
  | nil => cases h
  | cons field rest ih =>
    obtain ⟨k, w⟩ := field
    rw [List.map_cons, List.nodup_cons] at hkeys
    rcases List.mem_cons.mp h with rfl | hrest
    · exact List.lookup_cons_self
    · have hne : p.1 ≠ k := fun h => hkeys.1 (List.mem_map.mpr ⟨p, hrest, h⟩)
      rw [List.lookup_cons, beq_eq_false_iff_ne.mpr hne]
      exact ih hkeys.2 hrest

/-- A key has a value if it is one of the keys. -/
theorem isSome_lookup_iff {fields : Fields} {key : String} :
    (fields.lookup key).isSome = true ↔ key ∈ fields.map Prod.fst := by
  simp

/-- A field has a property if null has it and all fields have it. -/
theorem get_of_forall {P : Value → Prop} {fields : Fields} (hnull : P .null)
    (h : ∀ p ∈ fields, P p.2) (key : String) : P (fields.get key) := by
  unfold get
  cases hlookup : fields.lookup key with
  | none => exact hnull
  | some v => exact h _ (mem_of_lookup hlookup)

/-- A key that is absent is put at the end. -/
theorem put_of_not_mem {key : String} {fields : Fields} (h : key ∉ fields.map Prod.fst)
    (value : Value) : put key value fields = fields ++ [(key, value)] := by
  induction fields with
  | nil => rfl
  | cons field rest ih =>
    obtain ⟨k, v⟩ := field
    simp only [List.map_cons, List.mem_cons, not_or] at h
    rw [put, if_neg (Ne.symm h.1), ih h.2, List.cons_append]

/-- The keys after a key was put. -/
theorem map_fst_put (key : String) (value : Value) (fields : Fields) :
    (put key value fields).map Prod.fst =
      if key ∈ fields.map Prod.fst then fields.map Prod.fst else fields.map Prod.fst ++ [key] := by
  induction fields with
  | nil => rfl
  | cons field rest ih =>
    obtain ⟨k, v⟩ := field
    by_cases hk : k = key
    · simp [put, hk]
    · simp only [put, if_neg hk, List.map_cons, ih, List.mem_cons, Ne.symm hk, false_or]
      split <;> rfl

/-- A field after a key was put is an old one or the new one. -/
theorem mem_put {key : String} {value : Value} {fields : Fields} {p : String × Value}
    (h : p ∈ put key value fields) : p = (key, value) ∨ p ∈ fields := by
  induction fields with
  | nil =>
    rw [put, List.mem_singleton] at h
    exact .inl h
  | cons field rest ih =>
    obtain ⟨k, v⟩ := field
    by_cases hk : k = key
    · rw [put, if_pos hk, List.mem_cons] at h
      rcases h with rfl | h
      · exact .inl (by rw [hk])
      · exact .inr (List.mem_cons_of_mem _ h)
    · rw [put, if_neg hk, List.mem_cons] at h
      rcases h with rfl | h
      · exact .inr List.mem_cons_self
      · rcases ih h with rfl | h
        · exact .inl rfl
        · exact .inr (List.mem_cons_of_mem _ h)

private theorem foldl_put_of_nodup {fields pairs : Fields}
    (h : ((fields ++ pairs).map Prod.fst).Nodup) :
    pairs.foldl (fun fields pair => put pair.1 pair.2 fields) fields = fields ++ pairs := by
  induction pairs generalizing fields with
  | nil => simp
  | cons pair pairs ih =>
    obtain ⟨key, value⟩ := pair
    have hkey : key ∉ fields.map Prod.fst := by
      intro hmem
      rw [List.map_append, List.nodup_append] at h
      exact h.2.2 key hmem key (by simp) rfl
    rw [List.foldl_cons, put_of_not_mem hkey, ih (by simpa using h)]
    simp

/-- Pairs whose keys differ are the fields they make. -/
theorem ofList_of_nodup {pairs : Fields} (h : (pairs.map Prod.fst).Nodup) :
    ofList pairs = pairs := foldl_put_of_nodup h

private theorem foldl_put (pairs : Fields) {fields : Fields} {P : Value → Prop}
    (hkeys : (fields.map Prod.fst).Nodup) (hfields : ∀ p ∈ fields, P p.2)
    (hpairs : ∀ p ∈ pairs, P p.2) :
    ((pairs.foldl (fun fields pair => put pair.1 pair.2 fields) fields).map Prod.fst).Nodup ∧
      ∀ p ∈ pairs.foldl (fun fields pair => put pair.1 pair.2 fields) fields, P p.2 := by
  induction pairs generalizing fields with
  | nil => exact ⟨hkeys, hfields⟩
  | cons pair pairs ih =>
    obtain ⟨key, value⟩ := pair
    refine ih ?_ ?_ fun p hp => hpairs p (List.mem_cons_of_mem _ hp)
    · rw [map_fst_put]
      split
      · exact hkeys
      · rename_i hkey
        rw [List.nodup_append]
        refine ⟨hkeys, by simp, ?_⟩
        intro a ha b hb
        rw [List.mem_singleton.mp hb]
        rintro rfl
        exact hkey ha
    · intro p hp
      rcases mem_put hp with rfl | hp
      · exact hpairs _ List.mem_cons_self
      · exact hfields p hp

/-- Fields made of any pairs have different keys. -/
theorem nodup_ofList (pairs : Fields) : ((ofList pairs).map Prod.fst).Nodup :=
  (@foldl_put pairs [] (fun _ => True) (by simp) (by simp) (by simp)).1

/-- What all pairs have, the fields made of them have. -/
theorem forall_ofList {pairs : Fields} {P : Value → Prop} (h : ∀ p ∈ pairs, P p.2) :
    ∀ p ∈ ofList pairs, P p.2 :=
  (foldl_put pairs (by simp) (by simp) h).2

end Fields

end Loyalty
