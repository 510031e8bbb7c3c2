import Loyalty.Condition.Test
import Loyalty.Proofs.Json.Documents
import Loyalty.Proofs.Number.Exact

/-!
# Equality in conditions and the same document

Two documents are the same if they have one shape, the same texts and truth values, and numbers
of the same exact values. Equality in conditions tells truth values and numbers apart at the top
alone: below it a truth value counts as a number. So it holds of documents that are the same
once all truth values are counted, and of exactly the same ones where none stands below the top.
-/

namespace Loyalty

namespace Value

/-- The same JSON document: numbers go by their exact values, and the order of an object's
fields does not matter. -/
inductive Same : Value → Value → Prop where
  | null : Same .null .null
  | bool (b : Bool) : Same (.bool b) (.bool b)
  | number {x y : Number} (h : x.Same y) : Same (.number x) (.number y)
  | text (s : String) : Same (.text s) (.text s)
  | array {kind : ArrayKind} {xs ys : List Value} (hlength : xs.length = ys.length)
      (hitems : ∀ p ∈ xs.zip ys, Same p.1 p.2) : Same (.array kind xs) (.array kind ys)
  | object {fs gs : Fields} (hkeys : ∀ key, (fs.lookup key).isSome = (gs.lookup key).isSome)
      (hfields : ∀ key v w, fs.lookup key = some v → gs.lookup key = some w → Same v w) :
      Same (.object fs) (.object gs)

mutual

/-- A value with every truth value in it counted as the integer 0 or 1. -/
def counted : Value → Value
  | .bool b => .int (if b then 1 else 0)
  | .array kind items => .array kind (countedItems items)
  | .object fields => .object (countedFields fields)
  | v => v

/-- Some values with every truth value in them counted. -/
def countedItems : List Value → List Value
  | [] => []
  | v :: vs => counted v :: countedItems vs

/-- Some fields with every truth value in them counted. -/
def countedFields : List (String × Value) → List (String × Value)
  | [] => []
  | (key, v) :: rest => (key, counted v) :: countedFields rest

end

/-- Items are counted one by one. -/
theorem countedItems_eq_map (vs : List Value) : countedItems vs = vs.map counted := by
  induction vs with
  | nil => rfl
  | cons v vs ih => rw [countedItems, ih, List.map_cons]

/-- Fields are counted under their keys. -/
theorem lookup_countedFields (key : String) (fields : Fields) :
    (countedFields fields).lookup key = (fields.lookup key).map counted := by
  induction fields with
  | nil => rfl
  | cons field rest ih =>
    obtain ⟨k, v⟩ := field
    rw [countedFields, List.lookup_cons, List.lookup_cons, ih]
    cases key == k <;> rfl

variable {marks : Identity}

/-- What counts as a number is the number that it counts as. -/
theorem counted_of_number? {v : Value} {x : Number} (h : v.number? = some x) :
    v.counted = .number x := by
  cases v with
  | bool b => exact congrArg _ (Option.some.inj h)
  | number n => exact congrArg _ (Option.some.inj h)
  | _ => cases h

/-- A number is the same as what counts as the same number. -/
theorem same_number_counted_iff {x : Number} {w : Value} :
    Same (.number x) w.counted ↔ ∃ y, w.number? = some y ∧ x.Same y := by
  cases hw : w.number? with
  | some y =>
    rw [counted_of_number? hw]
    constructor
    · rintro ⟨⟩
      rename_i h
      exact ⟨y, rfl, h⟩
    · rintro ⟨_, ⟨⟩, h⟩
      exact .number h
  | none =>
    refine iff_of_false ?_ (by simp)
    intro h
    cases w <;> cases h <;> cases hw

/-- Arrays are equal item by item. -/
theorem looseEqItems_iff {nan : Identity} {xs ys : List Value} :
    looseEqItems nan marks xs ys = true ↔
      xs.length = ys.length ∧ ∀ p ∈ xs.zip ys, looseEq nan marks p.1 p.2 = true := by
  induction xs generalizing ys with
  | nil => cases ys <;> simp [looseEqItems]
  | cons x xs ih =>
    cases ys with
    | nil => simp [looseEqItems]
    | cons y ys => simp [looseEqItems, ih, and_left_comm]

/-- Where no key stands twice, as many fields as others that all have a counterpart among them
are fields under the same keys with counterparts. -/
theorem counterparts_iff {R : Value → Value → Prop} {fs gs : Fields}
    (hfs : (fs.map Prod.fst).Nodup) (hgs : (gs.map Prod.fst).Nodup) :
    (fs.length = gs.length ∧ ∀ p ∈ fs, ∃ w, gs.lookup p.1 = some w ∧ R p.2 w) ↔
      (∀ key, (fs.lookup key).isSome = (gs.lookup key).isSome) ∧
        ∀ key v w, fs.lookup key = some v → gs.lookup key = some w → R v w := by
  have hkeys : (∀ key, (fs.lookup key).isSome = (gs.lookup key).isSome) ↔
      (fs.map Prod.fst).Perm (gs.map Prod.fst) := by
    rw [List.perm_ext_iff_of_nodup hfs hgs]
    refine forall_congr' fun key => ?_
    rw [Bool.eq_iff_iff, Fields.isSome_lookup_iff, Fields.isSome_lookup_iff]
  rw [hkeys]
  constructor
  · rintro ⟨hlength, h⟩
    refine ⟨perm_keys_of_lookup hfs hlength fun p hp => ?_, fun key v w hv hw => ?_⟩
    · obtain ⟨w, hw, -⟩ := h p hp
      rw [hw, Option.isSome_some]
    · obtain ⟨w', hw', hR⟩ := h _ (Fields.mem_of_lookup hv)
      cases hw.symm.trans hw'
      exact hR
  · rintro ⟨hperm, h⟩
    refine ⟨by simpa using hperm.length_eq, fun p hp => ?_⟩
    have hmem : p.1 ∈ gs.map Prod.fst := hperm.mem_iff.mp (List.mem_map_of_mem hp)
    obtain ⟨w, hw⟩ := Option.isSome_iff_exists.mp (Fields.isSome_lookup_iff.mpr hmem)
    exact ⟨w, hw, h _ _ _ (Fields.lookup_of_mem hfs hp) hw⟩

/-- What counts as a number is equal to the values that count as the same number. -/
theorem looseEq_iff_of_number? {v w : Value} {x : Number} (hv : v.number? = some x) :
    looseEq .distinct marks v w = true ↔ Same v.counted w.counted := by
  rw [looseEq_of_number? hv, counted_of_number? hv, same_number_counted_iff]
  exact exists_congr fun y => and_congr_right fun _ => Number.numberEq_distinct_iff

/-- Arrays are the same if they are of one kind and have the same items. -/
theorem same_array_iff {k l : ArrayKind} {xs ys : List Value} :
    Same (.array k xs) (.array l ys) ↔
      k = l ∧ xs.length = ys.length ∧ ∀ p ∈ xs.zip ys, Same p.1 p.2 := by
  constructor
  · rintro ⟨⟩
    rename_i hlength hitems
    exact ⟨rfl, hlength, hitems⟩
  · rintro ⟨rfl, hlength, hitems⟩
    exact .array hlength hitems

/-- Objects are the same if they have the same fields under the same keys. -/
theorem same_object_iff {fs gs : Fields} :
    Same (.object fs) (.object gs) ↔
      (∀ key, (fs.lookup key).isSome = (gs.lookup key).isSome) ∧
        ∀ key v w, fs.lookup key = some v → gs.lookup key = some w → Same v w := by
  constructor
  · rintro ⟨⟩
    rename_i hkeys hfields
    exact ⟨hkeys, hfields⟩
  · rintro ⟨hkeys, hfields⟩
    exact .object hkeys hfields

/-- Counted arrays are the same if their items are once they are counted. -/
theorem same_counted_array_iff {k l : ArrayKind} {xs ys : List Value} :
    Same (Value.array k xs).counted (Value.array l ys).counted ↔
      k = l ∧ xs.length = ys.length ∧ ∀ p ∈ xs.zip ys, Same p.1.counted p.2.counted := by
  simp only [counted, countedItems_eq_map, same_array_iff, List.length_map, List.zip_map,
    List.forall_mem_map, Prod.map_fst, Prod.map_snd]

/-- Counted objects are the same if their fields are once they are counted. -/
theorem same_counted_object_iff {fs gs : Fields} :
    Same (Value.object fs).counted (Value.object gs).counted ↔
      (∀ key, (fs.lookup key).isSome = (gs.lookup key).isSome) ∧
        ∀ key v w, fs.lookup key = some v → gs.lookup key = some w →
          Same v.counted w.counted := by
  simp only [counted, same_object_iff, lookup_countedFields, Option.isSome_map,
    Option.map_eq_some_iff]
  refine and_congr_right fun _ => forall_congr' fun key => ?_
  constructor
  · intro h v w hv hw
    exact h _ _ ⟨v, hv, rfl⟩ ⟨w, hw, rfl⟩
  · rintro h _ _ ⟨v, hv, rfl⟩ ⟨w, hw, rfl⟩
    exact h v w hv hw

/-- Documents are loosely equal if they are the same once their truth values are counted. -/
theorem looseEq_iff_same_counted {v w : Value} (hv : v.IsDocument) (hw : w.IsDocument) :
    looseEq .distinct marks v w = true ↔ Same v.counted w.counted := by
  induction hv generalizing w with
  | null =>
    cases hw with
    | null => exact iff_of_true rfl .null
    | _ => exact iff_of_false (by simp [looseEq]) (by rintro ⟨⟩)
  | bool b => exact looseEq_iff_of_number? rfl
  | number x => exact looseEq_iff_of_number? rfl
  | text s =>
    cases hw with
    | text t =>
      simp only [looseEq, beq_iff_eq]
      constructor
      · rintro rfl
        exact .text s
      · rintro ⟨⟩
        rfl
    | _ => exact iff_of_false (by simp [looseEq]) (by rintro ⟨⟩)
  | @list items _ ih =>
    cases hw with
    | @list others hothers =>
      simp only [looseEq, Bool.and_eq_true, decide_eq_true_eq, looseEqItems_iff,
        same_counted_array_iff]
      refine and_congr_right fun _ => and_congr_right fun _ => forall₂_congr fun p hp => ?_
      obtain ⟨hitem, hother⟩ := List.of_mem_zip hp
      exact ih p.1 hitem (hothers p.2 hother)
    | _ => exact iff_of_false (by simp [looseEq]) (by rintro ⟨⟩)
  | @object fields hkeys _ ih =>
    cases hw with
    | @object others hothers hvalues =>
      simp only [looseEq, Bool.and_eq_true, beq_iff_eq, looseEqFields_iff,
        same_counted_object_iff]
      rw [@counterparts_iff (fun v w => looseEq .distinct marks v w = true) _ _ hkeys hothers]
      refine and_congr_right fun _ => forall_congr' fun key => forall₂_congr fun v w =>
        forall₂_congr fun hv hw => ?_
      exact ih _ (Fields.mem_of_lookup hv) (hvalues _ (Fields.mem_of_lookup hw))
    | _ => exact iff_of_false (by simp [looseEq]) (by rintro ⟨⟩)

/-- The same documents are the same once their truth values are counted. -/
theorem Same.counted {v w : Value} (h : Same v w) : Same v.counted w.counted := by
  induction h with
  | null => exact .null
  | bool b => exact .number (.finite trivial trivial rfl)
  | number h => exact .number h
  | text s => exact .text s
  | array hlength _ ih => exact same_counted_array_iff.mpr ⟨rfl, hlength, ih⟩
  | object hkeys _ ih => exact same_counted_object_iff.mpr ⟨hkeys, ih⟩

/-- Only a truth value is the same as one. -/
theorem Same.isBool_eq {v w : Value} (h : Same v w) : v.isBool = w.isBool := by
  cases h <;> rfl

/-- The same document but for truth values below the top, which count as numbers there. -/
def Alike (v w : Value) : Prop := v.isBool = w.isBool ∧ Same v.counted w.counted

/-- A truth value, or a value without one anywhere in it. -/
def IsPlain (v : Value) : Prop := v.isBool = true ∨ v.counted = v

/-- Equality in conditions holds of documents that are alike. -/
theorem strictEq_iff_alike {v w : Value} (hv : v.IsDocument) (hw : w.IsDocument) :
    v.strictEq marks w = true ↔ Alike v w := by
  rw [strictEq, Bool.and_eq_true, beq_iff_eq, looseEq_iff_same_counted hv hw]
  rfl

/-- The same documents are alike. -/
theorem Same.alike {v w : Value} (h : Same v w) : Alike v w := ⟨h.isBool_eq, h.counted⟩

/-- Only the same truth values are alike. -/
theorem same_of_alike_of_isBool {v w : Value} (hv : v.isBool = true) (h : Alike v w) :
    Same v w := by
  obtain ⟨hbool, hcounted⟩ := h
  rw [hv] at hbool
  cases v with
  | bool b =>
    cases w with
    | bool c =>
      obtain ⟨y, hy, hsame⟩ := same_number_counted_iff.mp hcounted
      cases hy
      rw [hsame.flag_inj]
      exact .bool c
    | _ => cases hbool
  | _ => cases hv

/-- Documents without truth values below the top are alike only if they are the same. -/
theorem alike_iff_same {v w : Value} (hv : v.IsPlain) (hw : w.IsPlain) : Alike v w ↔ Same v w := by
  refine ⟨fun h => ?_, Same.alike⟩
  rcases hv with hbool | hv
  · exact same_of_alike_of_isBool hbool h
  · rcases hw with hbool | hw
    · have hcounted : v.counted.isBool = true := by rw [hv, h.1, hbool]
      cases v <;> cases hcounted
    · have hsame := h.2
      rwa [hv, hw] at hsame

end Value

namespace Operator

open Value

/-- The equality of conditions on documents. It holds of those that are alike, and membership
goes by it; so it holds of all documents that are the same, and of no others where no truth value
stands below the top. -/
theorem test_equal_iff {marks : Identity} {a b : Value} (ha : a.IsDocument) (hb : b.IsDocument) :
    (test marks .equal a b = .ok true ↔ Alike a b) ∧
    (test marks .isIn a b = .ok true ↔
      ∃ kind items, b = .array kind items ∧ ∃ item ∈ items, Alike item a) ∧
    (Same a b → Alike a b) ∧
    (a.IsPlain → b.IsPlain → (Alike a b ↔ Same a b)) := by
  refine ⟨?_, ?_, Same.alike, alike_iff_same⟩
  · rw [test, Except.ok.injEq, strictEq_iff_alike ha hb]
  · cases hb with
    | @list items hitems =>
      simp only [test, member?, Option.getD_some, Except.ok.injEq, List.any_eq_true]
      constructor
      · rintro ⟨item, hmem, h⟩
        exact ⟨.list, items, rfl, item, hmem, (strictEq_iff_alike (hitems item hmem) ha).mp h⟩
      · rintro ⟨_, _, ⟨⟩, item, hmem, h⟩
        exact ⟨item, hmem, (strictEq_iff_alike (hitems item hmem) ha).mpr h⟩
    | _ => exact iff_of_false (by simp [test, member?]) (by rintro ⟨_, _, ⟨⟩, _⟩)

/-- An account of a customer with its points. -/
private def account (points : Number) : Value :=
  .object [("tier", .text "gold"), ("points", .list [.number points])]

private theorem isDocument_account (points : Number) : (account points).IsDocument := by
  refine .object (by simp) ?_
  simp only [List.forall_mem_cons]
  refine ⟨.text _, .list ?_, List.forall_mem_nil _⟩
  simp only [List.forall_mem_cons]
  exact ⟨.number _, List.forall_mem_nil _⟩

/-- Below the top, too, a number goes by its exact value. -/
theorem test_equal_iff_account :
    (account (.int 6000)).IsDocument ∧
      (account (.double (Double.nearestInt 6000))).IsDocument ∧
      test .distinct .equal (account (.int 6000)) (account (.double (Double.nearestInt 6000))) =
        .ok true ∧
      Same (account (.int 6000)) (account (.double (Double.nearestInt 6000))) := by
  have hint := isDocument_account (.int 6000)
  have hdouble := isDocument_account (.double (Double.nearestInt 6000))
  have heq : (account (.int 6000)).strictEq .distinct
      (account (.double (Double.nearestInt 6000))) = true := by decide +kernel
  have hequal := congrArg (Except.ok : Bool → Except Fault Bool) heq
  obtain ⟨hiff, -, -, hsame⟩ := @test_equal_iff .distinct _ _ hint hdouble
  exact ⟨hint, hdouble, hequal, (hsame (.inr rfl) (.inr rfl)).mp (hiff.mp hequal)⟩

/-- A list with the truth value equals the list with the number 1, which is not the same. -/
theorem test_equal_flag_of_not_same :
    (Value.list [.bool true]).IsDocument ∧ (Value.list [.int 1]).IsDocument ∧
      test .distinct .equal (.list [.bool true]) (.list [.int 1]) = .ok true ∧
      ¬ Same (.list [.bool true]) (.list [.int 1]) := by
  refine ⟨.list fun v hv => ?_, .list fun v hv => ?_, rfl, fun h => ?_⟩
  · rw [List.mem_singleton.mp hv]
    exact .bool true
  · rw [List.mem_singleton.mp hv]
    exact .number _
  · cases (same_array_iff.mp h).2.2 (.bool true, .int 1) (by simp)

end Operator

end Loyalty
