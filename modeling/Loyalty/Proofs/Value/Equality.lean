import Loyalty.Proofs.Value.Tree
import Loyalty.Value.Equality
import Mathlib.Data.List.Perm.Subperm

/-!
# Laws of loose equality

Loose equality is transitive on all values, and symmetric where no object has a
key twice; there it is reflexive too if not-a-number equals itself. Whether not-a-number
equals itself matters only where there is one: a value without it compares in the same way
under both identities, and a value that is equal to another while not-a-number differs from
itself has none.
-/

namespace Loyalty

/-- Numbers are equal when they have the same place on the line of exact values. -/
theorem Number.eq_iff {x y : Number} :
    x.eq y = true ↔ ∃ l, x.level? = some l ∧ y.level? = some l := by
  unfold Number.eq
  cases x.level? with
  | none => simp
  | some a =>
    cases y.level? with
    | none => simp
    | some b => simp [eq_comm]

/-- Only not-a-number has no place on the line. -/
theorem Number.isNaN_iff {x : Number} : x.isNaN = true ↔ x.level? = none := by
  cases x with
  | int n => simp [Number.isNaN, Number.level?]
  | double d =>
    cases d with
    | nan => simp [Number.isNaN, Number.level?, Double.isNaN, Double.level?]
    | infinity negative =>
      cases negative <;> simp [Number.isNaN, Number.level?, Double.isNaN, Double.level?]
    | finite negative mantissa shift h =>
      simp [Number.isNaN, Number.level?, Double.isNaN, Double.level?]

namespace Value

variable {nan nan' marks : Identity}

/-- Equal leaves are both not-a-number, or have the same place on the line. -/
theorem numberEq_iff {x y : Number} :
    numberEq nan x y = true ↔
      (∃ l, x.level? = some l ∧ y.level? = some l) ∨
        (nan = .shared ∧ x.level? = none ∧ y.level? = none) := by
  simp only [numberEq, Bool.or_eq_true, Bool.and_eq_true, decide_eq_true_eq, Number.eq_iff,
    Number.isNaN_iff, and_assoc]

/-- Equality of leaves is transitive. -/
theorem numberEq_trans {x y z : Number} (hxy : numberEq nan x y = true)
    (hyz : numberEq nan y z = true) : numberEq nan x z = true := by
  rw [numberEq_iff] at hxy hyz ⊢
  rcases hxy with ⟨l, hx, hy⟩ | ⟨hnan, hx, hy⟩
  · rcases hyz with ⟨l', hy', hz⟩ | ⟨_, hy', _⟩
    · rw [hy, Option.some.injEq] at hy'
      exact Or.inl ⟨l, hx, by rw [hz, hy']⟩
    · rw [hy] at hy'
      cases hy'
  · rcases hyz with ⟨l', hy', _⟩ | ⟨_, _, hz⟩
    · rw [hy] at hy'
      cases hy'
    · exact Or.inr ⟨hnan, hx, hz⟩

/-- Only not-a-number sees whether it equals itself. -/
theorem numberEq_of_isNaN_eq_false {x : Number} (hx : x.isNaN = false) (y : Number) :
    numberEq nan x y = numberEq nan' x y := by
  simp [numberEq, hx]

/-- What counts as a number is equal to what counts as an equal one. -/
theorem looseEq_of_number? {v : Value} {x : Number} (hv : v.number? = some x) (w : Value) :
    looseEq nan marks v w = true ↔ ∃ y, w.number? = some y ∧ numberEq nan x y = true := by
  cases v with
  | bool b =>
    simp only [number?, Option.some.injEq] at hv
    subst hv
    cases hw : w.number? with
    | none => simp [looseEq, hw]
    | some y => simp [looseEq, hw]
  | number n =>
    simp only [number?, Option.some.injEq] at hv
    subst hv
    cases hw : w.number? with
    | none => simp [looseEq, hw]
    | some y => simp [looseEq, hw]
  | _ => simp [number?] at hv

/-- A truth value is equal to its number, in arrays too. -/
example : looseEq .distinct .shared (.list [.bool true]) (.list [.int 1]) = true := by cbv

/-- Every field has an equal one under its key in the other object. -/
theorem looseEqFields_iff {others fields : Fields} :
    looseEqFields nan marks others fields = true ↔
      ∀ p ∈ fields, ∃ w, others.lookup p.1 = some w ∧ looseEq nan marks p.2 w = true := by
  induction fields with
  | nil => simp [looseEqFields]
  | cons field rest ih =>
    obtain ⟨key, v⟩ := field
    cases hlookup : others.lookup key with
    | none => simp [looseEqFields, hlookup]
    | some w => simp [looseEqFields, hlookup, ih]

private theorem looseEqItems_trans {us vs ws : List Value}
    (ih : ∀ u ∈ us, ∀ v w, looseEq nan marks u v = true → looseEq nan marks v w = true →
      looseEq nan marks u w = true)
    (huv : looseEqItems nan marks us vs = true) (hvw : looseEqItems nan marks vs ws = true) :
    looseEqItems nan marks us ws = true := by
  induction us generalizing vs ws with
  | nil =>
    cases vs with
    | nil => exact hvw
    | cons v vs => simp [looseEqItems] at huv
  | cons u us ihs =>
    cases vs with
    | nil => simp [looseEqItems] at huv
    | cons v vs =>
      cases ws with
      | nil => simp [looseEqItems] at hvw
      | cons w ws =>
        simp only [looseEqItems, Bool.and_eq_true] at huv hvw ⊢
        have hhead := ih u (by simp) v w huv.1 hvw.1
        have htail := ihs (fun u' hu' => ih u' (by simp [hu'])) huv.2 hvw.2
        exact ⟨hhead, htail⟩

/-- Loose equality is transitive, on not-a-number and on objects of any form too. -/
theorem looseEq_trans {u v w : Value} (huv : looseEq nan marks u v = true)
    (hvw : looseEq nan marks v w = true) : looseEq nan marks u w = true := by
  induction u using treeInduction generalizing v w with
  | bool b =>
    obtain ⟨y, hv, hxy⟩ := (looseEq_of_number? rfl v).mp huv
    obtain ⟨z, hw, hyz⟩ := (looseEq_of_number? hv w).mp hvw
    exact (looseEq_of_number? rfl w).mpr ⟨z, hw, numberEq_trans hxy hyz⟩
  | number n =>
    obtain ⟨y, hv, hxy⟩ := (looseEq_of_number? rfl v).mp huv
    obtain ⟨z, hw, hyz⟩ := (looseEq_of_number? hv w).mp hvw
    exact (looseEq_of_number? rfl w).mpr ⟨z, hw, numberEq_trans hxy hyz⟩
  | array kind items ih =>
    cases v with
    | array kind' items' =>
      cases w with
      | array kind'' items'' =>
        simp only [looseEq, Bool.and_eq_true, decide_eq_true_eq] at huv hvw ⊢
        exact ⟨huv.1.trans hvw.1,
          looseEqItems_trans (fun u hu _ _ => ih u hu) huv.2 hvw.2⟩
      | _ => simp [looseEq] at hvw
    | _ => simp [looseEq] at huv
  | object fields ih =>
    cases v with
    | object fields' =>
      cases w with
      | object fields'' =>
        simp only [looseEq, Bool.and_eq_true, beq_iff_eq, looseEqFields_iff] at huv hvw ⊢
        refine ⟨huv.1.trans hvw.1, fun p hp => ?_⟩
        obtain ⟨v, hv, hpv⟩ := huv.2 p hp
        obtain ⟨w, hw, hvw'⟩ := hvw.2 _ (Fields.mem_of_lookup hv)
        exact ⟨w, hw, ih p hp hpv hvw'⟩
      | _ => simp [looseEq] at hvw
    | _ => simp [looseEq] at huv
  | null =>
    cases v with
    | null => exact hvw
    | _ => simp [looseEq] at huv
  | text s =>
    cases v with
    | text t =>
      simp only [looseEq, beq_iff_eq] at huv
      rwa [huv]
    | _ => simp [looseEq] at huv
  | date d =>
    cases v with
    | date e =>
      simp only [looseEq, decide_eq_true_eq] at huv
      rwa [huv]
    | _ => simp [looseEq] at huv
  | moment m =>
    cases v with
    | moment n =>
      cases w with
      | moment o =>
        simp only [looseEq, Moment.same, Bool.and_eq_true, beq_iff_eq] at huv hvw ⊢
        exact ⟨huv.1.trans hvw.1, huv.2.trans hvw.2⟩
      | _ => simp [looseEq] at hvw
    | _ => simp [looseEq] at huv
  | missing =>
    cases v with
    | missing => exact hvw
    | _ => simp [looseEq] at huv

/-- Equality of leaves is symmetric. -/
theorem numberEq_symm {x y : Number} (h : numberEq nan x y = true) :
    numberEq nan y x = true := by
  rw [numberEq_iff] at h ⊢
  rcases h with ⟨l, hx, hy⟩ | ⟨hnan, hx, hy⟩
  · exact Or.inl ⟨l, hy, hx⟩
  · exact Or.inr ⟨hnan, hy, hx⟩

private theorem looseEqItems_symm {vs ws : List Value}
    (ih : ∀ v ∈ vs, ∀ w ∈ ws, looseEq nan marks v w = true → looseEq nan marks w v = true)
    (h : looseEqItems nan marks vs ws = true) : looseEqItems nan marks ws vs = true := by
  induction vs generalizing ws with
  | nil =>
    cases ws with
    | nil => exact h
    | cons w ws => simp [looseEqItems] at h
  | cons v vs ihs =>
    cases ws with
    | nil => simp [looseEqItems] at h
    | cons w ws =>
      simp only [looseEqItems, Bool.and_eq_true] at h ⊢
      have hhead := ih v (by simp) w (by simp) h.1
      have htail := ihs (fun v' hv' w' hw' => ih v' (by simp [hv']) w' (by simp [hw'])) h.2
      exact ⟨hhead, htail⟩

/-- Fields with as many keys as others, all of them among the others, have the keys of the
others. -/
theorem perm_keys_of_lookup {fields others : Fields} (hkeys : (fields.map Prod.fst).Nodup)
    (hlength : fields.length = others.length)
    (h : ∀ p ∈ fields, (others.lookup p.1).isSome = true) :
    (fields.map Prod.fst).Perm (others.map Prod.fst) := by
  have hsubset : fields.map Prod.fst ⊆ others.map Prod.fst := by
    intro key hkey
    obtain ⟨p, hp, rfl⟩ := List.mem_map.mp hkey
    obtain ⟨w, hw⟩ := Option.isSome_iff_exists.mp (h p hp)
    exact List.mem_map.mpr ⟨(p.1, w), Fields.mem_of_lookup hw, rfl⟩
  exact (List.subperm_of_subset hkeys hsubset).perm_of_length_le (by simp [hlength])

/-- Fields with as many keys as others, all of them among the others, have the
others among them. -/
private theorem looseEqFields_symm {fields others : Fields}
    (hkeys : (fields.map Prod.fst).Nodup) (hothers : (others.map Prod.fst).Nodup)
    (hlength : fields.length = others.length)
    (ih : ∀ p ∈ fields, ∀ q ∈ others, looseEq nan marks p.2 q.2 = true →
      looseEq nan marks q.2 p.2 = true)
    (h : looseEqFields nan marks others fields = true) :
    looseEqFields nan marks fields others = true := by
  rw [looseEqFields_iff] at h ⊢
  have hperm := perm_keys_of_lookup hkeys hlength fun p hp => by
    obtain ⟨w, hw, -⟩ := h p hp
    rw [hw, Option.isSome_some]
  intro q hq
  obtain ⟨p, hp, hkey⟩ := List.mem_map.mp (hperm.mem_iff.mpr (List.mem_map_of_mem hq))
  obtain ⟨w, hw, hpw⟩ := h p hp
  rw [hkey, Fields.lookup_of_mem hothers hq] at hw
  cases hw
  exact ⟨p.2, hkey ▸ Fields.lookup_of_mem hkeys hp, ih p hp q hq hpw⟩

/-- Loose equality is symmetric where no object has a key twice. -/
theorem looseEq_symm {v w : Value} (hv : v.WellFormed) (hw : w.WellFormed)
    (h : looseEq nan marks v w = true) : looseEq nan marks w v = true := by
  induction v using treeInduction generalizing w with
  | bool b =>
    obtain ⟨y, hy, hxy⟩ := (looseEq_of_number? rfl w).mp h
    exact (looseEq_of_number? hy _).mpr ⟨_, rfl, numberEq_symm hxy⟩
  | number n =>
    obtain ⟨y, hy, hxy⟩ := (looseEq_of_number? rfl w).mp h
    exact (looseEq_of_number? hy _).mpr ⟨_, rfl, numberEq_symm hxy⟩
  | array kind items ih =>
    cases w with
    | array kind' items' =>
      rw [wellFormed_array] at hv hw
      simp only [looseEq, Bool.and_eq_true, decide_eq_true_eq] at h ⊢
      exact ⟨h.1.symm, looseEqItems_symm
        (fun u hu u' hu' => ih u hu (hv u hu) (hw u' hu')) h.2⟩
    | _ => simp [looseEq] at h
  | object fields ih =>
    cases w with
    | object fields' =>
      rw [wellFormed_object] at hv hw
      simp only [looseEq, Bool.and_eq_true, beq_iff_eq] at h ⊢
      exact ⟨h.1.symm, looseEqFields_symm hv.1 hw.1 h.1
        (fun p hp q hq => ih p hp (hv.2 p hp) (hw.2 q hq)) h.2⟩
    | _ => simp [looseEq] at h
  | text s =>
    cases w with
    | text t =>
      simp only [looseEq, beq_iff_eq] at h ⊢
      exact h.symm
    | _ => simp [looseEq] at h
  | date d =>
    cases w with
    | date e =>
      simp only [looseEq, decide_eq_true_eq] at h ⊢
      exact h.symm
    | _ => simp [looseEq] at h
  | moment m =>
    cases w with
    | moment n =>
      simp only [looseEq, Moment.same, Bool.and_eq_true, beq_iff_eq] at h ⊢
      exact ⟨h.1.symm, h.2.symm⟩
    | _ => simp [looseEq] at h
  | null =>
    cases w with
    | null => exact h
    | _ => simp [looseEq] at h
  | missing =>
    cases w with
    | missing => exact h
    | _ => simp [looseEq] at h

/-- A leaf equals itself where there is one not-a-number. -/
theorem numberEq_self (x : Number) : numberEq .shared x x = true := by
  rw [numberEq_iff]
  cases x.level? with
  | some l => exact .inl ⟨l, rfl, rfl⟩
  | none => exact .inr ⟨rfl, rfl, rfl⟩

private theorem looseEqItems_self {vs : List Value}
    (ih : ∀ v ∈ vs, looseEq .shared .shared v v = true) :
    looseEqItems .shared .shared vs vs = true := by
  induction vs with
  | nil => rfl
  | cons v vs ihs =>
    simp only [looseEqItems, Bool.and_eq_true]
    exact ⟨ih v (by simp), ihs fun v' hv' => ih v' (by simp [hv'])⟩

/-- A value equals itself where no object has a key twice, and there is one
not-a-number and one mark of an absent field. -/
theorem looseEq_self {v : Value} (hv : v.WellFormed) : looseEq .shared .shared v v = true := by
  induction v using treeInduction with
  | bool b => exact (looseEq_of_number? rfl _).mpr ⟨_, rfl, numberEq_self _⟩
  | number n => exact (looseEq_of_number? rfl _).mpr ⟨_, rfl, numberEq_self n⟩
  | array kind items ih =>
    rw [wellFormed_array] at hv
    simp only [looseEq, Bool.and_eq_true, decide_true, true_and]
    exact looseEqItems_self fun v hmem => ih v hmem (hv v hmem)
  | object fields ih =>
    rw [wellFormed_object] at hv
    simp only [looseEq, Bool.and_eq_true, beq_self_eq_true, true_and, looseEqFields_iff]
    intro p hp
    exact ⟨p.2, Fields.lookup_of_mem hv.1 hp, ih p hp (hv.2 p hp)⟩
  | moment m => simp [looseEq, Moment.same]
  | _ => simp [looseEq]

private theorem looseEqItems_congr {vs : List Value}
    (ih : ∀ v ∈ vs, ∀ w, looseEq nan marks v w = looseEq nan' marks v w) (ws : List Value) :
    looseEqItems nan marks vs ws = looseEqItems nan' marks vs ws := by
  induction vs generalizing ws with
  | nil => cases ws <;> rfl
  | cons v vs ihs =>
    cases ws with
    | nil => rfl
    | cons w ws =>
      have hhead := ih v (by simp) w
      have htail := ihs (fun v' hv' => ih v' (by simp [hv'])) ws
      simp only [looseEqItems, hhead, htail]

/-- A value without not-a-number compares in the same way whether that equals
itself or not. -/
theorem looseEq_of_hasNaN_eq_false {v : Value} (hv : v.hasNaN = false) (w : Value) :
    looseEq nan marks v w = looseEq nan' marks v w := by
  induction v using treeInduction generalizing w with
  | bool b =>
    rw [Bool.eq_iff_iff, looseEq_of_number? rfl, looseEq_of_number? rfl]
    refine exists_congr fun y => ?_
    have hnumber : ∀ n, numberEq nan (.int n) y = numberEq nan' (.int n) y :=
      fun n => numberEq_of_isNaN_eq_false rfl y
    rw [hnumber]
  | number n =>
    simp only [hasNaN] at hv
    rw [Bool.eq_iff_iff, looseEq_of_number? rfl, looseEq_of_number? rfl]
    refine exists_congr fun y => ?_
    have hnumber : numberEq nan n y = numberEq nan' n y := numberEq_of_isNaN_eq_false hv y
    rw [hnumber]
  | array kind items ih =>
    rw [hasNaN_array] at hv
    have hitems := looseEqItems_congr fun u hu w => ih u hu (hv u hu) w
    cases w <;> simp [looseEq, hitems]
  | object fields ih =>
    rw [hasNaN_object] at hv
    have hfields : ∀ others, looseEqFields nan marks others fields =
        looseEqFields nan' marks others fields := by
      intro others
      rw [Bool.eq_iff_iff, looseEqFields_iff, looseEqFields_iff]
      refine forall₂_congr fun p hp => exists_congr fun w => ?_
      rw [ih p hp (hv p hp) w]
    cases w <;> simp [looseEq, hfields]
  | _ => cases w <;> simp [looseEq]

/-- A search for an equal value among those without not-a-number ends in the same
way whether that equals itself or not. -/
theorem any_looseEq_of_hasNaN_eq_false {α : Type} {l : List α} {f : α → Value}
    (h : ∀ a ∈ l, (f a).hasNaN = false) (p : α → Bool) (w : Value) :
    (l.any fun a => p a && (f a).looseEq nan marks w) =
      l.any fun a => p a && (f a).looseEq nan' marks w := by
  rw [Bool.eq_iff_iff, List.any_eq_true, List.any_eq_true]
  refine exists_congr fun a => and_congr_right fun ha => ?_
  have heq : (f a).looseEq nan marks w = (f a).looseEq nan' marks w :=
    looseEq_of_hasNaN_eq_false (h a ha) w
  rw [heq]

private theorem hasNaN_of_mem_looseEqItems {vs ws : List Value}
    (ih : ∀ v ∈ vs, ∀ w, looseEq .distinct marks v w = true → v.hasNaN = false)
    (h : looseEqItems .distinct marks vs ws = true) : ∀ v ∈ vs, v.hasNaN = false := by
  induction vs generalizing ws with
  | nil => simp
  | cons v vs ihs =>
    cases ws with
    | nil => simp [looseEqItems] at h
    | cons w ws =>
      simp only [looseEqItems, Bool.and_eq_true] at h
      intro u hu
      rcases List.mem_cons.mp hu with rfl | hu
      · exact ih u (by simp) w h.1
      · exact ihs (fun v' hv' => ih v' (by simp [hv'])) h.2 u hu

/-- What is equal to something while not-a-number differs from itself has none. -/
theorem hasNaN_of_looseEq {v w : Value} (h : looseEq .distinct marks v w = true) :
    v.hasNaN = false := by
  induction v using treeInduction generalizing w with
  | number n =>
    obtain ⟨y, _, hxy⟩ := (looseEq_of_number? rfl w).mp h
    rw [numberEq_iff] at hxy
    rcases hxy with ⟨l, hn, _⟩ | ⟨hnan, _⟩
    · rw [hasNaN, ← Bool.not_eq_true, Number.isNaN_iff, hn]
      simp
    · cases hnan
  | array kind items ih =>
    cases w with
    | array kind' items' =>
      simp only [looseEq, Bool.and_eq_true] at h
      exact hasNaN_array.mpr (hasNaN_of_mem_looseEqItems (fun u hu _ => ih u hu) h.2)
    | _ => simp [looseEq] at h
  | object fields ih =>
    cases w with
    | object fields' =>
      simp only [looseEq, Bool.and_eq_true, looseEqFields_iff] at h
      rw [hasNaN_object]
      intro p hp
      obtain ⟨w, _, hpw⟩ := h.2 p hp
      exact ih p hp hpw
    | _ => simp [looseEq] at h
  | _ => rfl

/-- A list that is equal to another while not-a-number differs from itself has none. -/
theorem hasNaN_of_looseEqItems {vs ws : List Value}
    (h : looseEqItems .distinct marks vs ws = true) : ∀ v ∈ vs, v.hasNaN = false := by
  have hlist : looseEq .distinct marks (.list vs) (.list ws) = true := by
    simpa [looseEq, list] using h
  exact hasNaN_array.mp (hasNaN_of_looseEq hlist)

end Value

end Loyalty
