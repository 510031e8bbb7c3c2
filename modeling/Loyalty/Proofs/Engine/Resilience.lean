import Loyalty.Proofs.Condition.Breaking
import Loyalty.Proofs.Engine.Selection
import Loyalty.Proofs.Number.Cents

/-!
# When a calculation returns

A calculation is a fault only because of numbers that are too large, of dates that
leave the calendar, of paths that stumble, or of texts with an integer of too many
digits. `Engine.Withstands` says of an engine and a record that none of these is met:
no priority is too large, no condition breaks, no discount that counts is too large,
and neither is their sum, which has a product with the amount. Everything else,
rounding to cents in particular, comes to a value whatever rules and record hold.
-/

namespace Loyalty

namespace Engine

/-- The rules of an engine in the order in which they are taken. -/
def taken (engine : Engine) : List Rule :=
  (engine.rules.filterMap Rule.ofValue?).mergeSort Rule.mayPrecede

/-- Nothing that a calculation reads is too large, out of the calendar, without a text or at
the end of a path that stumbles. -/
structure Withstands (engine : Engine) (record : Value) (amount : Double) : Prop where
  priorities : ∀ r ∈ engine.taken, ¬ (Fields.get r.fields "priority").IsTooLarge
  conditions : ∀ r ∈ engine.taken, ∀ node, Condition.Visits .distinct record r.condition node →
    ¬ node.Breaks record
  discounts : ∀ r ∈ selected engine.nan record engine.taken,
    ¬ (r.action.get "discountPercent").IsTooLarge
  product : ∃ total percent,
    ((selected engine.nan record engine.taken).map Rule.effectiveDiscount).foldlM Number.add?
      (.int 0) = some total ∧
    total.toDouble? = some percent ∧ ∀ negative, amount.mul percent ≠ .infinity negative

end Engine

/-- A number can be read unless it is too large. -/
theorem Value.exists_finiteNumberOr_iff {default : Number} {v : Value} :
    (∃ n, v.finiteNumberOr default = .ok n) ↔ ¬ v.IsTooLarge := by
  rw [exists_ok_iff, finiteNumberOr_eq_error_iff]

/-- Priorities can be read unless one is too large. -/
theorem exists_withPriorities_iff {rules : List Rule} :
    (∃ keyed, withPriorities rules = .ok keyed) ↔
      ∀ r ∈ rules, ¬ (Fields.get r.fields "priority").IsTooLarge := by
  induction rules with
  | nil => simp [withPriorities]
  | cons r rs ih =>
    rw [List.forall_mem_cons, ← ih, ← Value.exists_finiteNumberOr_iff, withPriorities]
    simp only [bind_eq_ok]
    constructor
    · rintro ⟨keyed, p, hp, others, hothers, -⟩
      exact ⟨⟨p, hp⟩, others, hothers⟩
    · rintro ⟨⟨p, hp⟩, others, hothers⟩
      exact ⟨_, p, hp, others, hothers, rfl⟩

namespace Tally

variable {nan : Identity} {record : Value}

/-- A rule can be added unless its discount is too large, or no double is near to the
sum. -/
theorem exists_push_iff {t : Tally} {r : Rule} :
    (∃ t', t.push r = .ok t') ↔ ¬ (r.action.get "discountPercent").IsTooLarge ∧
      ∃ total, t.total.add? r.effectiveDiscount = some total := by
  rw [← Value.exists_finiteNumberOr_iff]
  constructor
  · rintro ⟨t', hpush⟩
    refine ⟨?_, t'.total, (push_eq hpush).2⟩
    obtain ⟨percent, hpercent, -⟩ := bind_eq_ok.mp hpush
    exact ⟨percent, hpercent⟩
  · rintro ⟨⟨percent, hpercent⟩, total, htotal⟩
    have heffective : percent = r.effectiveDiscount := Value.finiteNumberOr_eq hpercent
    subst heffective
    refine ⟨⟨t.applied ++ [r.toApplied], total⟩, bind_eq_ok.mpr ⟨_, hpercent, ?_⟩⟩
    simp only [htotal]
    rfl

/-- A rule that does not hold or is blocked changes nothing. -/
theorem addAll_of_skip {t : Tally} {r : Rule} {rs : List Rule} {b : Bool}
    (hb : (r.condition.evaluate .distinct record).outcome = .ok b)
    (hskip : b = false ∨ t.blocks nan r = true) :
    (∃ t', (addAll nan record t (r :: rs)).outcome = .ok t') ↔
      ∃ t', (addAll nan record t rs).outcome = .ok t' := by
  refine exists_congr fun t' => ?_
  rw [addAll, Report.outcome_bind_eq_ok]
  simp only [hb, Except.ok.injEq, exists_eq_left']
  rcases hskip with rfl | hblocks
  · simp
  · rw [if_pos hblocks]
    simp

/-- A rule that holds and is not blocked is added first. -/
theorem addAll_of_take {t : Tally} {r : Rule} {rs : List Rule}
    (hb : (r.condition.evaluate .distinct record).outcome = .ok true)
    (hblocks : t.blocks nan r = false) :
    (∃ t', (addAll nan record t (r :: rs)).outcome = .ok t') ↔
      ∃ t₁, t.push r = .ok t₁ ∧ ∃ t', (addAll nan record t₁ rs).outcome = .ok t' := by
  have hstep : ∀ t', (addAll nan record t (r :: rs)).outcome = .ok t' ↔
      ∃ t₁, t.push r = .ok t₁ ∧ (addAll nan record t₁ rs).outcome = .ok t' := by
    intro t'
    rw [addAll, Report.outcome_bind_eq_ok]
    simp only [hb, Except.ok.injEq, exists_eq_left', if_true, hblocks, Bool.false_eq_true,
      if_false, Report.outcome_bind_eq_ok, Report.outcome_ofExcept]
  simp only [hstep]
  constructor
  · rintro ⟨t', t₁, hpush, hrest⟩
    exact ⟨t₁, hpush, t', hrest⟩
  · rintro ⟨t₁, hpush, t', hrest⟩
    exact ⟨t', t₁, hpush, hrest⟩

/-- A run over rules comes to a tally if their conditions come to answers and the
discounts of the selected ones can be added up. -/
theorem exists_addAll_iff {earlier rules : List Rule} {t : Tally}
    (hcovers : t.Covers nan record earlier) :
    (∃ t', (addAll nan record t rules).outcome = .ok t') ↔
      (∀ r ∈ rules, ∃ b, (r.condition.evaluate .distinct record).outcome = .ok b) ∧
      (∀ r ∈ selectedFrom nan record (earlier ++ rules) earlier.length rules,
        ¬ (r.action.get "discountPercent").IsTooLarge) ∧
      ∃ total, ((selectedFrom nan record (earlier ++ rules) earlier.length rules).map
        Rule.effectiveDiscount).foldlM Number.add? t.total = some total := by
  induction rules generalizing earlier t with
  | nil =>
    have hrun : (addAll nan record t []).outcome = .ok t := rfl
    simp [hrun, selectedFrom]
  | cons r rs ih =>
    rw [selectedFrom_cons, List.forall_mem_cons]
    cases hb : (r.condition.evaluate .distinct record).outcome with
    | error f =>
      refine iff_of_false ?_ ?_
      · rintro ⟨t', hrun⟩
        obtain ⟨b, hb', -⟩ := Report.outcome_bind_eq_ok.mp hrun
        cases hb.symm.trans hb'
      · rintro ⟨⟨⟨b, hb'⟩, -⟩, -⟩
        cases hb'
    | ok b =>
      have hanswer : (∃ b', (Except.ok b : Except Fault Bool) = .ok b') := ⟨b, rfl⟩
      have hholds : r.holds record = b := by simp only [Rule.holds, hb]
      by_cases hskip : b = false ∨ t.blocks nan r = true
      · have hpassed : r.holds record = false ∨ t.blocks nan r = true := hholds ▸ hskip
        rw [addAll_of_skip hb hskip, ih (hcovers.skip hpassed), hcovers.isSelected_of_skip hpassed]
        simp
      · obtain ⟨htrue, hblocks⟩ := not_or.mp hskip
        have htrue : b = true := by simpa using htrue
        have hblocks : t.blocks nan r = false := by simpa using hblocks
        subst htrue
        rw [addAll_of_take hb hblocks, if_pos (hcovers.isSelected_of_take hholds hblocks),
          List.singleton_append, List.forall_mem_cons, List.map_cons, List.foldlM_cons]
        constructor
        · rintro ⟨t₁, hpush, hrest⟩
          obtain ⟨hconditions, hdiscounts, total, htotal⟩ :=
            (ih (hcovers.push hholds hpush)).mp hrest
          have hdiscount := (exists_push_iff.mp ⟨t₁, hpush⟩).1
          refine ⟨⟨hanswer, hconditions⟩, ⟨hdiscount, hdiscounts⟩, total, ?_⟩
          rw [(push_eq hpush).2]
          exact htotal
        · rintro ⟨⟨-, hconditions⟩, ⟨hdiscount, hdiscounts⟩, total, htotal⟩
          obtain ⟨sum, hsum, htotal⟩ := Option.bind_eq_some_iff.mp htotal
          obtain ⟨t₁, hpush⟩ := exists_push_iff.mpr ⟨hdiscount, sum, hsum⟩
          have hsame : sum = t₁.total := Option.some.inj (hsum.symm.trans (push_eq hpush).2)
          subst hsame
          exact ⟨t₁, hpush, (ih (hcovers.push hholds hpush)).mpr
            ⟨hconditions, hdiscounts, total, htotal⟩⟩

end Tally

namespace Engine

/-- A calculation returns if all its parts do. -/
theorem exists_apply_iff_parts {engine : Engine} {record : Value} {amount : Double}
    (hamount : recordAmount engine.amountField record = .ok amount) :
    (∃ c, (engine.apply record).outcome = .ok c) ↔
      ∃ rules t discount final,
        byPriority (engine.rules.filterMap Rule.ofValue?) = .ok rules ∧
        (Tally.empty.addAll engine.nan record rules).outcome = .ok t ∧
        discountAmount amount t.total = .ok discount ∧
        (Value.double (amount.sub discount)).round2 = .ok final := by
  constructor
  · rintro ⟨c, hc⟩
    obtain ⟨rules, t, hrules, hamount', ht, hdiscount, hfinal, -⟩ := apply_eq_ok_iff.mp hc
    have hsame : amount = c.amount := Except.ok.inj (hamount.symm.trans hamount')
    subst hsame
    exact ⟨rules, t, c.discount, c.final, hrules, ht, hdiscount, hfinal⟩
  · rintro ⟨rules, t, discount, final, hrules, ht, hdiscount, hfinal⟩
    exact ⟨⟨amount, t.applied, t.total, discount, final, t.message⟩, apply_eq_ok_iff.mpr
      ⟨rules, t, hrules, hamount, ht, hdiscount, hfinal, rfl, rfl, rfl⟩⟩

/-- Rules are taken in their order unless a priority is too large. -/
theorem byPriority_eq_ok_iff {engine : Engine} {rules : List Rule} :
    byPriority (engine.rules.filterMap Rule.ofValue?) = .ok rules ↔
      (∀ r ∈ engine.taken, ¬ (Fields.get r.fields "priority").IsTooLarge) ∧
        engine.taken = rules := by
  have hmem : ∀ r, r ∈ engine.taken ↔ r ∈ engine.rules.filterMap Rule.ofValue? :=
    fun r => (List.mergeSort_perm _ Rule.mayPrecede).mem_iff
  simp only [hmem, ← exists_withPriorities_iff]
  cases hkeyed : withPriorities (engine.rules.filterMap Rule.ofValue?) with
  | error f => simp [byPriority, hkeyed, Except.map]
  | ok keyed => simp [byPriority_eq hkeyed, taken]

/-- A finite number that is not too large is near to a finite double. -/
theorem exists_toDouble?_of_le {n : Number} (hfinite : n.Finite) {k : Nat} (hk : k < 2098)
    (h : n.units.natAbs ≤ 2 ^ k) :
    ∃ x, n.toDouble? = some x ∧ x.isFinite = true ∧ x.magnitude ≤ 2 ^ k := by
  cases n with
  | double x => exact ⟨x, rfl, hfinite, h⟩
  | int i =>
    have hvalue : (Number.int i).units = i * (Double.unitsPerOne : Nat) := rfl
    rw [hvalue, Int.natAbs_mul, Int.natAbs_natCast] at h
    have hunits : i.natAbs * Double.unitsPerOne ≤ 2 ^ k * 1 := by
      rw [Nat.mul_one]
      exact h
    obtain ⟨hnearest, hle⟩ : (Double.nearestInt i).isFinite = true ∧
        (Double.nearestInt i).magnitude ≤ 2 ^ k := by
      rw [Double.nearestInt, Double.ofRatio_eq]
      exact Double.magnitude_ofUnits_le (by decide) hk hunits _
    exact ⟨Double.nearestInt i, Double.ofInt?_eq_some_iff.mpr ⟨hnearest, rfl⟩, hnearest, hle⟩

/-- A discount and what remains come to values if the total is near to a double that
has a product with the amount. -/
theorem exists_discountAmount_iff {amount : Double} (hfinite : amount.isFinite = true) {k : Nat}
    (hlow : 2094 ≤ k) (hhigh : k < 2097) (hamount : amount.magnitude ≤ 2 ^ k) {total : Number} :
    (∃ discount final, discountAmount amount total = .ok discount ∧
        (Value.double (amount.sub discount)).round2 = .ok final) ↔
      ∃ percent, total.toDouble? = some percent ∧
        ∀ negative, amount.mul percent ≠ .infinity negative := by
  rw [discountAmount]
  cases hpercent : total.toDouble? with
  | none => simp
  | some percent =>
    simp only [Option.some.injEq, exists_eq_left']
    exact Double.exists_discount_iff hfinite hlow hhigh hamount

/-- A calculation with an amount up to ten to the ninth returns exactly if engine and
record withstand it. -/
theorem exists_apply_iff {engine : Engine} {record : Value} {n : Number}
    (hamount : engine.amountField.resolve record .null = .ok (.number n)) (hfinite : n.Finite)
    (hbound : n.units.natAbs ≤ 10 ^ 9 * Double.unitsPerOne) :
    ∃ amount, n.toDouble? = some amount ∧
      ((∃ c, (engine.apply record).outcome = .ok c) ↔ engine.Withstands record amount) := by
  obtain ⟨k, hlow, hhigh⟩ : ∃ k, 2094 ≤ k ∧ k < 2097 := ⟨2094, by decide, by decide⟩
  have hunits : n.units.natAbs ≤ 2 ^ k := by
    obtain ⟨j, hj⟩ : ∃ j, j = 1074 := ⟨_, rfl⟩
    calc n.units.natAbs ≤ 10 ^ 9 * Double.unitsPerOne := hbound
      _ ≤ 2 ^ 30 * 2 ^ j := Nat.mul_le_mul (by decide) (Nat.le_of_eq (Double.unitsPerOne_eq hj))
      _ = 2 ^ (30 + j) := (Nat.pow_add 2 30 j).symm
      _ ≤ 2 ^ k := Nat.pow_le_pow_right (by decide) (by omega)
  obtain ⟨amount, hdouble, hamount_finite, hle⟩ :=
    exists_toDouble?_of_le hfinite (show k < 2098 by omega) hunits
  have hrecord : recordAmount engine.amountField record = .ok amount := by
    have hread : Value.amount (.number n) = .ok amount := by
      simp only [Value.amount, hdouble]
    refine bind_eq_ok.mpr ⟨.number n, hamount, bind_eq_ok.mpr ⟨amount, hread, ?_⟩⟩
    rw [if_pos hamount_finite]
    rfl
  have hsettled := fun total =>
    @exists_discountAmount_iff amount hamount_finite k hlow hhigh hle total
  refine ⟨amount, hdouble, ?_⟩
  rw [exists_apply_iff_parts hrecord]
  constructor
  · rintro ⟨rules, t, discount, final, hrules, ht, hdiscount, hfinal⟩
    obtain ⟨hpriorities, rfl⟩ := byPriority_eq_ok_iff.mp hrules
    obtain ⟨hconditions, hdiscounts, -⟩ := (Tally.exists_addAll_iff Tally.covers_empty).mp ⟨t, ht⟩
    obtain ⟨percent, hpercent, hproduct⟩ :=
      (hsettled t.total).mp ⟨discount, final, hdiscount, hfinal⟩
    exact ⟨hpriorities, fun r hr => Condition.exists_evaluate_iff.mp (hconditions r hr),
      hdiscounts, t.total, percent, (Tally.addAll_selected Tally.covers_empty ht).2, hpercent,
      hproduct⟩
  · rintro ⟨hpriorities, hconditions, hdiscounts, total, percent, htotal, hpercent, hproduct⟩
    obtain ⟨t, ht⟩ := (Tally.exists_addAll_iff Tally.covers_empty).mpr
      ⟨fun r hr => Condition.exists_evaluate_iff.mpr (hconditions r hr), hdiscounts, total, htotal⟩
    have hsame : total = t.total :=
      Option.some.inj (htotal.symm.trans (Tally.addAll_selected Tally.covers_empty ht).2)
    subst hsame
    obtain ⟨discount, final, hdiscount, hfinal⟩ :=
      (hsettled t.total).mpr ⟨percent, hpercent, hproduct⟩
    exact ⟨engine.taken, t, discount, final, byPriority_eq_ok_iff.mpr ⟨hpriorities, rfl⟩, ht,
      hdiscount, hfinal⟩

/-- A booking for gold on a Monday. -/
def mondayRecord : Value :=
  .object [("tier", .text "gold"), ("total_spend", .int 100), ("booking_date", .text "2025-11-03")]

/-- An amount of a hundred is small enough. -/
theorem exists_apply_iff_hundred :
    rivalEngine.amountField.resolve mondayRecord .null = .ok (.number (.int 100)) ∧
      (Number.int 100).Finite ∧
      (Number.int 100).units.natAbs ≤ 10 ^ 9 * Double.unitsPerOne ∧
      ∃ amount, (Number.int 100).toDouble? = some amount ∧
        ((∃ c, (rivalEngine.apply mondayRecord).outcome = .ok c) ↔
          rivalEngine.Withstands mondayRecord amount) := by
  have hamount : rivalEngine.amountField.resolve mondayRecord .null =
      .ok (.number (.int 100)) := by rfl
  have hbound : (Number.int 100).units.natAbs ≤ 10 ^ 9 * Double.unitsPerOne := by
    have hvalue : (Number.int 100).units = (100 * Double.unitsPerOne : Nat) := rfl
    rw [hvalue, Int.natAbs_natCast]
    exact Nat.mul_le_mul_right _ (by decide)
  exact ⟨hamount, trivial, hbound, exists_apply_iff hamount trivial hbound⟩

/-- A rule for gold whose priority is ten to the power 400. -/
def hugeRule : Rule := rivalRule (.text "HUGE") (.int (10 ^ 400)) (.int 10)

/-- The check tells nothing of the rule, but no booking can be calculated with it. -/
theorem not_exists_apply_huge :
    Complaint.list [.object hugeRule.fields] = .ok [] ∧
      (Engine.apply ⟨Engine.defaultAmountField, [.object hugeRule.fields], .shared⟩
        mondayRecord).outcome = .error .integerTooLarge := by
  have hnone : Double.ofInt? (10 ^ 400) = none := by decide +kernel
  have hpriority : hugeRule.priority = .error .integerTooLarge := by
    change (Value.int (10 ^ 400)).finiteNumberOr (.int 999) = _
    simp only [Value.int, Value.finiteNumberOr, Number.isFinite, Number.toDouble?, hnone]
    rfl
  have htaken : byPriority [hugeRule] = .error .integerTooLarge := by
    rw [byPriority, withPriorities, hpriority]
    rfl
  have hvalid : Problem.list [.object hugeRule.fields] = [] := by decide +kernel
  refine ⟨by rw [Complaint.list, hvalid, Complaint.ofProblems], ?_⟩
  change (Report.ofExcept (byPriority [hugeRule]) >>= _ : Report Calculation).outcome = _
  rw [htaken]
  rfl

end Engine

end Loyalty
