import Loyalty.Engine
import Loyalty.Proofs.Number.Exact

/-!
# The order in which rules are taken

A rule counts with its own priority and discount when they are finite numbers,
and with fixed ones otherwise. Reading them is a fault only for an integer beyond
the doubles; where it is none, the rules are taken by ascending priority, and
those of one priority in the order in which they were given.
-/

namespace Loyalty

/-- A value that is a finite number, and something else in place of any other. -/
def Value.finiteOr (default : Number) : Value → Number
  | .number (.int n) => .int n
  | .number (.double x) => if x.isFinite then .double x else default
  | _ => default

/-- What is read in place of a value is finite. -/
theorem Value.finite_finiteOr {default : Number} (hdefault : default.Finite) (v : Value) :
    (v.finiteOr default).Finite := by
  cases v with
  | number n =>
    cases n with
    | int n => trivial
    | double x =>
      by_cases hx : x.isFinite = true
      · rw [finiteOr, if_pos hx]
        exact hx
      · rwa [finiteOr, if_neg hx]
  | _ => exact hdefault

/-- A reading that is no fault gives the finite number or what stands for others. -/
theorem Value.finiteNumberOr_eq {default n : Number} {v : Value}
    (h : v.finiteNumberOr default = .ok n) : n = v.finiteOr default := by
  cases v with
  | number m =>
    cases m with
    | int k =>
      cases hk : Double.ofInt? k with
      | none => simp [finiteNumberOr, Number.isFinite, Number.toDouble?, hk, Except.map] at h
      | some x =>
        have hx := (Double.ofInt?_eq_some_iff.mp hk).1
        simp [finiteNumberOr, Number.isFinite, Number.toDouble?, hk, hx, Except.map] at h
        exact h.symm
    | double x =>
      simp only [finiteNumberOr, Number.isFinite, Number.toDouble?, Except.map,
        Except.ok.injEq] at h
      exact h.symm
  | _ =>
    simp only [finiteNumberOr, Except.ok.injEq] at h
    exact h.symm

namespace Rule

/-- The priority that a rule counts with. -/
def effectivePriority (r : Rule) : Number := (Fields.get r.fields "priority").finiteOr (.int 999)

/-- The discount that a rule counts with. -/
def effectiveDiscount (r : Rule) : Number := (r.action.get "discountPercent").finiteOr (.int 0)

theorem finite_effectivePriority (r : Rule) : r.effectivePriority.Finite :=
  @Value.finite_finiteOr (.int 999) trivial _

end Rule

/-- Whether one rule may be taken before another. -/
def Rule.mayPrecede (a b : Rule) : Bool := a.effectivePriority.units ≤ b.effectivePriority.units

/-- Some rules by ascending priority, and the rules of any one priority in the
order in which they were given. -/
structure InPriorityOrder (given taken : List Rule) : Prop where
  perm : taken.Perm given
  ascending : taken.Pairwise fun a b => b.effectivePriority.lt a.effectivePriority = false
  stable : ∀ p : Number, taken.filter (fun r => r.effectivePriority.eq p) =
    given.filter fun r => r.effectivePriority.eq p

/-- A stable sort by priority puts rules in the order in which they are taken. -/
theorem inPriorityOrder_mergeSort (rules : List Rule) :
    InPriorityOrder rules (rules.mergeSort Rule.mayPrecede) := by
  have htrans : ∀ a b c : Rule, a.mayPrecede b = true → b.mayPrecede c = true →
      a.mayPrecede c = true := by
    intro a b c hab hbc
    simp only [Rule.mayPrecede, decide_eq_true_eq] at hab hbc ⊢
    omega
  have htotal : ∀ a b : Rule, (a.mayPrecede b || b.mayPrecede a) = true := by
    intro a b
    simp only [Rule.mayPrecede, Bool.or_eq_true, decide_eq_true_eq]
    omega
  have hperm := List.mergeSort_perm rules Rule.mayPrecede
  refine ⟨hperm, ?_, fun p => ?_⟩
  · refine (List.pairwise_mergeSort htrans htotal rules).imp fun {a b} hab => ?_
    rw [← Bool.not_eq_true,
      (Rule.finite_effectivePriority b).lt_iff (Rule.finite_effectivePriority a)]
    simpa [Rule.mayPrecede] using hab
  · have hlevel : ∀ a ∈ rules.filter (fun r => r.effectivePriority.eq p),
        some (Level.at a.effectivePriority.units) = p.level? := by
      intro a ha
      obtain ⟨l, hl, hp⟩ := Number.eq_iff.mp (List.mem_filter.mp ha).2
      rw [(Rule.finite_effectivePriority a).level?_eq] at hl
      rw [hl, hp]
    have hties : (rules.filter fun r => r.effectivePriority.eq p).Pairwise
        fun a b => a.mayPrecede b = true := by
      refine List.pairwise_of_forall_mem_list fun a ha b hb => ?_
      have hab := (hlevel a ha).trans (hlevel b hb).symm
      simp only [Option.some.injEq, Level.at.injEq] at hab
      simp [Rule.mayPrecede, hab]
    have hsub := (List.sublist_mergeSort htrans htotal hties List.filter_sublist).filter
      fun r => r.effectivePriority.eq p
    simp only [List.filter_filter, Bool.and_self] at hsub
    exact (hsub.eq_of_length (hperm.filter _).length_eq.symm).symm

/-- Where priorities can be read, they are the effective ones. -/
theorem withPriorities_eq {rules : List Rule} {keyed : List (Number × Rule)}
    (h : withPriorities rules = .ok keyed) :
    keyed = rules.map fun r => (r.effectivePriority, r) := by
  induction rules generalizing keyed with
  | nil =>
    simp only [withPriorities, Except.ok.injEq] at h
    simp [← h]
  | cons r rs ih =>
    unfold withPriorities at h
    cases hpriority : r.priority with
    | error f =>
      rw [hpriority] at h
      cases h
    | ok p =>
      cases hrest : withPriorities rs with
      | error f =>
        rw [hpriority, hrest] at h
        cases h
      | ok others =>
        rw [hpriority, hrest] at h
        have hkeyed : (p, r) :: others = keyed := Except.ok.inj h
        rw [← hkeyed, ih hrest, Value.finiteNumberOr_eq hpriority]
        rfl

/-- Where priorities can be read, rules are taken in the order of a stable sort. -/
theorem byPriority_eq {rules : List Rule} {keyed : List (Number × Rule)}
    (hkeyed : withPriorities rules = .ok keyed) :
    byPriority rules = .ok (rules.mergeSort Rule.mayPrecede) := by
  have hsort := List.map_mergeSort (l := rules) (f := fun r : Rule => (r.effectivePriority, r))
    (r := Rule.mayPrecede) (s := fun a b : Number × Rule => !b.1.lt a.1) (by
      intro a _ b _
      rw [Bool.eq_iff_iff, Bool.not_eq_true', ← Bool.not_eq_true,
        (Rule.finite_effectivePriority b).lt_iff (Rule.finite_effectivePriority a)]
      simp [Rule.mayPrecede])
  have hsnd : ∀ sorted : List Rule,
      (sorted.map fun r => (r.effectivePriority, r)).map (fun pair => pair.2) = sorted := by
    intro sorted
    simp [Function.comp_def]
  simp only [byPriority, hkeyed, withPriorities_eq hkeyed, Except.map, ← hsort, hsnd]

/-- One rule is taken alone. -/
theorem byPriority_singleton {r : Rule} {p : Number} (h : r.priority = .ok p) :
    byPriority [r] = .ok [r] := by
  have hkeyed : withPriorities [r] = .ok [(p, r)] := by
    rw [withPriorities, h]
    rfl
  rw [byPriority_eq hkeyed, List.mergeSort_singleton]

/-- Rules are taken in priority order. -/
theorem inPriorityOrder_of_byPriority {rules taken : List Rule}
    (h : byPriority rules = .ok taken) : InPriorityOrder rules taken := by
  cases hkeyed : withPriorities rules with
  | error f => simp [byPriority, hkeyed, Except.map] at h
  | ok keyed =>
    rw [byPriority_eq hkeyed, Except.ok.injEq] at h
    rw [← h]
    exact inPriorityOrder_mergeSort rules

end Loyalty
