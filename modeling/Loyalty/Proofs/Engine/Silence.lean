import Loyalty.Engine
import Loyalty.Proofs.Condition.Visits
import Loyalty.Proofs.Engine.Priority
import Loyalty.Proofs.Rule.Problems

/-!
# Silent calculations

A calculation tells its operator only about conditions that it cannot make sense
of. A rule that passed its check has no such condition anywhere in it, so an
engine whose rules all passed calculates without a notice, whatever the record.
-/

namespace Loyalty

/-- A condition that passed its check is evaluated without a notice: no leaf that is
visited gives one. -/
theorem Condition.silent_evaluate {c : Condition} (hvalid : c.fault? = none) (marks : Identity)
    (record : Value) : (c.evaluate marks record).Silent := by
  rw [Report.Silent, Report.notices_eq_nil_iff]
  intro n hshows
  obtain ⟨leaf, hvisits, hleaf, hshows⟩ := shows_evaluate_iff.mp hshows
  have hknown := known_of_fault?_eq_none (hvisits.fault?_eq_none hvalid)
  rw [Report.Shows, hknown.notices_eq_nil hleaf] at hshows
  cases hshows

/-- The condition of a rule that passed its check passed it too. -/
theorem Rule.fault?_condition {v : Value} {r : Rule} (h : ofValue? v = some r)
    (hvalid : v.ruleFault? = none) : r.condition.fault? = none := by
  cases v with
  | object fields =>
    cases h
    simp only [Value.ruleFault?] at hvalid
    split at hvalid
    · cases hvalid
    · split at hvalid
      · cases hvalid
      · split at hvalid
        · cases hvalid
        · split at hvalid
          · cases hvalid
          · exact Option.map_eq_none_iff.mp hvalid
  | _ => cases h

/-- Rules whose conditions passed their checks are taken without a notice. -/
theorem Tally.silent_addAll {nan : Identity} {record : Value} {rules : List Rule}
    (hrules : ∀ r ∈ rules, r.condition.fault? = none) (t : Tally) :
    (t.addAll nan record rules).Silent := by
  induction rules generalizing t with
  | nil => rfl
  | cons r rules ih =>
    obtain ⟨hfirst, hrest⟩ := List.forall_mem_cons.mp hrules
    rw [addAll]
    refine (Condition.silent_evaluate hfirst .distinct record).bind fun holds _ => ?_
    cases holds with
    | false => exact ih hrest t
    | true =>
      simp only [if_true]
      split
      · exact ih hrest t
      · exact (Report.silent_ofExcept _).bind fun t' _ => ih hrest t'

/-- An engine with valid rules calculates without a notice. -/
theorem Engine.silent_apply {engine : Engine} (hvalid : AllValid engine.rules) (record : Value) :
    (engine.apply record).Silent := by
  have hconditions : ∀ r ∈ engine.rules.filterMap Rule.ofValue?, r.condition.fault? = none := by
    intro r hr
    obtain ⟨v, hv, hof⟩ := List.mem_filterMap.mp hr
    exact Rule.fault?_condition hof (hvalid v hv)
  rw [apply]
  refine (Report.silent_ofExcept _).bind fun taken htaken => ?_
  refine (Report.silent_ofExcept _).bind fun amount _ => ?_
  have hperm := (inPriorityOrder_of_byPriority htaken).perm
  refine (Tally.silent_addAll (fun r hr => hconditions r (hperm.mem_iff.mp hr)) _).bind
    fun tally _ => ?_
  refine (Report.silent_ofExcept _).bind fun discount _ => ?_
  exact (Report.silent_ofExcept _).bind fun final _ => rfl

end Loyalty
