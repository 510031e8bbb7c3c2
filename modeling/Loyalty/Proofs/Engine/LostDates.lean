import Loyalty.Proofs.Engine.Resilience
import Loyalty.Proofs.Value.Dates

/-!
# Calculations that lose a date

Only tests of dates lose one: a point of time that they have to read leaves the calendar on its
way to UTC. An evaluation ends in that fault exactly if it visits such a test, and it is the only
way in which a calculation can.
-/

namespace Loyalty

/-! ## Tests -/

namespace Value

variable {v : Value} {f : Fault}

/-- A value that has no amount is too large. -/
theorem amount_fault (h : v.amount = .error f) : f = .integerTooLarge := by
  obtain ⟨n, rfl, hn⟩ := amount_eq_error_iff.mp ⟨f, h⟩
  simp only [amount, Number.toDouble?, hn] at h
  exact (Except.error.inj h).symm

/-- A value that is no finite number and cannot be asked for it is too large. -/
theorem finiteNumberOr_fault {default : Number} (h : v.finiteNumberOr default = .error f) :
    f = .integerTooLarge := by
  obtain ⟨n, rfl, hn⟩ := finiteNumberOr_eq_error_iff.mp ⟨f, h⟩
  simp only [finiteNumberOr, Number.isFinite, Number.toDouble?, hn] at h
  exact (Except.error.inj h).symm

/-- A value has its instant out of range exactly if it leaves the calendar. -/
theorem instant_eq_momentOutOfRange_iff :
    v.instant = .error .momentOutOfRange ↔ v.LeavesCalendar :=
  ⟨fun h => instant_eq_error_iff.mp ⟨_, h⟩, instant_of_leavesCalendar⟩

/-- A path that has no value in a record loses no date. -/
theorem resolve_ne_momentOutOfRange {path record default : Value} :
    path.resolve record default ≠ .error .momentOutOfRange := by
  intro h
  obtain hlacks | ⟨segment, -, -, hindex⟩ := exists_of_resolve_eq_error h
  · cases hlacks.resolve_eq.symm.trans h
  unfold readIndex at hindex
  simp only at hindex
  split at hindex
  · cases hindex
  · split at hindex
    · cases hindex
    · cases hindex

/-- A number that cannot be rounded loses no date. -/
theorem round2_ne_momentOutOfRange {x : Double} :
    (Value.double x).round2 ≠ .error .momentOutOfRange := by
  intro h
  cases x with
  | nan => cases h
  | infinity negative =>
    rw [Double.round2_infinity] at h
    cases h
  | finite negative m s hcanonical =>
    obtain ⟨d, -, hround⟩ := Double.exists_cents (x := .finite negative m s hcanonical) rfl
    rw [hround] at h
    cases h

end Value

namespace Operator

/-- An operator loses a date if it has to read a point of time that leaves the calendar. -/
def LosesDate (data value : Value) : Operator → Prop
  | .isWeekend => data.LeavesCalendar
  | .dateRange =>
    ∃ fields, value = .object fields ∧ (data.LeavesCalendar ∨
      (Fields.get fields "start").LeavesCalendar ∨ (Fields.get fields "end").LeavesCalendar)
  | _ => False

variable {marks : Identity} {data value : Value}

/-- Comparisons read no dates. -/
theorem compareAmounts_ne_momentOutOfRange {order : Double → Double → Bool} :
    compareAmounts order data value ≠ .error .momentOutOfRange := by
  intro h
  rcases bind_eq_error.mp h with hfirst | ⟨x, -, hrest⟩
  · cases Value.amount_fault hfirst
  · rcases bind_eq_error.mp hrest with hsecond | ⟨y, -, hrest⟩
    · cases Value.amount_fault hsecond
    · cases hrest

/-- A test of a range reads three points of time. -/
theorem isBetween_eq_momentOutOfRange_iff {start stop : Value} :
    data.isBetween start stop = .error .momentOutOfRange ↔
      data.LeavesCalendar ∨ start.LeavesCalendar ∨ stop.LeavesCalendar := by
  rw [← isBetween_eq_error_iff]
  refine ⟨fun h => ⟨_, h⟩, fun ⟨f, h⟩ => ?_⟩
  have hinstant : ∀ {v : Value}, v.instant = .error f → f = .momentOutOfRange := by
    intro v hv
    rw [Value.instant_of_leavesCalendar (Value.instant_eq_error_iff.mp ⟨f, hv⟩)] at hv
    exact (Except.error.inj hv).symm
  have hfault : f = .momentOutOfRange := by
    rcases bind_eq_error.mp h with h | ⟨i?, -, h⟩
    · exact hinstant h
    · rcases bind_eq_error.mp h with h | ⟨first?, -, h⟩
      · exact hinstant h
      · rcases bind_eq_error.mp h with h | ⟨last?, -, h⟩
        · exact hinstant h
        · split at h
          · cases h
          · cases h
  rw [h, hfault]

/-- Tests on texts read no dates. -/
theorem testTexts_ne_momentOutOfRange {compare : List Char → List Char → Bool} :
    testTexts compare data value ≠ .error .momentOutOfRange := by
  have hplain : ∀ v : Value, v.plainText ≠ .error .momentOutOfRange := by
    intro v h
    cases (Value.plainText_eq_error_iff.mp h).2
  intro h
  unfold testTexts at h
  split at h
  · cases h
  · cases h
  · rcases bind_eq_error.mp h with hfirst | ⟨text, -, hrest⟩
    · exact hplain data hfirst
    · rcases bind_eq_error.mp hrest with hsecond | ⟨part, -, hrest⟩
      · exact hplain value hsecond
      · cases hrest

/-- A test ends in the fault of dates exactly if its operator loses one. -/
theorem test_eq_momentOutOfRange_iff {op : Operator} :
    op.test marks data value = .error .momentOutOfRange ↔ op.LosesDate data value := by
  cases op with
  | greater => exact iff_of_false compareAmounts_ne_momentOutOfRange id
  | less => exact iff_of_false compareAmounts_ne_momentOutOfRange id
  | greaterOrEqual => exact iff_of_false compareAmounts_ne_momentOutOfRange id
  | lessOrEqual => exact iff_of_false compareAmounts_ne_momentOutOfRange id
  | isWeekend =>
    rw [test, Value.isWeekend, map_eq_error, Value.instant_eq_momentOutOfRange_iff]
    rfl
  | dateRange =>
    cases value with
    | object fields => simp [test, LosesDate, isBetween_eq_momentOutOfRange_iff]
    | _ => simp [test, LosesDate]
  | contains | startsWith | endsWith =>
    simp [test, LosesDate, testTexts_ne_momentOutOfRange]
  | _ => simp [test, LosesDate]

end Operator

/-! ## Conditions -/

namespace Condition

variable {marks : Identity} {record : Value}

/-- A simple node loses a date on a record if its operator does on what the path leads to. -/
inductive LosesDate (record : Value) : Condition → Prop
  | test {field operator value data : Value} {op : Operator}
    (hop : Operator.ofValue? operator = some op)
    (hdata : field.resolve record .missing = .ok data) (h : op.LosesDate data value) :
    LosesDate record (.simple field operator value)

/-- A node without children ends in the fault of dates exactly if it loses one. -/
theorem shows_momentOutOfRange_leaf {leaf : Condition} (hleaf : leaf.IsLeaf) :
    (leaf.evaluate marks record).Shows (.fault .momentOutOfRange) ↔ leaf.LosesDate record := by
  constructor
  · intro h
    cases (shows_fault_leaf hleaf).mp ⟨_, h⟩ with
    | path hop hstumbles =>
      obtain ⟨f, hf⟩ := Value.resolve_eq_error_iff.mpr hstumbles
      rw [evaluate, evaluateSimple, hop] at h
      rcases Report.outcome_bind_eq_error.mp h with h | ⟨data, hdata, -⟩
      · exact absurd h Value.resolve_ne_momentOutOfRange
      · cases hf.symm.trans hdata
    | test hop hdata =>
      rw [evaluate, evaluateSimple, hop, hdata] at h
      exact .test hop hdata (Operator.test_eq_momentOutOfRange_iff.mp h)
    | operator hop hmany =>
      simp only [evaluate, evaluateSimple, hop, Value.display_of_not_hasFewDigits hmany] at h
      cases h
  · rintro ⟨hop, hdata, hloses⟩
    rw [evaluate, evaluateSimple, hop, hdata]
    exact Operator.test_eq_momentOutOfRange_iff.mpr hloses

/-- An evaluation ends in the fault of dates exactly if it visits a node that loses one. -/
theorem outcome_eq_momentOutOfRange_iff {c : Condition} :
    (c.evaluate marks record).outcome = .error .momentOutOfRange ↔
      ∃ node, Visits marks record c node ∧ node.LosesDate record := by
  refine (@shows_evaluate_iff marks record c (.fault .momentOutOfRange)).trans
    (exists_congr fun node => and_congr_right fun _ => ?_)
  constructor
  · rintro ⟨hleaf, h⟩
    exact (shows_momentOutOfRange_leaf hleaf).mp h
  · intro h
    have hleaf : node.IsLeaf := by
      cases h
      trivial
    exact ⟨hleaf, (shows_momentOutOfRange_leaf hleaf).mpr h⟩

/-- A node that loses a date breaks. -/
theorem LosesDate.breaks {node : Condition} (h : node.LosesDate record) : node.Breaks record := by
  obtain ⟨hop, hdata, hloses⟩ := h
  have hfault := (@Operator.test_eq_momentOutOfRange_iff .shared _ _ _).mpr hloses
  exact .test hop hdata (Operator.test_eq_error_iff.mp ⟨_, hfault⟩)

end Condition

/-! ## Calculations -/

/-- Rules that cannot be put in order lose no date. -/
theorem withPriorities_ne_momentOutOfRange {rules : List Rule} :
    withPriorities rules ≠ .error .momentOutOfRange := by
  induction rules with
  | nil => simp [withPriorities]
  | cons r rs ih =>
    intro h
    rcases bind_eq_error.mp h with hpriority | ⟨p, -, h⟩
    · cases Value.finiteNumberOr_fault hpriority
    · rcases bind_eq_error.mp h with hothers | ⟨others, -, h⟩
      · exact ih hothers
      · cases h

namespace Tally

variable {nan : Identity} {record : Value} {t : Tally}

/-- A rule that cannot be added loses no date. -/
theorem push_ne_momentOutOfRange {r : Rule} : t.push r ≠ .error .momentOutOfRange := by
  intro h
  rcases bind_eq_error.mp h with hdiscount | ⟨percent, -, h⟩
  · cases Value.finiteNumberOr_fault hdiscount
  · split at h
    · cases h
    · cases h

/-- A run over rules loses a date only in one of their conditions. -/
theorem exists_of_addAll_eq_momentOutOfRange {rules : List Rule}
    (h : (addAll nan record t rules).outcome = .error .momentOutOfRange) :
    ∃ r ∈ rules, (r.condition.evaluate .distinct record).outcome = .error .momentOutOfRange := by
  induction rules generalizing t with
  | nil => cases h
  | cons r rs ih =>
    have hrest : ∀ {t' : Tally}, (addAll nan record t' rs).outcome = .error .momentOutOfRange →
        ∃ r' ∈ r :: rs,
          (r'.condition.evaluate .distinct record).outcome = .error .momentOutOfRange := by
      intro t' h'
      obtain ⟨r', hmem, hr'⟩ := ih h'
      exact ⟨r', List.mem_cons_of_mem _ hmem, hr'⟩
    rw [addAll] at h
    rcases Report.outcome_bind_eq_error.mp h with hfirst | ⟨holds, -, h⟩
    · exact ⟨r, List.mem_cons_self, hfirst⟩
    · split at h
      · split at h
        · exact hrest h
        · rcases Report.outcome_bind_eq_error.mp h with hpush | ⟨t', -, h⟩
          · exact absurd hpush push_ne_momentOutOfRange
          · exact hrest h
      · exact hrest h

end Tally

namespace Engine

variable {engine : Engine} {record : Value}

/-- Some condition of the rules visits a node that loses a date. -/
def LosesDate (engine : Engine) (record : Value) : Prop :=
  ∃ r ∈ engine.taken, ∃ node, Condition.Visits .distinct record r.condition node ∧
    node.LosesDate record

/-- A calculation ends in the fault of dates only if one is lost. -/
theorem losesDate_of_apply (h : (engine.apply record).outcome = .error .momentOutOfRange) :
    engine.LosesDate record := by
  rcases Report.outcome_bind_eq_error.mp h with htaken | ⟨rules, hrules, h⟩
  · rw [Report.outcome_ofExcept] at htaken
    exact absurd (map_eq_error.mp htaken) withPriorities_ne_momentOutOfRange
  obtain ⟨-, rfl⟩ := byPriority_eq_ok_iff.mp hrules
  rcases Report.outcome_bind_eq_error.mp h with hamount | ⟨amount, -, h⟩
  · rcases bind_eq_error.mp hamount with hresolve | ⟨v, -, hamount⟩
    · exact absurd hresolve Value.resolve_ne_momentOutOfRange
    · rcases bind_eq_error.mp hamount with hamount | ⟨x, -, hamount⟩
      · cases Value.amount_fault hamount
      · cases hamount
  rcases Report.outcome_bind_eq_error.mp h with htally | ⟨t, -, h⟩
  · obtain ⟨r, hr, hcondition⟩ := Tally.exists_of_addAll_eq_momentOutOfRange htally
    exact ⟨r, hr, Condition.outcome_eq_momentOutOfRange_iff.mp hcondition⟩
  rcases Report.outcome_bind_eq_error.mp h with hdiscount | ⟨discount, -, h⟩
  · rw [Report.outcome_ofExcept, discountAmount] at hdiscount
    split at hdiscount
    · exact absurd hdiscount Value.round2_ne_momentOutOfRange
    · cases hdiscount
  rcases Report.outcome_bind_eq_error.mp h with hfinal | ⟨final, -, h⟩
  · exact absurd hfinal Value.round2_ne_momentOutOfRange
  · cases h

/-- A calculation that loses a date comes to nothing. -/
theorem LosesDate.apply_ne_ok (h : engine.LosesDate record) {c : Calculation} :
    (engine.apply record).outcome ≠ .ok c := by
  intro hc
  obtain ⟨r, hr, node, hvisits, hloses⟩ := h
  obtain ⟨rules, t, hrules, -, ht, -⟩ := apply_eq_ok_iff.mp hc
  obtain ⟨-, rfl⟩ := byPriority_eq_ok_iff.mp hrules
  have hanswers := ((Tally.exists_addAll_iff Tally.covers_empty).mp ⟨t, ht⟩).1 r hr
  exact Condition.exists_evaluate_iff.mp hanswers node hvisits hloses.breaks

end Engine

end Loyalty
