import Loyalty.Proofs.Action
import Loyalty.Proofs.Condition.Visits
import Loyalty.Proofs.Value.Refusals

/-!
# Conditions that break off

The evaluation of a condition ends in a fault exactly if it visits a simple node
that breaks on the record: its path stumbles, or its operator has to read a value
that cannot be read. Comparisons read amounts, tests of dates read points of time,
and tests on texts read texts, as does the notice of an unknown operator; the other
operators read nothing.
-/

namespace Loyalty

namespace Operator

/-- An operator breaks if it has to read a value that cannot be read. -/
def Breaks (data value : Value) : Operator → Prop
  | .greater | .less | .greaterOrEqual | .lessOrEqual => data.IsTooLarge ∨ value.IsTooLarge
  | .isWeekend => data.LeavesCalendar
  | .dateRange =>
    ∃ fields, value = .object fields ∧ (data.LeavesCalendar ∨
      (Fields.get fields "start").LeavesCalendar ∨ (Fields.get fields "end").LeavesCalendar)
  | .contains | .startsWith | .endsWith =>
    data ≠ .null ∧ data ≠ .missing ∧ (¬ data.HasFewDigits ∨ ¬ value.HasFewDigits)
  | _ => False

variable {marks : Identity} {data value : Value}

/-- Comparisons read both amounts. -/
theorem compareAmounts_eq_error_iff {order : Double → Double → Bool} :
    (∃ f, compareAmounts order data value = .error f) ↔ data.IsTooLarge ∨ value.IsTooLarge := by
  rw [compareAmounts, exists_error_bind fun x => exists_error_bind fun y =>
    not_exists_error_pure _, Value.amount_eq_error_iff, Value.amount_eq_error_iff, or_false]

/-- A test of a range reads three points of time. -/
theorem isBetween_eq_error_iff {start stop : Value} :
    (∃ f, data.isBetween start stop = .error f) ↔
      data.LeavesCalendar ∨ start.LeavesCalendar ∨ stop.LeavesCalendar := by
  refine (exists_error_bind fun at? => exists_error_bind fun start? =>
    exists_error_bind (P := False) fun stop? => ?_).trans ?_
  · split
    · exact not_exists_error_pure _
    · exact not_exists_error_pure _
  · rw [Value.instant_eq_error_iff, Value.instant_eq_error_iff, Value.instant_eq_error_iff,
      or_false]

/-- A test on texts reads both, unless there is nothing in the field. -/
theorem testTexts_eq_error_iff {compare : List Char → List Char → Bool} :
    (∃ f, testTexts compare data value = .error f) ↔
      data ≠ .null ∧ data ≠ .missing ∧ (¬ data.HasFewDigits ∨ ¬ value.HasFewDigits) := by
  have htexts : ∀ v w : Value, (∃ f, (do
        let text ← v.plainText
        let part ← w.plainText
        return compare text.toList part.toList : Except Fault Bool) = .error f) ↔
      ¬ v.HasFewDigits ∨ ¬ w.HasFewDigits := by
    intro v w
    rw [exists_error_bind fun text => exists_error_bind fun part => not_exists_error_pure _]
    simp [Value.plainText_eq_error_iff]
  cases data with
  | null | missing => simp [testTexts]
  | _ =>
    refine (htexts _ value).trans (iff_of_eq ?_)
    simp

/-- A test comes to no answer exactly if its operator breaks. -/
theorem test_eq_error_iff {op : Operator} :
    (∃ f, op.test marks data value = .error f) ↔ op.Breaks data value := by
  cases op with
  | greater => exact compareAmounts_eq_error_iff
  | less => exact compareAmounts_eq_error_iff
  | greaterOrEqual => exact compareAmounts_eq_error_iff
  | lessOrEqual => exact compareAmounts_eq_error_iff
  | isWeekend =>
    rw [test, Value.isWeekend, exists_error_map, Value.instant_eq_error_iff]
    rfl
  | dateRange =>
    cases value with
    | object fields => simp [test, Breaks, isBetween_eq_error_iff]
    | _ => simp [test, Breaks]
  | contains | startsWith | endsWith =>
    rw [test, testTexts_eq_error_iff]
    rfl
  | _ => simp [test, Breaks]

end Operator

namespace Condition

variable {marks : Identity} {record : Value}

/-- A simple node breaks on a record if its path stumbles there, or its operator breaks on
what the path leads to. With an operator that there is not it breaks if that has no text. -/
inductive Breaks (record : Value) : Condition → Prop
  /-- There is nothing at the end of the path. -/
  | path {field operator value : Value} {op : Operator}
    (hop : Operator.ofValue? operator = some op) (h : field.Stumbles record) :
    Breaks record (.simple field operator value)
  /-- What is there, or in the condition, cannot be read. -/
  | test {field operator value data : Value} {op : Operator}
    (hop : Operator.ofValue? operator = some op)
    (hdata : field.resolve record .missing = .ok data) (h : op.Breaks data value) :
    Breaks record (.simple field operator value)
  /-- The operator cannot be told. -/
  | operator {field operator value : Value} (hop : Operator.ofValue? operator = none)
    (h : ¬ operator.HasFewDigits) : Breaks record (.simple field operator value)

/-- A simple node comes to no answer exactly if it breaks. -/
theorem shows_fault_simple {field operator value : Value} :
    (∃ f, (evaluateSimple marks record field operator value).Shows (.fault f)) ↔
      (Condition.simple field operator value).Breaks record := by
  rw [evaluateSimple]
  cases hop : Operator.ofValue? operator with
  | none =>
    by_cases hfew : operator.HasFewDigits
    · simp only [Value.display_of_hasFewDigits hfew]
      refine iff_of_false (by rintro ⟨f, ⟨⟩⟩) ?_
      rintro (⟨hop', -⟩ | ⟨hop', -, -⟩ | ⟨-, hmany⟩)
      · cases hop.symm.trans hop'
      · cases hop.symm.trans hop'
      · exact hmany hfew
    · simp only [Value.display_of_not_hasFewDigits hfew]
      exact iff_of_true ⟨_, rfl⟩ (.operator hop hfew)
  | some op =>
    cases hdata : field.resolve record .missing with
    | error f =>
      exact iff_of_true ⟨f, rfl⟩ (.path hop (Value.resolve_eq_error_iff.mp ⟨f, hdata⟩))
    | ok data =>
      change (∃ f, op.test marks data value = .error f) ↔ _
      rw [Operator.test_eq_error_iff]
      constructor
      · exact .test hop hdata
      · rintro (⟨-, hstumbles⟩ | ⟨hop', hdata', h⟩ | ⟨hop', -⟩)
        · obtain ⟨f, hf⟩ := Value.resolve_eq_error_iff.mpr hstumbles
          cases hdata.symm.trans hf
        · cases hop.symm.trans hop'
          cases hdata.symm.trans hdata'
          exact h
        · cases hop.symm.trans hop'

/-- A node without children comes to no answer exactly if it breaks. -/
theorem shows_fault_leaf {leaf : Condition} (hleaf : leaf.IsLeaf) :
    (∃ f, (leaf.evaluate marks record).Shows (.fault f)) ↔ leaf.Breaks record := by
  cases leaf with
  | simple field operator value => exact shows_fault_simple
  | compound c children => cases hleaf
  | malformed raw fault =>
    refine iff_of_false ?_ (by rintro ⟨⟩)
    rintro ⟨f, h⟩
    rw [evaluate] at h
    split at h
    · cases h
    · cases h

/-- An evaluation comes to an answer unless it visits a node that breaks. -/
theorem exists_evaluate_iff {c : Condition} :
    (∃ b, (c.evaluate marks record).outcome = .ok b) ↔
      ∀ node, Visits marks record c node → ¬ node.Breaks record := by
  rw [Report.exists_outcome_iff]
  constructor
  · intro h node hvisits hbreaks
    have hleaf : node.IsLeaf := by
      cases hbreaks with
      | path => trivial
      | test => trivial
      | operator => trivial
    obtain ⟨f, hf⟩ := (shows_fault_leaf hleaf).mpr hbreaks
    exact h f (shows_evaluate_iff.mpr ⟨node, hvisits, hleaf, hf⟩)
  · intro h f hf
    obtain ⟨leaf, hvisits, hleaf, hf⟩ := shows_evaluate_iff.mp hf
    exact h leaf hvisits ((shows_fault_leaf hleaf).mp ⟨f, hf⟩)

end Condition

end Loyalty
