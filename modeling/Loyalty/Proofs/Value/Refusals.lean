import Loyalty.Proofs.Calendar.Instants
import Loyalty.Proofs.Condition.Walks
import Loyalty.Rule.Basic
import Loyalty.Value.Reading

/-!
# What cannot be read

Reading a value is a fault in four places only: an integer that no finite double
is near to has no amount, a moment whose distance from UTC takes it out of the
calendar has no point of time, what has an integer of too many digits in it has no
text, and a path that comes to an array with a segment of digits that spells no index
finds nothing there.
-/

namespace Loyalty

namespace Value

/-- An integer that no finite double is near to. -/
def IsTooLarge (v : Value) : Prop := ∃ n, v = .number (.int n) ∧ Double.ofInt? n = none

/-- A moment, or the text of one, that lies in UTC before the first day of the
calendar or behind its last one. -/
def LeavesCalendar (v : Value) : Prop :=
  ∃ m : Moment, (v = .moment m ∨ ∃ s, v = .text s ∧ Moment.ofText? s = some m) ∧
    (m.utcMicros < 0 ∨ (dayCount * microsPerDay : Nat) ≤ m.utcMicros)

/-- A walk that comes to an array with a segment of digits that spells no index. -/
def StumblesOn (segments : List (List Char)) (v : Value) : Prop :=
  ∃ before segment after kind items, segments = before ++ segment :: after ∧
    walk .missing before v = .ok (.array kind items) ∧ isIndex segment = true ∧
    ∃ f, readIndex segment = .error f

/-- A path that has no text to walk along, or whose walk into a record stumbles. -/
def Stumbles (path record : Value) : Prop :=
  path.LacksText record ∨
    path.isTruthy = true ∧ path.HasFewDigits ∧ StumblesOn path.segments record

/-- Only integers that are too large have no amount. -/
theorem amount_eq_error_iff {v : Value} : (∃ f, v.amount = .error f) ↔ v.IsTooLarge := by
  cases v with
  | number n =>
    cases n with
    | int n =>
      cases hn : Double.ofInt? n with
      | none => simp [amount, IsTooLarge, Number.toDouble?, hn]
      | some x => simp [amount, IsTooLarge, Number.toDouble?, hn]
    | double x => simp [amount, IsTooLarge, Number.toDouble?]
  | _ => simp [amount, IsTooLarge]

/-- Only integers that are too large cannot be asked whether they are finite. -/
theorem finiteNumberOr_eq_error_iff {default : Number} {v : Value} :
    (∃ f, v.finiteNumberOr default = .error f) ↔ v.IsTooLarge := by
  cases v with
  | number n =>
    cases n with
    | int n =>
      cases hn : Double.ofInt? n with
      | none => simp [finiteNumberOr, Number.isFinite, IsTooLarge, Number.toDouble?, Except.map, hn]
      | some x =>
        simp [finiteNumberOr, Number.isFinite, IsTooLarge, Number.toDouble?, Except.map, hn]
    | double x => simp [finiteNumberOr, Number.isFinite, IsTooLarge, Number.toDouble?, Except.map]
  | _ => simp [finiteNumberOr, IsTooLarge]

/-- A moment has a point of time unless it lies outside the calendar. -/
theorem instantOf_eq_error_iff {m : Moment} :
    (∃ f, instantOf m = .error f) ↔
      m.utcMicros < 0 ∨ (dayCount * microsPerDay : Nat) ≤ m.utcMicros := by
  rw [instantOf, Moment.instant?, Instant.of?]
  by_cases hinside : 0 ≤ m.utcMicros ∧ m.utcMicros < dayCount * microsPerDay
  · rw [dif_pos hinside]
    refine iff_of_false (by simp) ?_
    push_cast
    omega
  · rw [dif_neg hinside]
    refine iff_of_true ⟨_, rfl⟩ ?_
    push_cast
    omega

/-- The midnight of a date lies in the calendar. -/
theorem exists_instantOf_ofDate (d : Date) : ∃ i, instantOf (.ofDate d) = .ok i := by
  have hinside : ¬ ∃ f, instantOf (.ofDate d) = .error f := by
    rw [instantOf_eq_error_iff]
    have hlt := d.dayNumber_lt
    have hmicros : (Moment.ofDate d).utcMicros = (d.dayNumber * microsPerDay : Nat) := by
      simp [Moment.utcMicros, Moment.localMicros, Moment.ofDate, TimeOfDay.midnight]
    have hend := Nat.mul_lt_mul_of_pos_right hlt (show 0 < microsPerDay by decide)
    omega
  cases hinstant : instantOf (.ofDate d) with
  | ok i => exact ⟨i, rfl⟩
  | error f => exact absurd ⟨f, hinstant⟩ hinside

/-- Only moments outside the calendar have no point of time. -/
theorem instant_eq_error_iff {v : Value} : (∃ f, v.instant = .error f) ↔ v.LeavesCalendar := by
  cases v with
  | moment m => simp [instant, LeavesCalendar, instantOf_eq_error_iff]
  | date d =>
    obtain ⟨i, hi⟩ := exists_instantOf_ofDate d
    simp [instant, LeavesCalendar, hi]
  | text s =>
    cases hread : Moment.ofText? s with
    | none => simp [instant, LeavesCalendar, hread]
    | some m => simp [instant, LeavesCalendar, hread, instantOf_eq_error_iff]
  | _ => simp [instant, LeavesCalendar]

/-- A walk stumbles on its first segment or behind it. -/
theorem stumblesOn_cons {segment : List Char} {rest : List (List Char)} {v : Value} :
    StumblesOn (segment :: rest) v ↔
      (∃ kind items, v = .array kind items ∧ isIndex segment = true ∧
        ∃ f, readIndex segment = .error f) ∨
      ∃ before other after kind items, rest = before ++ other :: after ∧
        walk .missing (segment :: before) v = .ok (.array kind items) ∧ isIndex other = true ∧
        ∃ f, readIndex other = .error f := by
  constructor
  · rintro ⟨before, other, after, kind, items, hsegments, hwalk, hindex⟩
    cases before with
    | nil =>
      cases hsegments
      exact .inl ⟨kind, items, Except.ok.inj hwalk, hindex⟩
    | cons first before =>
      cases hsegments
      exact .inr ⟨before, other, after, kind, items, rfl, hwalk, hindex⟩
  · rintro (⟨kind, items, rfl, hindex⟩ | ⟨before, other, after, kind, items, rfl, hwalk, hindex⟩)
    · exact ⟨[], segment, rest, kind, items, rfl, rfl, hindex⟩
    · exact ⟨segment :: before, other, after, kind, items, rfl, hwalk, hindex⟩

/-- Only walks that stumble come to no value. -/
theorem walk_eq_error_iff {segments : List (List Char)} {v : Value} :
    (∃ f, walk .missing segments v = .error f) ↔ StumblesOn segments v := by
  induction segments generalizing v with
  | nil => simp [walk, StumblesOn]
  | cons segment rest ih =>
    rw [stumblesOn_cons]
    cases v with
    | object fields =>
      simp only [walk, ih, StumblesOn, reduceCtorEq, false_and, exists_false, false_or]
    | array kind items =>
      by_cases hindex : isIndex segment = true
      · cases hread : readIndex segment with
        | error f => simp [walk, hindex, hread]
        | ok i =>
          cases hitem : items[i]? with
          | none => simp [walk, hindex, hread, hitem]
          | some item =>
            simp only [walk, if_pos hindex, hread, hitem, ih, StumblesOn, reduceCtorEq,
              exists_false, and_false, false_or]
      · simp [walk, hindex]
    | _ => simp [walk]

/-- Only paths that stumble have no value in a record. -/
theorem resolve_eq_error_iff {path record : Value} :
    (∃ f, path.resolve record .missing = .error f) ↔ path.Stumbles record := by
  rw [Stumbles, ← walk_eq_error_iff]
  by_cases hlacks : path.LacksText record
  · exact iff_of_true ⟨_, hlacks.resolve_eq⟩ (.inl hlacks)
  rw [or_iff_right hlacks]
  by_cases hnull : record = .null
  · obtain ⟨segment, rest, hsegments⟩ := List.exists_cons_of_ne_nil (segments_ne_nil path)
    simp [hnull, resolve_null, hsegments, walk]
  cases htruthy : path.isTruthy with
  | false => simp [resolve_of_not_isTruthy htruthy]
  | true =>
    have hfew : path.HasFewDigits := by_contra fun hmany => hlacks ⟨htruthy, hnull, hmany⟩
    simp [resolve_of_isTruthy htruthy hfew, hfew]

/-- A path without a value in a record has no text, or tells what is wrong with one of its
segments. -/
theorem exists_of_resolve_eq_error {path record default : Value} {f : Fault}
    (h : path.resolve record default = .error f) :
    path.LacksText record ∨
      ∃ segment ∈ path.segments, isIndex segment = true ∧ readIndex segment = .error f := by
  rcases resolve_cases path record default with
    ⟨v, -, hv⟩ | hdefault | ⟨-, segment, hmem, g, hfalse, hread, hg⟩ | hlacks
  · cases hv.symm.trans h
  · cases hdefault.symm.trans h
  · cases hg.symm.trans h
    exact .inr ⟨segment, hmem, (isFalseIndex_iff.mp hfalse).1, hread⟩
  · exact .inl hlacks

end Value

end Loyalty
