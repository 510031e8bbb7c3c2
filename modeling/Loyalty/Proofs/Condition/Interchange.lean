import Loyalty.Proofs.Condition.Formula
import Loyalty.Proofs.Json.Comparison
import Loyalty.Proofs.Json.Documents
import Loyalty.Proofs.Number.Exact

/-!
# Equal scalars are interchangeable

Scalars that equal each other in a condition are the same, or they are numbers of one exact
value. Whatever an operator looks at in a number, be it its place on the line, its text or
whether it equals something else, depends on that value alone. So no operator tells equal
scalars apart, on neither side, and no condition tells apart the records that they arrive in.
-/

namespace Loyalty

namespace Value

variable {nan marks : Identity} {x y : Number}

/-- Null, a truth value, a number or a text. -/
inductive IsScalar : Value → Prop where
  | null : IsScalar .null
  | bool (b : Bool) : IsScalar (.bool b)
  | number (n : Number) : IsScalar (.number n)
  | text (s : String) : IsScalar (.text s)

/-- Only what counts as a number is equal to a number. -/
theorem looseEq_number_iff {v : Value} :
    looseEq nan marks v (.number x) = true ↔ ∃ z, v.number? = some z ∧ numberEq nan z x = true := by
  cases v <;> simp [looseEq, number?]

/-- Equal scalars are the same value, or the same number. -/
theorem eq_or_same_of_strictEq {a b : Value} (ha : a.IsScalar) (h : a.strictEq marks b = true) :
    a = b ∨ ∃ x y, a = .number x ∧ b = .number y ∧ x.Same y := by
  rw [strictEq, Bool.and_eq_true, beq_iff_eq] at h
  obtain ⟨hbool, heq⟩ := h
  cases ha with
  | null =>
    cases b with
    | null => exact .inl rfl
    | _ => simp [looseEq] at heq
  | text s =>
    cases b with
    | text t => exact .inl (by simpa [looseEq] using heq)
    | _ => simp [looseEq] at heq
  | bool c =>
    cases b with
    | bool d =>
      obtain ⟨y, hy, heq⟩ := (looseEq_of_number? rfl _).mp heq
      cases hy
      exact .inl (congrArg _ (Number.numberEq_distinct_iff.mp heq).flag_inj)
    | _ => cases hbool
  | number x =>
    obtain ⟨y, hy, heq⟩ := (looseEq_of_number? rfl b).mp heq
    cases b with
    | number z =>
      cases hy
      exact .inr ⟨x, y, rfl, rfl, Number.numberEq_distinct_iff.mp heq⟩
    | bool d => cases hbool
    | _ => cases hy

/-- The same numbers equal the same values, on either side. -/
theorem strictEq_of_same (h : x.Same y) (v : Value) :
    strictEq marks (.number x) v = strictEq marks (.number y) v ∧
      strictEq marks v (.number x) = strictEq marks v (.number y) := by
  have hxy := Number.numberEq_distinct_iff.mpr h
  have hyx := numberEq_symm hxy
  have hleft : looseEq .distinct marks (.number x) v = looseEq .distinct marks (.number y) v := by
    rw [Bool.eq_iff_iff, looseEq_of_number? rfl, looseEq_of_number? rfl]
    exact exists_congr fun z => and_congr_right fun _ => ⟨numberEq_trans hyx, numberEq_trans hxy⟩
  have hright : looseEq .distinct marks v (.number x) = looseEq .distinct marks v (.number y) := by
    rw [Bool.eq_iff_iff, looseEq_number_iff, looseEq_number_iff]
    exact exists_congr fun z => and_congr_right fun _ =>
      ⟨fun hz => numberEq_trans hz hxy, fun hz => numberEq_trans hz hyx⟩
  simp only [strictEq, hleft, hright]
  exact ⟨rfl, rfl⟩

end Value

namespace Operator

variable {marks : Identity} {x y : Number}

/-- Comparisons that go by places on the line do not tell the same numbers apart. -/
theorem compareAmounts_of_same {order : Double → Double → Bool}
    (horder : ∀ {d e}, d.level? = e.level? → ∀ z, order d z = order e z ∧ order z d = order z e)
    (h : x.Same y) (v : Value) :
    compareAmounts order (.number x) v = compareAmounts order (.number y) v ∧
      compareAmounts order v (.number x) = compareAmounts order v (.number y) := by
  have hmap := h.map_toDouble?
  cases hx : x.toDouble? with
  | none =>
    rw [hx, Option.map_none, eq_comm, Option.map_eq_none_iff] at hmap
    have hamount : Value.amount (.number x) = Value.amount (.number y) := by
      simp only [Value.amount, hx, hmap]
    rw [compareAmounts, compareAmounts, compareAmounts, compareAmounts, hamount]
    exact ⟨rfl, rfl⟩
  | some d =>
    rw [hx, Option.map_some, eq_comm, Option.map_eq_some_iff] at hmap
    obtain ⟨e, hy, hlevel⟩ := hmap
    have hd : Value.amount (.number x) = .ok d := by simp only [Value.amount, hx]
    have he : Value.amount (.number y) = .ok e := by simp only [Value.amount, hy]
    have horder := horder hlevel.symm
    rw [compareAmounts, compareAmounts, compareAmounts, compareAmounts, hd, he]
    cases v.amount with
    | error f => exact ⟨rfl, rfl⟩
    | ok z => exact ⟨congrArg Except.ok (horder z).1, congrArg Except.ok (horder z).2⟩

/-- Neither strict comparison nor its reverse tells doubles at one place apart. -/
theorem lt_of_level?_eq {d e : Double} (h : d.level? = e.level?) (z : Double) :
    d.lt z = e.lt z ∧ z.lt d = z.lt e := by
  simp only [Double.lt, h, and_self]

/-- Comparisons with equality do not either. -/
theorem le_of_level?_eq {d e : Double} (h : d.level? = e.level?) (z : Double) :
    d.le z = e.le z ∧ z.le d = z.le e := by
  simp only [Double.le, Double.lt, Double.eq, h, and_self]

/-- The same numbers have few digits together. -/
theorem hasFewDigits_of_same (h : x.Same y) :
    (Value.number x).HasFewDigits ↔ (Value.number y).HasFewDigits := by
  rw [Value.hasFewDigits_number, Value.hasFewDigits_number]
  exact ⟨Json.hasTooManyDigits_of_eq (Number.eq_iff_same.mpr h.symm),
    Json.hasTooManyDigits_of_eq (Number.eq_iff_same.mpr h)⟩

/-- The same numbers have the same plain text, or none. -/
theorem plainText_of_same (h : x.Same y) :
    (Value.number x).plainText = (Value.number y).plainText := by
  by_cases hfew : (Value.number x).HasFewDigits
  · rw [Value.plainText_number hfew, Value.plainText_number ((hasFewDigits_of_same h).mp hfew),
      h.plainText_eq]
  · have hmany := mt (hasFewDigits_of_same h).mpr hfew
    rw [Value.plainText_eq_error_iff.mpr ⟨hfew, rfl⟩, Value.plainText_eq_error_iff.mpr ⟨hmany, rfl⟩]

/-- Tests on texts do not tell the same numbers apart. -/
theorem testTexts_of_same (test : List Char → List Char → Bool) (h : x.Same y) (v : Value) :
    testTexts test (.number x) v = testTexts test (.number y) v ∧
      testTexts test v (.number x) = testTexts test v (.number y) := by
  have htext := plainText_of_same h
  constructor
  · simp only [testTexts, htext]
  · cases v <;> simp only [testTexts, htext]

/-- Membership does not tell the same numbers apart, and they have no members. -/
theorem member?_of_same (h : x.Same y) (v : Value) :
    member? marks (.number x) v = member? marks (.number y) v ∧
      member? marks v (.number x) = member? marks v (.number y) := by
  refine ⟨?_, rfl⟩
  cases v with
  | array kind items =>
    have hitem : ∀ item : Value,
        item.strictEq marks (.number x) = item.strictEq marks (.number y) :=
      fun item => (Value.strictEq_of_same h item).2
    simp only [member?, hitem]
  | _ => rfl

/-- No operator tells the same numbers apart, on neither side. -/
theorem test_of_same (op : Operator) (h : x.Same y) (v : Value) :
    op.test marks (.number x) v = op.test marks (.number y) v ∧
      op.test marks v (.number x) = op.test marks v (.number y) := by
  obtain ⟨hleft, hright⟩ := @Value.strictEq_of_same marks x y h v
  obtain ⟨hmember, hmembers⟩ := @member?_of_same marks x y h v
  cases op with
  | equal => simp only [test, hleft, hright, and_self]
  | notEqual => simp only [test, hleft, hright, and_self]
  | greater => exact compareAmounts_of_same (fun hl z => (lt_of_level?_eq hl z).symm) h v
  | less => exact compareAmounts_of_same lt_of_level?_eq h v
  | greaterOrEqual => exact compareAmounts_of_same (fun hl z => (le_of_level?_eq hl z).symm) h v
  | lessOrEqual => exact compareAmounts_of_same le_of_level?_eq h v
  | isIn => simp only [test, hmember, hmembers, and_self]
  | notIn => simp only [test, hmember, hmembers, and_self]
  | contains | startsWith | endsWith =>
    simp only [test]
    exact testTexts_of_same _ h v
  -- Numbers are no points of time, and no ranges of them.
  | isWeekend => exact ⟨rfl, rfl⟩
  | dateRange =>
    refine ⟨?_, rfl⟩
    cases v <;> rfl

end Operator

namespace Condition

/-- Scalars that equal each other in a condition are interchangeable. Every operator comes to the
same answer or to the same fault on either of them, whether it is the value of a field or the one
in the rule, and their texts are within the limit of digits together. So a condition comes to the
same on two records in which its fields have the same values but for some that arrive as the one
scalar in the one record and as the other in the other. -/
theorem test_eq_of_strictEq {marks : Identity} {a b : Value} (ha : a.IsScalar)
    (h : a.strictEq marks b = true) :
    (∀ (op : Operator) v,
      op.test marks a v = op.test marks b v ∧ op.test marks v a = op.test marks v b) ∧
    (a.HasFewDigits ↔ b.HasFewDigits) ∧
    ∀ c r₁ r₂, (ForallTests (fun field _ _ =>
        field.resolve r₁ .missing = field.resolve r₂ .missing ∨
          field.resolve r₁ .missing = .ok a ∧ field.resolve r₂ .missing = .ok b) c) →
      c.evaluate marks r₁ = c.evaluate marks r₂ := by
  have hboth : (∀ (op : Operator) v,
      op.test marks a v = op.test marks b v ∧ op.test marks v a = op.test marks v b) ∧
      (a.HasFewDigits ↔ b.HasFewDigits) := by
    rcases Value.eq_or_same_of_strictEq ha h with rfl | ⟨x, y, rfl, rfl, hsame⟩
    · exact ⟨fun _ _ => ⟨rfl, rfl⟩, Iff.rfl⟩
    · exact ⟨fun op => Operator.test_of_same op hsame, Operator.hasFewDigits_of_same hsame⟩
  refine ⟨hboth.1, hboth.2, fun c r₁ r₂ hfields => evaluate_congr_of_tests ?_⟩
  intro field operator value hnode
  rcases hfields field operator value hnode with hfield | ⟨ha, hb⟩
  · simp only [evaluateSimple, hfield]
  · cases hop : Operator.ofValue? operator with
    | none => simp only [evaluateSimple, hop]
    | some op =>
      have htest := (hboth.1 op value).1
      simp only [evaluateSimple, hop, ha, hb, Report.ofExcept, Report.bind_ok, htest]

/-- The number 6000 as a double. -/
def sixThousand : Value := .double (Double.nearestInt 6000)

/-- The number 6000 is interchangeable with the double of its value. -/
theorem test_eq_of_strictEq_sixThousand :
    (Value.int 6000).IsScalar ∧ (Value.int 6000).strictEq .distinct sixThousand = true ∧
      ∀ (op : Operator) v, op.test .distinct (.int 6000) v = op.test .distinct sixThousand v ∧
        op.test .distinct v (.int 6000) = op.test .distinct v sixThousand := by
  have heq : (Value.int 6000).strictEq .distinct sixThousand = true := by decide +kernel
  exact ⟨.number _, heq, (test_eq_of_strictEq (.number _) heq).1⟩

end Condition

end Loyalty
