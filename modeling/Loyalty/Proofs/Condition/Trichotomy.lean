import Loyalty.Condition.Test
import Loyalty.Proofs.Number.Exact

/-!
# Less, equal and greater

Equality of numbers goes by their exact values, but an order goes by the doubles that stand in
their places. Rounding keeps the order, so that the two agree unless different numbers have one
double in their places. That takes an integer of more than 53 binary digits. Such numbers are
neither less, equal nor greater, and they are both at most and at least each other.
-/

namespace Loyalty

namespace Number

variable {x y : Number}

/-- A finite number that a double can stand in for. -/
structure HasDouble (x : Number) : Prop where
  finite : x.Finite
  ne_none : x.toDouble? ≠ none

/-- Two different numbers have one double in their places. -/
def Merges (x y : Number) : Prop :=
  x.value ≠ y.value ∧ x.toDouble?.map Double.value = y.toDouble?.map Double.value

/-- The double in place of a number is finite and the one nearest to it. -/
theorem HasDouble.exists_toDouble? (hx : x.HasDouble) :
    ∃ d, x.toDouble? = some d ∧ d.isFinite = true ∧ d.IsNearest x.value := by
  obtain ⟨d, hd⟩ := Option.ne_none_iff_exists'.mp hx.ne_none
  exact ⟨d, hd, isNearest_of_toDouble? hd hx.finite⟩

/-- An integer of up to 53 binary digits, or a double. -/
def IsExact : Number → Prop
  | .int n => n.natAbs < 9007199254740992
  | .double _ => True

/-- The double in place of such a number has its value. -/
theorem IsExact.value_eq (h : x.IsExact) {d : Double} (hd : x.toDouble? = some d) :
    d.value = x.value := by
  cases x with
  | int n =>
    obtain ⟨-, hnearest⟩ := Double.ofInt?_eq_some_iff.mp hd
    rw [← hnearest, value_int]
    exact (Double.nearestInt_of_lt h).2
  | double y =>
    cases hd
    rfl

/-- Different numbers have different doubles unless one of them is a long integer. -/
theorem not_merges_of_isExact (hx : x.IsExact) (hy : y.IsExact) (hxd : x.HasDouble)
    (hyd : y.HasDouble) : ¬ x.Merges y := by
  rintro ⟨hne, hmap⟩
  obtain ⟨d, hd, -⟩ := hxd.exists_toDouble?
  obtain ⟨e, he, -⟩ := hyd.exists_toDouble?
  rw [hd, he, Option.map_some, Option.map_some, Option.some.injEq, hx.value_eq hd,
    hy.value_eq he] at hmap
  exact hne hmap

/-- Doubles in the places of numbers that do not merge are in the order of the numbers. -/
theorem lt_iff_of_not_merges {d e : Double} (hd : x.toDouble? = some d) (he : y.toDouble? = some e)
    (hx : x.Finite) (hy : y.Finite) (h : ¬ x.Merges y) :
    (d.value < e.value ↔ x.value < y.value) ∧ (d.value = e.value ↔ x.value = y.value) := by
  obtain ⟨hdfinite, hdnearest⟩ := isNearest_of_toDouble? hd hx
  obtain ⟨hefinite, henearest⟩ := isNearest_of_toDouble? he hy
  have hmono : x.value ≤ y.value → d.value ≤ e.value := fun hle =>
    hdnearest.value_le henearest hdfinite hefinite hle
  have hmono' : y.value ≤ x.value → e.value ≤ d.value := fun hle =>
    henearest.value_le hdnearest hefinite hdfinite hle
  have heq : d.value = e.value ↔ x.value = y.value := by
    constructor
    · intro hdouble
      by_contra hne
      refine h ⟨hne, ?_⟩
      rw [hd, he, Option.map_some, Option.map_some, hdouble]
    · intro hvalue
      exact le_antisymm (hmono hvalue.le) (hmono' hvalue.ge)
  refine ⟨⟨fun hlt => ?_, fun hlt => ?_⟩, heq⟩
  · by_contra hle
    exact absurd (hmono' (not_lt.mp hle)) (not_le.mpr hlt)
  · exact lt_of_le_of_ne (hmono hlt.le) fun hdouble => hlt.ne (heq.mp hdouble)

end Number

namespace Operator

variable {marks : Identity} {x y : Number}

/-- An operator answers yes on two numbers, the first being in the record. -/
def Relates (marks : Identity) (op : Operator) (x y : Number) : Prop :=
  op.test marks (.number x) (.number y) = .ok true

/-- The operators that compare. -/
def comparisons : List Operator := [.less, .equal, .greater, .lessOrEqual, .greaterOrEqual]

/-- One of three statements holds and no other. -/
def ExactlyOne (p q r : Prop) : Prop := p ∧ ¬ q ∧ ¬ r ∨ ¬ p ∧ q ∧ ¬ r ∨ ¬ p ∧ ¬ q ∧ r

/-- An order of numbers asks about the doubles in their places. -/
theorem compareAmounts_number {order : Double → Double → Bool} {d e : Double}
    (hd : x.toDouble? = some d) (he : y.toDouble? = some e) :
    compareAmounts order (.number x) (.number y) = .ok (order d e) := by
  simp only [compareAmounts, Value.amount, hd, he]
  rfl

/-- Equality of finite numbers is equality of their exact values. -/
theorem relates_equal_iff (hx : x.Finite) (hy : y.Finite) :
    Relates marks .equal x y ↔ x.value = y.value := by
  have hloose : Value.looseEq .distinct marks (.number x) (.number y) = true ↔ x.Same y := by
    rw [Value.looseEq_of_number? rfl, ← Number.numberEq_distinct_iff]
    simp [Value.number?]
  rw [Relates, test, Except.ok.injEq, Value.strictEq, Bool.and_eq_true, hloose]
  constructor
  · rintro ⟨-, hsame⟩
    cases hsame with
    | finite _ _ h => exact h
    | infinity negative => cases hx
  · exact fun h => ⟨rfl, .finite hx hy h⟩

/-- Comparisons by order are comparisons of the doubles in the places of the numbers. -/
theorem relates_order_iff {d e : Double} (hd : x.toDouble? = some d) (he : y.toDouble? = some e)
    (hdfinite : d.isFinite = true) (hefinite : e.isFinite = true) :
    (Relates marks .less x y ↔ d.value < e.value) ∧
      (Relates marks .greater x y ↔ e.value < d.value) ∧
      (Relates marks .lessOrEqual x y ↔ d.value ≤ e.value) ∧
      (Relates marks .greaterOrEqual x y ↔ e.value ≤ d.value) := by
  simp only [Relates, test, compareAmounts_number hd he, Except.ok.injEq,
    Double.lt_iff_of_isFinite hdfinite hefinite, Double.lt_iff_of_isFinite hefinite hdfinite,
    Double.le_iff_of_isFinite hdfinite hefinite, Double.le_iff_of_isFinite hefinite hdfinite,
    and_self]

/-- A comparison of numbers that doubles can stand in for comes to an answer. -/
theorem exists_test_of_mem_comparisons {op : Operator} (hop : op ∈ comparisons)
    (hx : x.HasDouble) (hy : y.HasDouble) :
    ∃ b, op.test marks (.number x) (.number y) = .ok b := by
  obtain ⟨d, hd, -⟩ := hx.exists_toDouble?
  obtain ⟨e, he, -⟩ := hy.exists_toDouble?
  simp only [comparisons, List.mem_cons, List.not_mem_nil, or_false] at hop
  rcases hop with rfl | rfl | rfl | rfl | rfl
  · exact ⟨_, compareAmounts_number hd he⟩
  · exact ⟨_, rfl⟩
  · exact ⟨_, compareAmounts_number hd he⟩
  · exact ⟨_, compareAmounts_number hd he⟩
  · exact ⟨_, compareAmounts_number hd he⟩

/-- Numbers that do not merge are in one of three relations by their exact values. -/
theorem exactlyOne_of_not_merges (hx : x.HasDouble) (hy : y.HasDouble) (h : ¬ x.Merges y) :
    ExactlyOne (Relates marks .less x y) (Relates marks .equal x y) (Relates marks .greater x y) ∧
      (Relates marks .lessOrEqual x y ↔ Relates marks .less x y ∨ Relates marks .equal x y) ∧
      (Relates marks .greaterOrEqual x y ↔ Relates marks .greater x y ∨ Relates marks .equal x y) ∧
      (Relates marks .less x y ↔ x.value < y.value) := by
  obtain ⟨d, hd, hdfinite, -⟩ := hx.exists_toDouble?
  obtain ⟨e, he, hefinite, -⟩ := hy.exists_toDouble?
  obtain ⟨hless, hgreater, hle, hge⟩ := @relates_order_iff marks x y d e hd he hdfinite hefinite
  have hequal := @relates_equal_iff marks x y hx.finite hy.finite
  obtain ⟨horder, hvalues⟩ := Number.lt_iff_of_not_merges hd he hx.finite hy.finite h
  rw [← hvalues] at hequal
  rw [hless, hgreater, hle, hge, hequal]
  refine ⟨?_, le_iff_lt_or_eq, ?_, horder⟩
  · rcases lt_trichotomy d.value e.value with hlt | heq | hgt
    · exact .inl ⟨hlt, hlt.ne, hlt.not_gt⟩
    · exact .inr (.inl ⟨heq.not_lt, heq, heq.not_gt⟩)
    · exact .inr (.inr ⟨hgt.not_gt, hgt.ne', hgt⟩)
  · rw [le_iff_lt_or_eq, eq_comm]

/-- Numbers that merge are in none of them, and they are at most and at least each other. -/
theorem not_relates_of_merges (hx : x.HasDouble) (hy : y.HasDouble) (h : x.Merges y) :
    ¬ Relates marks .less x y ∧ ¬ Relates marks .equal x y ∧ ¬ Relates marks .greater x y ∧
      Relates marks .lessOrEqual x y ∧ Relates marks .greaterOrEqual x y := by
  obtain ⟨d, hd, hdfinite, -⟩ := hx.exists_toDouble?
  obtain ⟨e, he, hefinite, -⟩ := hy.exists_toDouble?
  obtain ⟨hless, hgreater, hle, hge⟩ := @relates_order_iff marks x y d e hd he hdfinite hefinite
  obtain ⟨hne, hmap⟩ := h
  have hdouble : d.value = e.value := by
    rw [hd, he, Option.map_some, Option.map_some, Option.some.injEq] at hmap
    exact hmap
  rw [hless, hgreater, hle, hge, relates_equal_iff hx.finite hy.finite]
  exact ⟨hdouble.not_lt, hne, hdouble.not_gt, hdouble.le, hdouble.ge⟩

/-- Every comparison of two finite numbers that doubles can stand in for comes to an answer.
Unless they are different numbers with one double in their places, exactly one of less, equal
and greater holds of them, and at most and at least are these or equal; less is less by exact
value. If they are, none of the three holds and both of the others do; one of the numbers is then
an integer of more than 53 binary digits. -/
theorem exactlyOne_comparison (hx : x.HasDouble) (hy : y.HasDouble) :
    (∀ op ∈ comparisons, ∃ b, op.test marks (.number x) (.number y) = .ok b) ∧
    (¬ x.Merges y →
      ExactlyOne (Relates marks .less x y) (Relates marks .equal x y)
        (Relates marks .greater x y) ∧
      (Relates marks .lessOrEqual x y ↔ Relates marks .less x y ∨ Relates marks .equal x y) ∧
      (Relates marks .greaterOrEqual x y ↔
        Relates marks .greater x y ∨ Relates marks .equal x y) ∧
      (Relates marks .less x y ↔ x.value < y.value)) ∧
    (x.Merges y →
      ¬ Relates marks .less x y ∧ ¬ Relates marks .equal x y ∧ ¬ Relates marks .greater x y ∧
      Relates marks .lessOrEqual x y ∧ Relates marks .greaterOrEqual x y ∧
      (¬ x.IsExact ∨ ¬ y.IsExact)) := by
  refine ⟨fun op hop => exists_test_of_mem_comparisons hop hx hy,
    exactlyOne_of_not_merges hx hy, fun h => ?_⟩
  obtain ⟨hless, hequal, hgreater, hle, hge⟩ := @not_relates_of_merges marks x y hx hy h
  refine ⟨hless, hequal, hgreater, hle, hge, ?_⟩
  by_contra hexact
  rw [not_or, not_not, not_not] at hexact
  exact Number.not_merges_of_isExact hexact.1 hexact.2 hx hy h

/-- The integer 6000 and the double 2.5 have doubles in their places, and are in exactly one of
the three relations. -/
theorem exactlyOne_comparison_sixThousand :
    (Number.int 6000).HasDouble ∧ (Number.double (Double.ofRatio false 5 2)).HasDouble ∧
    ¬ (Number.int 6000).Merges (.double (Double.ofRatio false 5 2)) ∧
    ExactlyOne (Relates .distinct .less (.int 6000) (.double (Double.ofRatio false 5 2)))
      (Relates .distinct .equal (.int 6000) (.double (Double.ofRatio false 5 2)))
      (Relates .distinct .greater (.int 6000) (.double (Double.ofRatio false 5 2))) := by
  have hx : (Number.int 6000).HasDouble := ⟨trivial, by decide +kernel⟩
  have hy : (Number.double (Double.ofRatio false 5 2)).HasDouble :=
    ⟨by unfold Number.Finite; decide +kernel, by simp [Number.toDouble?]⟩
  have hmerges : ¬ (Number.int 6000).Merges (.double (Double.ofRatio false 5 2)) :=
    Number.not_merges_of_isExact (by unfold Number.IsExact; decide) trivial hx hy
  exact ⟨hx, hy, hmerges, ((exactlyOne_comparison hx hy).2.1 hmerges).1⟩

/-- The first integer without a double of its own is not greater than the one before it and not
equal to it, and it is not less either. It is at least that one all the same. -/
theorem not_exactlyOne_longIntegers :
    (Number.int 9007199254740993).HasDouble ∧ (Number.int 9007199254740992).HasDouble ∧
    ¬ ExactlyOne (Relates .distinct .less (.int 9007199254740993) (.int 9007199254740992))
      (Relates .distinct .equal (.int 9007199254740993) (.int 9007199254740992))
      (Relates .distinct .greater (.int 9007199254740993) (.int 9007199254740992)) ∧
    ¬ (Relates .distinct .greaterOrEqual (.int 9007199254740993) (.int 9007199254740992) ↔
      Relates .distinct .greater (.int 9007199254740993) (.int 9007199254740992) ∨
        Relates .distinct .equal (.int 9007199254740993) (.int 9007199254740992)) := by
  have hx : (Number.int 9007199254740993).HasDouble := ⟨trivial, by decide +kernel⟩
  have hy : (Number.int 9007199254740992).HasDouble := ⟨trivial, by decide +kernel⟩
  have hdouble : (Number.int 9007199254740993).toDouble? =
      (Number.int 9007199254740992).toDouble? := by decide +kernel
  have hmerges : (Number.int 9007199254740993).Merges (.int 9007199254740992) := by
    refine ⟨?_, congrArg _ hdouble⟩
    rw [Number.value_int, Number.value_int]
    norm_num
  obtain ⟨hless, hequal, hgreater, -, hge⟩ :=
    @not_relates_of_merges .distinct _ _ hx hy hmerges
  exact ⟨hx, hy, by simp [ExactlyOne, hless, hequal, hgreater], by simp [hequal, hgreater, hge]⟩

end Operator

end Loyalty
