import Loyalty.Proofs.Condition.Formula
import Loyalty.Proofs.Engine.Selection

/-!
# Conditions that test nothing

A condition in which no node is a simple one with one of the operators asks nothing
about the record. As long as the notices have words for the operators that there are not,
its evaluation comes to an answer, the same for every record, and the answer is no unless
the condition is vacuously true: absent, a conjunction that nothing in it speaks against,
or a disjunction with such a part.
-/

namespace Loyalty

namespace Condition

/-- A condition has a test if a simple node somewhere in it has one of the operators. -/
inductive HasTest : Condition → Prop
  /-- The node is a test. -/
  | simple {field operator value : Value} (op : Operator)
    (hop : Operator.ofValue? operator = some op) : HasTest (.simple field operator value)
  /-- A test is below the node. -/
  | child {c : Connective} {children : List Condition} {child : Condition}
    (hmem : child ∈ children) (h : HasTest child) : HasTest (.compound c children)

/-- A simple node has a test if its operator is one. -/
theorem hasTest_simple_iff {field operator value : Value} :
    HasTest (.simple field operator value) ↔ ∃ op, Operator.ofValue? operator = some op := by
  constructor
  · rintro ⟨op, hop⟩
    exact ⟨op, hop⟩
  · rintro ⟨op, hop⟩
    exact .simple op hop

/-- A compound node has a test if one of its children does. -/
theorem hasTest_compound_iff {c : Connective} {children : List Condition} :
    HasTest (.compound c children) ↔ ∃ child ∈ children, child.HasTest := by
  constructor
  · intro h
    cases h with
    | child hmem h => exact ⟨_, hmem, h⟩
  · rintro ⟨child, hmem, h⟩
    exact .child hmem h

/-- A malformed node has no test. -/
theorem not_hasTest_malformed {raw : Value} {fault : ShapeFault} :
    ¬ HasTest (.malformed raw fault) := by
  rintro ⟨⟩

/-- A condition that is true without a test. -/
inductive Vacuous : Condition → Prop
  /-- Nothing is asked where a condition is absent. -/
  | absent {raw : Value} {fault : ShapeFault} (h : raw.isTruthy = false) :
    Vacuous (.malformed raw fault)
  /-- Nothing in a conjunction speaks against it, if anything is in it at all. -/
  | all {children : List Condition} (h : ∀ child ∈ children, Vacuous child) :
    Vacuous (.compound .all children)
  /-- Something in a disjunction is true without a test. -/
  | any {children : List Condition} {child : Condition} (hmem : child ∈ children)
    (h : Vacuous child) : Vacuous (.compound .any children)

/-- A malformed node is vacuous if there is nothing in its place. -/
theorem vacuous_malformed_iff {raw : Value} {fault : ShapeFault} :
    Vacuous (.malformed raw fault) ↔ raw.isTruthy = false := by
  constructor
  · rintro ⟨h⟩
    exact h
  · exact .absent

/-- A simple node is not vacuous. -/
theorem not_vacuous_simple {field operator value : Value} :
    ¬ Vacuous (.simple field operator value) := by
  rintro ⟨⟩

/-- A conjunction is vacuous if its parts are. -/
theorem vacuous_all_iff {children : List Condition} :
    Vacuous (.compound .all children) ↔ ∀ child ∈ children, child.Vacuous := by
  constructor
  · intro h
    cases h with
    | all h => exact h
  · exact .all

/-- A disjunction is vacuous if one of its parts is. -/
theorem vacuous_any_iff {children : List Condition} :
    Vacuous (.compound .any children) ↔ ∃ child ∈ children, child.Vacuous := by
  constructor
  · intro h
    cases h with
    | any hmem h => exact ⟨_, hmem, h⟩
  · rintro ⟨child, hmem, h⟩
    exact .any hmem h

/-- A simple node with an operator is a test wherever it stands. -/
theorem HasNode.hasTest {c node : Condition} (h : c.HasNode node) (htest : node.HasTest) :
    c.HasTest := by
  induction h with
  | root c => exact htest
  | child hmem _ ih => exact .child hmem (ih htest)

/-- Every operator in a condition can be told in a notice. -/
def HasTellableOperators : Condition → Prop :=
  ForallTests fun _ operator _ => operator.HasFewDigits

/-- Without a test, every simple node comes to an answer if its operator can be told. -/
theorem answerable_of_not_hasTest {c : Condition} (hnone : ¬ c.HasTest)
    (hfew : c.HasTellableOperators) (marks : Identity) (record : Value) :
    c.Answerable marks record := by
  intro field operator value hnode
  have hoperator : Operator.ofValue? operator = none := by
    cases hop : Operator.ofValue? operator with
    | none => rfl
    | some op => exact absurd (hnode.hasTest (.simple op hop)) hnone
  refine ⟨false, ?_⟩
  simp only [evaluate, evaluateSimple, hoperator,
    Value.display_of_hasFewDigits (hfew field operator value hnode)]
  rfl

/-- Without a test, a condition that holds is vacuous. -/
theorem holds_iff_vacuous {c : Condition} (hnone : ¬ c.HasTest) (marks : Identity)
    (record : Value) : c.Holds marks record ↔ c.Vacuous := by
  induction c using treeInduction with
  | simple field operator value =>
    refine iff_of_false ?_ not_vacuous_simple
    intro h
    cases h with
    | test hop => exact hnone (.simple _ hop)
  | malformed raw fault => rw [holds_malformed_iff, vacuous_malformed_iff]
  | compound c children ih =>
    have hchild : ∀ child ∈ children, (child.Holds marks record ↔ child.Vacuous) :=
      fun child hmem => ih child hmem fun h => hnone (.child hmem h)
    cases c with
    | all =>
      rw [holds_all_iff, vacuous_all_iff]
      exact forall₂_congr hchild
    | any =>
      rw [holds_any_iff, vacuous_any_iff]
      exact exists_congr fun child => and_congr_right (hchild child)

/-- A condition without a test is closed unless it is vacuous. Whatever the record is, an
answer of its evaluation is no exactly if the condition is not vacuous, there is an answer
if the operators in it can be told, and an engine that holds a rule with it applies the
rule only if it is vacuous. -/
theorem closed_of_not_hasTest {v : Value} (hnone : ¬ (ofValue v).HasTest) (record : Value) :
    (∀ marks answer, ((ofValue v).evaluate marks record).outcome = .ok answer →
      (answer = false ↔ ¬ (ofValue v).Vacuous)) ∧
    ((ofValue v).HasTellableOperators →
      ∀ marks, ∃ answer, ((ofValue v).evaluate marks record).outcome = .ok answer) ∧
    ∀ (r : Rule) (nan : Identity) (rules : List Rule), Fields.get r.fields "condition" = v →
      r ∈ selected nan record rules → (ofValue v).Vacuous := by
  have hvacuous : ∀ marks answer, ((ofValue v).evaluate marks record).outcome = .ok answer →
      (answer = true ↔ (ofValue v).Vacuous) := by
    intro marks answer hanswer
    rw [holds_iff_of_outcome hanswer, holds_iff_vacuous hnone]
  refine ⟨?_, fun hfew marks =>
    (answerable_of_not_hasTest hnone hfew marks record).exists_outcome, ?_⟩
  · intro marks answer hanswer
    rw [← hvacuous marks answer hanswer, Bool.not_eq_true]
  · rintro r nan rules rfl hselected
    have hholds : r.holds record = true := (mem_of_mem_selected hselected).2
    rw [Rule.holds, Rule.condition] at hholds
    split at hholds
    · next hanswer => exact (hvacuous _ _ hanswer).mp hholds
    · cases hholds

/-- Three ways to be invalid below a disjunction: an operator that there is not, a value
that is no object, and a conjunction without its array. -/
def brokenCondition : Value :=
  .object [("operator", .text "OR"), ("conditions", .list [
    .object [("field", .text "tier"), ("operator", .text "??")],
    .text "junk",
    .object [("operator", .text "AND"), ("conditions", .text "nope")]])]

/-- The nodes of the invalid condition. -/
private theorem brokenTree : ofValue brokenCondition =
    .compound .any [.simple (.text "tier") (.text "??") .null,
      .malformed (.text "junk") .notObject,
      .malformed (.object [("operator", .text "AND"), ("conditions", .text "nope")])
        (.noConditions .all)] := rfl

/-- A condition that is invalid all through is closed for gold. -/
theorem closed_of_not_hasTest_broken :
    ¬ (ofValue brokenCondition).HasTest ∧ (ofValue brokenCondition).HasTellableOperators ∧
      ¬ (ofValue brokenCondition).Vacuous ∧
      ((ofValue brokenCondition).evaluate .distinct goldRecord).outcome = .ok false := by
  have hnone : ¬ (ofValue brokenCondition).HasTest := by
    rw [brokenTree, hasTest_compound_iff]
    simp [hasTest_simple_iff, not_hasTest_malformed, Operator.ofValue?, Operator.all,
      Operator.symbol]
  have htellable : (ofValue brokenCondition).HasTellableOperators := by
    rw [brokenTree, HasTellableOperators, forallTests_compound]
    simp [forallTests_simple, forallTests_malformed]
  have hvacuous : ¬ (ofValue brokenCondition).Vacuous := by
    rw [brokenTree, vacuous_any_iff]
    simp [vacuous_malformed_iff, not_vacuous_simple, Value.isTruthy]
  obtain ⟨hclosed, hanswers, -⟩ := closed_of_not_hasTest hnone goldRecord
  obtain ⟨answer, hanswer⟩ := hanswers htellable .distinct
  obtain rfl := (hclosed .distinct answer hanswer).mpr hvacuous
  exact ⟨hnone, htellable, hvacuous, hanswer⟩

/-- A conjunction of nothing. -/
def emptyConjunction : Value := .object [("operator", .text "AND"), ("conditions", .list [])]

/-- A conjunction of nothing is present and has no test, and still it holds of every
record. -/
theorem not_closed_emptyConjunction :
    emptyConjunction.isTruthy = true ∧ ¬ (ofValue emptyConjunction).HasTest ∧
      ∀ record, ((ofValue emptyConjunction).evaluate .distinct record).outcome = .ok true := by
  have htree : ofValue emptyConjunction = .compound .all [] := rfl
  refine ⟨rfl, ?_, fun _ => rfl⟩
  rw [htree, hasTest_compound_iff]
  simp

end Condition

end Loyalty
