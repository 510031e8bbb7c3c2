import Loyalty.Proofs.Condition.Breaking
import Mathlib.Logic.Basic
import Mathlib.Logic.Relation

/-!
# Conditions read as formulas

A condition is a formula about a record: conjunctions and disjunctions of tests, in which an
absent part is true and a malformed one false. Whenever its evaluation comes to an answer,
the answer is the truth of the formula. So where no simple node breaks, it does not matter in
which order the children of a node stand, how often each of them stands there, and whether a
node below one with the same connective is written out into it.
-/

namespace Loyalty

namespace Condition

variable {marks : Identity} {record : Value}

/-- The truth of a condition about a record. -/
inductive Holds (marks : Identity) (record : Value) : Condition → Prop
  /-- Nothing is asked where a condition is absent. -/
  | absent {raw : Value} {fault : ShapeFault} (h : raw.isTruthy = false) :
    Holds marks record (.malformed raw fault)
  /-- What a path leads to passes the test of an operator. -/
  | test {field operator value data : Value} {op : Operator}
    (hop : Operator.ofValue? operator = some op)
    (hdata : field.resolve record .missing = .ok data)
    (h : op.test marks data value = .ok true) : Holds marks record (.simple field operator value)
  /-- A conjunction holds if all its parts do. -/
  | all {children : List Condition} (h : ∀ child ∈ children, Holds marks record child) :
    Holds marks record (.compound .all children)
  /-- A disjunction holds if one of its parts does. -/
  | any {children : List Condition} {child : Condition} (hmem : child ∈ children)
    (h : Holds marks record child) : Holds marks record (.compound .any children)

/-- A malformed node holds if there is nothing in its place. -/
theorem holds_malformed_iff {raw : Value} {fault : ShapeFault} :
    Holds marks record (.malformed raw fault) ↔ raw.isTruthy = false := by
  constructor
  · rintro ⟨h⟩
    exact h
  · exact .absent

/-- A simple node holds if its evaluation says so. -/
theorem holds_simple_iff {field operator value : Value} :
    Holds marks record (.simple field operator value) ↔
      (evaluateSimple marks record field operator value).outcome = .ok true := by
  rw [evaluateSimple]
  cases hop : Operator.ofValue? operator with
  | none =>
    refine iff_of_false ?_ ?_
    · intro h
      cases h with
      | test hop' => cases hop.symm.trans hop'
    · simp only [Report.outcome_bind_eq_ok]
      rintro ⟨text, -, _, -, ⟨⟩⟩
  | some op =>
    simp only [Report.outcome_bind_eq_ok, Report.outcome_ofExcept]
    constructor
    · intro h
      cases h with
      | test hop' hdata h =>
        cases hop.symm.trans hop'
        exact ⟨_, hdata, h⟩
    · rintro ⟨data, hdata, h⟩
      exact .test hop hdata h

/-- A conjunction holds if its parts do. -/
theorem holds_all_iff {children : List Condition} :
    Holds marks record (.compound .all children) ↔
      ∀ child ∈ children, child.Holds marks record := by
  constructor
  · intro h
    cases h with
    | all h => exact h
  · exact .all

/-- A disjunction holds if one of its parts does. -/
theorem holds_any_iff {children : List Condition} :
    Holds marks record (.compound .any children) ↔
      ∃ child ∈ children, child.Holds marks record := by
  constructor
  · intro h
    cases h with
    | any hmem h => exact ⟨_, hmem, h⟩
  · rintro ⟨child, hmem, h⟩
    exact .any hmem h

/-- A compound node leaves the answer open if all its children do. -/
theorem holds_compound_iff {c : Connective} {children : List Condition} :
    (Holds marks record (.compound c children) ↔ c.undecided = true) ↔
      ∀ child ∈ children, (Holds marks record child ↔ c.undecided = true) := by
  cases c with
  | all => simp only [Connective.undecided, iff_true, holds_all_iff]
  | any => simp [Connective.undecided, holds_any_iff]

/-- Two conditions that leave the answer open together hold together. -/
theorem iff_of_undecided_iff {P Q : Prop} {c : Connective}
    (h : (P ↔ c.undecided = true) ↔ (Q ↔ c.undecided = true)) : P ↔ Q := by
  cases hopen : c.undecided with
  | true => simpa [hopen] using h
  | false =>
    rw [hopen] at h
    simpa only [Bool.false_eq_true, iff_false, not_iff_not] using h

/-- Whenever an evaluation comes to an answer, that is the truth of the condition, whatever
the nodes are that it did not visit. -/
theorem holds_iff_of_outcome {c : Condition} {answer : Bool}
    (h : (c.evaluate marks record).outcome = .ok answer) :
    answer = true ↔ c.Holds marks record := by
  induction c using treeInduction generalizing answer with
  | simple field operator value =>
    rw [holds_simple_iff, ← evaluate, h, Except.ok.injEq]
  | malformed raw fault =>
    rw [holds_malformed_iff]
    rw [evaluate] at h
    split at h
    · rename_i hraw
      cases h
      simp [hraw]
    · rename_i hraw
      cases h
      simpa using hraw
  | compound c children ih =>
    -- The evaluation goes on behind the first child only if that leaves the answer open.
    induction children with
    | nil =>
      rw [evaluate_compound_nil] at h
      cases h
      refine iff_of_undecided_iff (c := c) ?_
      simp [holds_compound_iff]
    | cons child children ihs =>
      rw [evaluate_compound_cons, Report.outcome_bind_eq_ok] at h
      obtain ⟨first, hfirst, hothers⟩ := h
      have hchild := ih child List.mem_cons_self hfirst
      refine iff_of_undecided_iff (c := c) ?_
      rw [holds_compound_iff, List.forall_mem_cons, ← hchild, ← holds_compound_iff]
      by_cases hopen : first = c.undecided
      · rw [if_pos hopen] at hothers
        have hrest := ihs (fun other hmem => ih other (List.mem_cons_of_mem _ hmem)) hothers
        rw [hrest, hopen]
        simp
      · rw [if_neg hopen] at hothers
        cases hothers
        simp [hopen]

/-- The nodes of a condition. -/
inductive HasNode : Condition → Condition → Prop
  /-- The root is a node. -/
  | root (c : Condition) : HasNode c c
  /-- A node of a child is a node. -/
  | child {c : Connective} {children : List Condition} {child node : Condition}
    (hmem : child ∈ children) (h : HasNode child node) : HasNode (.compound c children) node

/-- An evaluation visits nodes of the condition. -/
theorem Visits.hasNode {c node : Condition} (h : Visits marks record c node) : c.HasNode node := by
  induction h with
  | root c => exact .root c
  | child hreached _ ih => exact .child hreached.mem ih

/-- Every simple node of a condition has a property. -/
def ForallTests (P : Value → Value → Value → Prop) (c : Condition) : Prop :=
  ∀ field operator value, c.HasNode (.simple field operator value) → P field operator value

/-- A simple node has no other nodes. -/
theorem forallTests_simple {P : Value → Value → Value → Prop} {field operator value : Value} :
    (Condition.simple field operator value).ForallTests P ↔ P field operator value := by
  constructor
  · intro h
    exact h field operator value (.root _)
  · intro h _ _ _ hnode
    cases hnode
    exact h

/-- The simple nodes of a compound node are those of its children. -/
theorem forallTests_compound {P : Value → Value → Value → Prop} {c : Connective}
    {children : List Condition} :
    (Condition.compound c children).ForallTests P ↔ ∀ child ∈ children, child.ForallTests P := by
  constructor
  · intro h child hmem field operator value hnode
    exact h field operator value (.child hmem hnode)
  · intro h field operator value hnode
    cases hnode with
    | child hmem hnode => exact h _ hmem field operator value hnode

/-- There are no simple nodes in a malformed one. -/
theorem forallTests_malformed {P : Value → Value → Value → Prop} {raw : Value}
    {fault : ShapeFault} : (Condition.malformed raw fault).ForallTests P := by
  rintro _ _ _ ⟨⟩

/-- Records that no simple node of a condition tells apart are not told apart by it: it holds of
both or of none, or it breaks off alike, with the same notices. -/
theorem evaluate_congr_of_tests {record' : Value} {c : Condition}
    (h : c.ForallTests fun field operator value =>
      evaluateSimple marks record field operator value =
        evaluateSimple marks record' field operator value) :
    c.evaluate marks record = c.evaluate marks record' := by
  induction c using treeInduction with
  | simple field operator value => exact forallTests_simple.mp h
  | malformed raw fault => rfl
  | compound c children ih =>
    rw [forallTests_compound] at h
    induction children with
    | nil => rw [evaluate_compound_nil, evaluate_compound_nil]
    | cons child children ihs =>
      rw [List.forall_mem_cons] at h ih
      rw [evaluate_compound_cons, evaluate_compound_cons, ih.1 h.1, ihs ih.2 h.2]

/-- Every simple node of a condition comes to an answer when it is evaluated alone. -/
def Answerable (marks : Identity) (record : Value) : Condition → Prop :=
  ForallTests fun field operator value =>
    ∃ answer, ((Condition.simple field operator value).evaluate marks record).outcome = .ok answer

/-- A simple node comes to an answer if its evaluation does. -/
theorem answerable_simple_iff {field operator value : Value} :
    Answerable marks record (.simple field operator value) ↔
      ∃ answer, (evaluateSimple marks record field operator value).outcome = .ok answer :=
  forallTests_simple

/-- The simple nodes of a compound node come to answers if those of its children do. -/
theorem answerable_compound_iff {c : Connective} {children : List Condition} :
    Answerable marks record (.compound c children) ↔
      ∀ child ∈ children, child.Answerable marks record := forallTests_compound

/-- A condition whose simple nodes do comes to an answer. -/
theorem Answerable.exists_outcome {c : Condition} (h : c.Answerable marks record) :
    ∃ answer, (c.evaluate marks record).outcome = .ok answer := by
  rw [exists_evaluate_iff]
  intro node hvisits hbreaks
  cases node with
  | simple field operator value =>
    obtain ⟨f, hf⟩ := (@shows_fault_simple marks record field operator value).mpr hbreaks
    obtain ⟨answer, hanswer⟩ := h field operator value hvisits.hasNode
    cases hanswer.symm.trans hf
  | compound c children => cases hbreaks
  | malformed raw fault => cases hbreaks

/-- A value is a compound node with a connective and some children. -/
def Joins (v : Value) (c : Connective) (children : List Value) : Prop :=
  ∃ kind, Shape.of v = .compound c kind children

/-- The condition of a compound node joins those of the children. -/
theorem Joins.ofValue_eq {v : Value} {c : Connective} {children : List Value}
    (h : Joins v c children) : ofValue v = .compound c (children.map ofValue) := by
  obtain ⟨kind, hshape⟩ := h
  rw [Condition.ofValue_eq, hshape]

/-- A node that is written with a connective and some children. -/
def node (c : Connective) (children : List Value) : Value :=
  .object [("operator", .text c.symbol), ("conditions", .list children)]

/-- A written node joins its children. -/
theorem joins_node (c : Connective) (children : List Value) : Joins (node c children) c children := by
  cases c with
  | all => exact ⟨.list, rfl⟩
  | any => exact ⟨.list, rfl⟩

/-- The ways to write the children of a node with some connective in another way. -/
inductive Regroups (c : Connective) : List Value → List Value → Prop
  /-- The children can stand in any order. -/
  | permute {children others : List Value} (h : children.Perm others) :
    Regroups c children others
  /-- A child can stand there once more. -/
  | again {child : Value} {children : List Value} (hmem : child ∈ children) :
    Regroups c children (child :: children)
  /-- The children of a child with the same connective can stand in its place. -/
  | dissolve {before after inners : List Value} {inner : Value} (h : Joins inner c inners) :
    Regroups c (before ++ inner :: after) (before ++ inners ++ after)

/-- One value is another one with the children of a node, at any depth, written in another
way. -/
inductive Rearranges : Value → Value → Prop
  /-- The node is the root. -/
  | root {v w : Value} {c : Connective} {children others : List Value}
    (hv : Joins v c children) (hw : Joins w c others) (h : Regroups c children others) :
    Rearranges v w
  /-- The node is below a child. -/
  | child {v w child other : Value} {c : Connective} {before after : List Value}
    (hv : Joins v c (before ++ child :: after)) (hw : Joins w c (before ++ other :: after))
    (h : Rearranges child other) : Rearranges v w

/-- Two values that any number of such changes, or their reversals, lead from one to the
other. -/
def Rearranged : Value → Value → Prop := Relation.EqvGen Rearranges

/-- What a node has exactly if its children do, it has however they are written. -/
theorem Regroups.forall_iff {c : Connective} {children others : List Value} {P : Value → Prop}
    (hP : ∀ {inner inners}, Joins inner c inners → (P inner ↔ ∀ v ∈ inners, P v))
    (h : Regroups c children others) : (∀ v ∈ children, P v) ↔ ∀ v ∈ others, P v := by
  cases h with
  | permute h => exact forall_congr' fun v => by rw [h.mem_iff]
  | again hmem =>
    rw [List.forall_mem_cons]
    exact ⟨fun h => ⟨h _ hmem, h⟩, And.right⟩
  | dissolve hinner =>
    simp only [List.forall_mem_append, List.forall_mem_cons, hP hinner, and_assoc]

/-- A node leaves the answer open if its children do. -/
private theorem Joins.holds_iff {v : Value} {c : Connective} {children : List Value}
    (h : Joins v c children) :
    ((ofValue v).Holds marks record ↔ c.undecided = true) ↔
      ∀ child ∈ children, ((ofValue child).Holds marks record ↔ c.undecided = true) := by
  rw [h.ofValue_eq, holds_compound_iff, List.forall_mem_map]

/-- The simple nodes of a node are those of its children. -/
private theorem Joins.answerable_iff {v : Value} {c : Connective} {children : List Value}
    (h : Joins v c children) :
    (ofValue v).Answerable marks record ↔
      ∀ child ∈ children, (ofValue child).Answerable marks record := by
  rw [h.ofValue_eq, answerable_compound_iff, List.forall_mem_map]

/-- A change of the children keeps the truth of a condition. -/
theorem Rearranges.holds_iff {v w : Value} (h : Rearranges v w) :
    (ofValue v).Holds marks record ↔ (ofValue w).Holds marks record := by
  induction h with
  | @root _ _ c _ _ hv hw h =>
    refine iff_of_undecided_iff (c := c) ?_
    rw [hv.holds_iff, hw.holds_iff]
    exact h.forall_iff Joins.holds_iff
  | @child _ _ _ _ c _ _ hv hw _ ih =>
    refine iff_of_undecided_iff (c := c) ?_
    rw [hv.holds_iff, hw.holds_iff]
    simp only [List.forall_mem_append, List.forall_mem_cons, ih]

/-- A change of the children keeps the simple nodes. -/
theorem Rearranges.answerable_iff {v w : Value} (h : Rearranges v w) :
    (ofValue v).Answerable marks record ↔ (ofValue w).Answerable marks record := by
  induction h with
  | root hv hw h =>
    rw [hv.answerable_iff, hw.answerable_iff]
    exact h.forall_iff Joins.answerable_iff
  | child hv hw _ ih =>
    rw [hv.answerable_iff, hw.answerable_iff]
    simp only [List.forall_mem_append, List.forall_mem_cons, ih]

/-- What each change keeps, any number of them keeps. -/
theorem Rearranged.iff_of_step {P : Value → Prop} (hstep : ∀ {v w}, Rearranges v w → (P v ↔ P w))
    {v w : Value} (h : Rearranged v w) : P v ↔ P w := by
  induction h with
  | rel _ _ h => exact hstep h
  | refl _ => exact Iff.rfl
  | symm _ _ _ ih => exact ih.symm
  | trans _ _ _ _ _ ihv ihw => exact ihv.trans ihw

/-- Where every simple node of a condition comes to an answer alone, the condition comes to
the truth of the formula that it is, and so to the same answer however the children of its
nodes are ordered, repeated and grouped. -/
theorem outcome_eq_of_rearranged {v : Value} (h : (ofValue v).Answerable marks record) :
    (∃ answer, ((ofValue v).evaluate marks record).outcome = .ok answer ∧
      (answer = true ↔ (ofValue v).Holds marks record)) ∧
    ∀ w, Rearranged v w →
      ((ofValue w).evaluate marks record).outcome =
        ((ofValue v).evaluate marks record).outcome := by
  obtain ⟨answer, hanswer⟩ := h.exists_outcome
  have htruth := holds_iff_of_outcome hanswer
  refine ⟨⟨answer, hanswer, htruth⟩, ?_⟩
  intro w hw
  have hanswerable := (hw.iff_of_step Rearranges.answerable_iff).mp h
  obtain ⟨other, hother⟩ := hanswerable.exists_outcome
  have heq : other = answer := by
    rw [Bool.eq_iff_iff, holds_iff_of_outcome hother, htruth]
    exact (hw.iff_of_step Rearranges.holds_iff).symm
  rw [hother, hanswer, heq]

/-- A test for gold. -/
private def goldTest : Value :=
  .object [("field", .text "tier"), ("operator", .text "=="), ("value", .text "gold")]

/-- A test for weekends. -/
private def weekendTest : Value :=
  .object [("field", .text "booking_date"), ("operator", .text "IS_WEEKEND")]

/-- A test for large amounts. -/
private def spendTest : Value :=
  .object [("field", .text "total_spend"), ("operator", .text ">"), ("value", .int 5000)]

/-- The condition for gold on weekends or by a large amount in other words: the test for gold
is repeated in a conjunction of its own, and the two others are exchanged. -/
def regroupedCondition : Value :=
  node .all [node .all [goldTest, goldTest], node .any [spendTest, weekendTest]]

/-- A booking for gold on a Saturday. -/
def saturdayRecord : Value :=
  .object [("tier", .text "gold"), ("total_spend", .int 100), ("booking_date", .text "2025-11-01")]

/-- The tree of the condition. -/
theorem ofValue_nestedCondition :
    ofValue nestedCondition = .compound .all [
      .simple (.text "tier") (.text "==") (.text "gold"),
      .compound .any [.simple (.text "booking_date") (.text "IS_WEEKEND") .null,
        .simple (.text "total_spend") (.text ">") (.int 5000)]] := rfl

/-- The tests of the condition come to answers on a Saturday. -/
private theorem answerable_nested :
    (ofValue nestedCondition).Answerable .distinct saturdayRecord := by
  simp only [ofValue_nestedCondition, answerable_compound_iff, answerable_simple_iff,
    List.forall_mem_cons]
  exact ⟨exists_ok_of_isOk (by decide), ⟨exists_ok_of_isOk (by decide +kernel),
    exists_ok_of_isOk (by decide +kernel), List.forall_mem_nil _⟩, List.forall_mem_nil _⟩

/-- The exchange, the repetition and the grouping, one after the other. -/
private theorem rearranged_nested : Rearranged nestedCondition regroupedCondition := by
  have hexchange : Rearranges nestedCondition
      (node .all [goldTest, node .any [spendTest, weekendTest]]) :=
    @Rearranges.child _ _ _ _ .all [goldTest] [] (joins_node .all _) (joins_node .all _)
      (.root (joins_node .any _) (joins_node .any _) (.permute (.swap spendTest weekendTest [])))
  have hrepeat : Rearranges (node .all [goldTest, node .any [spendTest, weekendTest]])
      (node .all [goldTest, goldTest, node .any [spendTest, weekendTest]]) :=
    .root (joins_node .all _) (joins_node .all _) (.again List.mem_cons_self)
  have hdissolve : Rearranges regroupedCondition
      (node .all [goldTest, goldTest, node .any [spendTest, weekendTest]]) :=
    .root (joins_node .all _) (joins_node .all _)
      (@Regroups.dissolve .all [] _ _ _ (joins_node .all [goldTest, goldTest]))
  exact .trans _ _ _ (.rel _ _ hexchange)
    (.trans _ _ _ (.rel _ _ hrepeat) (.symm _ _ (.rel _ _ hdissolve)))

/-- The condition comes to the same answer on a Saturday in both of its forms. -/
theorem outcome_eq_of_rearranged_nested :
    (ofValue nestedCondition).Answerable .distinct saturdayRecord ∧
      Rearranged nestedCondition regroupedCondition ∧
      ((ofValue regroupedCondition).evaluate .distinct saturdayRecord).outcome =
        ((ofValue nestedCondition).evaluate .distinct saturdayRecord).outcome :=
  ⟨answerable_nested, rearranged_nested,
    (outcome_eq_of_rearranged answerable_nested).2 _ rearranged_nested⟩

end Condition

end Loyalty
