import Loyalty.Condition.Evaluation
import Loyalty.Condition.Validity
import Loyalty.Proofs.Report

/-!
# The nodes that an evaluation visits

An evaluation visits the root of a condition and, below a compound node, each
child that it reaches: the first one, and the one after each child that leaves
the answer open. What an evaluation shows besides its answer is shown by the
nodes without children that it visits. So a condition that passed its check is
evaluated without a notice: the check has looked at every node that is visited.
-/

namespace Loyalty

/-- The answer of a child that leaves the answer of its parent open. -/
def Connective.undecided : Connective → Bool
  | .all => true
  | .any => false

namespace Condition

/-- Induction over conditions: the children come before the node that joins them. -/
@[elab_as_elim] theorem treeInduction {motive : Condition → Prop}
    (simple : ∀ field operator value, motive (.simple field operator value))
    (compound : ∀ c children, (∀ child ∈ children, motive child) → motive (.compound c children))
    (malformed : ∀ raw fault, motive (.malformed raw fault)) : ∀ c, motive c
  | .simple field operator value => simple field operator value
  | .compound c children => compound c children fun child _ =>
      treeInduction simple compound malformed child
  | .malformed raw fault => malformed raw fault
termination_by c => sizeOf c
decreasing_by
  rename_i hmem
  have := List.sizeOf_lt_of_mem hmem
  simp only [Condition.compound.sizeOf_spec]
  omega

variable {marks : Identity} {record : Value}

/-- Without children the answer stays open. -/
theorem evaluate_compound_nil (c : Connective) :
    evaluate marks record (.compound c []) = pure c.undecided := by
  cases c <;> rfl

/-- The first child decides, or leaves it to the others. -/
theorem evaluate_compound_cons (c : Connective) (child : Condition) (children : List Condition) :
    evaluate marks record (.compound c (child :: children)) =
      evaluate marks record child >>= fun answer =>
        if answer = c.undecided then evaluate marks record (.compound c children)
        else pure answer := by
  cases c with
  | all =>
    simp only [evaluate, evaluateAll]
    congr 1
    funext answer
    cases answer <;> rfl
  | any =>
    simp only [evaluate, evaluateAny]
    congr 1
    funext answer
    cases answer <;> rfl

/-- The children that the evaluation of a compound node reaches. -/
inductive Reaches (marks : Identity) (record : Value) (c : Connective) :
    List Condition → Condition → Prop
  /-- The first child is reached. -/
  | head (child : Condition) (children : List Condition) :
    Reaches marks record c (child :: children) child
  /-- Behind a child that leaves the answer open the next one is reached. -/
  | tail {child reached : Condition} {children : List Condition}
    (hopen : (child.evaluate marks record).outcome = .ok c.undecided)
    (h : Reaches marks record c children reached) :
    Reaches marks record c (child :: children) reached

/-- The nodes that the evaluation of a condition visits. -/
inductive Visits (marks : Identity) (record : Value) : Condition → Condition → Prop
  /-- The root is visited. -/
  | root (c : Condition) : Visits marks record c c
  /-- What is visited below a child that is reached is visited. -/
  | child {c : Connective} {children : List Condition} {reached node : Condition}
    (hreached : Reaches marks record c children reached) (h : Visits marks record reached node) :
    Visits marks record (.compound c children) node

/-- A node that joins no others. -/
def IsLeaf : Condition → Prop
  | .compound .. => False
  | _ => True

/-- A reached child is one of the children. -/
theorem Reaches.mem {c : Connective} {children : List Condition} {reached : Condition}
    (h : Reaches marks record c children reached) : reached ∈ children := by
  induction h with
  | head child children => exact List.mem_cons_self
  | tail _ _ ih => exact List.mem_cons_of_mem _ ih

/-- A compound node shows what the children that it reaches show. -/
theorem shows_compound {c : Connective} {children : List Condition} {sign : Report.Sign} :
    (evaluate marks record (.compound c children)).Shows sign ↔
      ∃ child, Reaches marks record c children child ∧
        (child.evaluate marks record).Shows sign := by
  induction children with
  | nil =>
    rw [evaluate_compound_nil]
    constructor
    · intro h
      exact absurd h (Report.not_shows_pure _ _)
    · rintro ⟨_, hreached, _⟩
      cases hreached
  | cons child children ih =>
    rw [evaluate_compound_cons, Report.shows_bind]
    constructor
    · rintro (hfirst | ⟨answer, hanswer, hrest⟩)
      · exact ⟨child, .head _ _, hfirst⟩
      · split at hrest
        · rename_i hopen
          obtain ⟨reached, hreached, hshows⟩ := ih.mp hrest
          rw [hopen] at hanswer
          exact ⟨reached, .tail hanswer hreached, hshows⟩
        · exact absurd hrest (Report.not_shows_pure _ _)
    · rintro ⟨reached, hreached, hshows⟩
      cases hreached with
      | head => exact .inl hshows
      | tail hopen hreached =>
        refine .inr ⟨c.undecided, hopen, ?_⟩
        rw [if_pos rfl]
        exact ih.mpr ⟨reached, hreached, hshows⟩

/-- What an evaluation shows is shown by a node without children that it visits. -/
theorem shows_evaluate_iff {c : Condition} {sign : Report.Sign} :
    (c.evaluate marks record).Shows sign ↔
      ∃ leaf, Visits marks record c leaf ∧ leaf.IsLeaf ∧
        (leaf.evaluate marks record).Shows sign := by
  constructor
  · intro h
    induction c using treeInduction with
    | simple field operator value => exact ⟨_, .root _, trivial, h⟩
    | malformed raw fault => exact ⟨_, .root _, trivial, h⟩
    | compound c children ih =>
      obtain ⟨child, hreached, hshows⟩ := shows_compound.mp h
      obtain ⟨leaf, hvisits, hleaf, hshows⟩ := ih child hreached.mem hshows
      exact ⟨leaf, .child hreached hvisits, hleaf, hshows⟩
  · rintro ⟨leaf, hvisits, -, hshows⟩
    induction hvisits with
    | root c => exact hshows
    | child hreached _ ih => exact shows_compound.mpr ⟨_, hreached, ih hshows⟩

/-- A compound node passes the check if it has children and they pass it. -/
theorem fault?_compound_eq_none {c : Connective} {children : List Condition} :
    (Condition.compound c children).fault? = none ↔
      children ≠ [] ∧ ∀ child ∈ children, child.fault? = none := by
  have hchildren : ∀ (children : List Condition) (index : Nat),
      childFault? index children = none ↔ ∀ child ∈ children, child.fault? = none := by
    intro children
    induction children with
    | nil => simp [childFault?]
    | cons child children ih =>
      intro index
      cases hfault : child.fault? with
      | none => simp [childFault?, hfault, ih]
      | some fault => simp [childFault?, hfault]
  cases children with
  | nil => simp [fault?]
  | cons child children => simp [fault?, hchildren]

/-- What is visited of a condition that passes the check passes it. -/
theorem Visits.fault?_eq_none {c node : Condition} (h : Visits marks record c node)
    (hvalid : c.fault? = none) : node.fault? = none := by
  induction h with
  | root c => exact hvalid
  | child hreached _ ih => exact ih ((fault?_compound_eq_none.mp hvalid).2 _ hreached.mem)

/-- A node that an evaluation knows how to answer: a simple one whose operator
there is, or a compound one with children. -/
inductive Known : Condition → Prop
  | simple {field operator value : Value} (op : Operator)
    (h : Operator.ofValue? operator = some op) : Known (.simple field operator value)
  | compound {c : Connective} {children : List Condition} (h : children ≠ []) :
    Known (.compound c children)

/-- What passes the check is known. -/
theorem known_of_fault?_eq_none {c : Condition} (hvalid : c.fault? = none) : c.Known := by
  cases c with
  | simple field operator value =>
    simp only [fault?, Option.map_eq_none_iff, simpleFault?] at hvalid
    split at hvalid
    · cases hop : Operator.ofValue? operator with
      | some op => exact .simple op hop
      | none =>
        rw [hop] at hvalid
        cases hvalid
    · cases hvalid
  | compound c children => exact .compound (fault?_compound_eq_none.mp hvalid).1
  | malformed raw fault => cases hvalid

/-- A known node without children is a simple one, and gives no notice. -/
theorem Known.notices_eq_nil {leaf : Condition} (h : leaf.Known) (hleaf : leaf.IsLeaf) :
    (leaf.evaluate marks record).notices = [] := by
  cases h with
  | compound => cases hleaf
  | @simple field operator value op hop =>
    simp only [evaluate, evaluateSimple, hop]
    cases field.resolve record .missing with
    | error f => rfl
    | ok data => rfl

/-- The check of a condition guards its evaluation. Whatever the record is, and
whatever the evaluation comes to, a value that passed the check is evaluated
without a notice, and every node that is visited is a simple one with one of the
operators or a compound one with children. -/
theorem evaluate_silent_of_fault?_eq_none {v : Value} (hvalid : (ofValue v).fault? = none)
    (marks : Identity) (record : Value) :
    ((ofValue v).evaluate marks record).notices = [] ∧
      ∀ node, Visits marks record (ofValue v) node → node.Known := by
  have hknown : ∀ node, Visits marks record (ofValue v) node → node.Known :=
    fun node hvisits => known_of_fault?_eq_none (hvisits.fault?_eq_none hvalid)
  refine ⟨?_, hknown⟩
  rw [Report.notices_eq_nil_iff]
  intro n hshows
  obtain ⟨leaf, hvisits, hleaf, hshows⟩ := shows_evaluate_iff.mp hshows
  rw [Report.Shows, (hknown leaf hvisits).notices_eq_nil hleaf] at hshows
  cases hshows

/-- A condition for gold that is met on weekends or by a large amount. -/
def nestedCondition : Value :=
  .object [("operator", .text "AND"), ("conditions", .list [
    .object [("field", .text "tier"), ("operator", .text "=="), ("value", .text "gold")],
    .object [("operator", .text "OR"), ("conditions", .list [
      .object [("field", .text "booking_date"), ("operator", .text "IS_WEEKEND")],
      .object [("field", .text "total_spend"), ("operator", .text ">"),
        ("value", .int 5000)]])]])]

/-- Two levels of nodes are evaluated without a notice. -/
theorem evaluate_silent_nested :
    (ofValue nestedCondition).fault? = none ∧
      ((ofValue nestedCondition).evaluate .distinct (.object [("tier", .text "gold")])).notices =
        [] ∧
      ∀ node, Visits .distinct (.object [("tier", .text "gold")]) (ofValue nestedCondition) node →
        node.Known := by
  have hvalid : (ofValue nestedCondition).fault? = none := by decide
  exact ⟨hvalid, evaluate_silent_of_fault?_eq_none hvalid _ _⟩

end Condition

end Loyalty
