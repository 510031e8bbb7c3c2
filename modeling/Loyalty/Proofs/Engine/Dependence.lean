import Loyalty.Engine
import Loyalty.Proofs.Condition.Defaults
import Loyalty.Proofs.Condition.Formula
import Loyalty.Proofs.Engine.Priority

/-!
# What a calculation reads of its record

An engine looks at a record only along paths: the one of the amount, and those of the
simple nodes in its conditions. Two records that lead to the same along all of them get
the same report, whatever else is in them.
-/

namespace Loyalty

namespace Value

/-- Along a path two records lead to the same value, both to none, or to the same
fault. -/
def AgreeAt (r₁ r₂ path : Value) : Prop := path.resolve r₁ .missing = path.resolve r₂ .missing

variable {r₁ r₂ path : Value}

/-- A path leads to the same value with either default, or to the default itself. -/
theorem resolve_null_or_missing (path record : Value) :
    path.resolve record .null = path.resolve record .missing ∨
      path.resolve record .null = .ok .null ∧ path.resolve record .missing = .ok .missing := by
  rcases resolve_by_leaf path record with ⟨v, -, hv⟩ | hdefault | ⟨f, hf⟩
  · exact .inl ((hv .null).trans (hv .missing).symm)
  · exact .inr ⟨hdefault .null trivial, hdefault .missing trivial⟩
  · exact .inl ((hf .null).trans (hf .missing).symm)

/-- Null and the mark of an absent field denote no amount, so for an amount the default
does not matter. -/
theorem bind_amount_resolve (path record : Value) :
    (path.resolve record .null >>= amount) = path.resolve record .missing >>= amount := by
  rcases resolve_null_or_missing path record with h | ⟨hnull, hmissing⟩
  · rw [h]
  · rw [hnull, hmissing]
    rfl

end Value

/-- Records that agree along the path of the amount have the same amount. -/
theorem recordAmount_congr {r₁ r₂ path : Value} (h : r₁.AgreeAt r₂ path) :
    recordAmount path r₁ = recordAmount path r₂ := by
  have hamount : ∀ record, recordAmount path record =
      (path.resolve record .missing >>= Value.amount) >>= fun x =>
        pure (if x.isFinite then x else .zero false) := by
    intro record
    rw [← Value.bind_amount_resolve, recordAmount, bind_assoc]
  rw [hamount, hamount, h]

namespace Condition

/-- A condition asks about a path if a simple node somewhere in it tests the field
there. -/
inductive Asks (path : Value) : Condition → Prop
  | simple (operator value : Value) : Asks path (.simple path operator value)
  | child {c : Connective} {children : List Condition} {child : Condition}
    (hmem : child ∈ children) (h : Asks path child) : Asks path (.compound c children)

variable {marks : Identity} {r₁ r₂ : Value}

/-- A condition asks about the paths of its simple nodes. -/
theorem HasNode.asks {c : Condition} {field operator value : Value}
    (h : c.HasNode (.simple field operator value)) : c.Asks field := by
  induction c using treeInduction with
  | simple =>
    cases h
    exact .simple operator value
  | malformed => cases h
  | compound c children ih =>
    cases h with
    | child hmem h => exact .child hmem (ih _ hmem h)

/-- Records that agree along all paths that a condition asks about are not told apart by
it: it holds of both or of none, or it breaks off alike, with the same notices. -/
theorem evaluate_congr {c : Condition} (h : ∀ path, c.Asks path → r₁.AgreeAt r₂ path) :
    c.evaluate marks r₁ = c.evaluate marks r₂ := by
  refine evaluate_congr_of_tests fun field operator value hnode => ?_
  have hfield : field.resolve r₁ .missing = field.resolve r₂ .missing := h field hnode.asks
  simp only [evaluateSimple, hfield]

end Condition

/-- Records that no condition tells apart give the same run. -/
theorem Tally.addAll_congr_record {nan : Identity} {r₁ r₂ : Value} {rules : List Rule}
    (h : ∀ r ∈ rules, r.condition.evaluate .distinct r₁ = r.condition.evaluate .distinct r₂)
    (t : Tally) : t.addAll nan r₁ rules = t.addAll nan r₂ rules := by
  induction rules generalizing t with
  | nil => rfl
  | cons r rules ih =>
    obtain ⟨hfirst, hrest⟩ := List.forall_mem_cons.mp h
    simp only [addAll, hfirst, ih hrest]

namespace Engine

/-- The paths along which an engine looks at a record. -/
def Reads (engine : Engine) (path : Value) : Prop :=
  path = engine.amountField ∨
    ∃ r ∈ engine.rules.filterMap Rule.ofValue?, r.condition.Asks path

/-- Nothing else in a record interferes. Two records that agree along the path of the
amount and along the path of every simple node in the conditions of the rules get the
same report: the same calculation or the same fault, and the same notices. -/
theorem apply_eq_of_agreeAt {engine : Engine} {r₁ r₂ : Value}
    (h : ∀ path, engine.Reads path → r₁.AgreeAt r₂ path) :
    engine.apply r₁ = engine.apply r₂ := by
  have hamount : recordAmount engine.amountField r₁ = recordAmount engine.amountField r₂ :=
    recordAmount_congr (h _ (.inl rfl))
  rw [apply, apply, hamount]
  cases htaken : byPriority (engine.rules.filterMap Rule.ofValue?) with
  | error f => rfl
  | ok taken =>
    have hperm := (inPriorityOrder_of_byPriority htaken).perm
    have hrun : ∀ t, Tally.addAll engine.nan r₁ t taken = Tally.addAll engine.nan r₂ t taken :=
      Tally.addAll_congr_record fun r hr => Condition.evaluate_congr fun path hasks =>
        h path (.inr ⟨r, hperm.mem_iff.mp hr, hasks⟩)
    simp only [Report.ofExcept, Report.bind_ok, hrun]

/-- An engine with a rule for gold that is met on weekends or by a large amount. -/
def nestedEngine : Engine :=
  ⟨defaultAmountField, [.object [("id", .text "NESTED"),
    ("condition", Condition.nestedCondition),
    ("action", .object [("discountPercent", .int 5)])]], .shared⟩

/-- A booking without a date. -/
def undatedRecord : Value := .object [("tier", .text "gold"), ("total_spend", .int 6000)]

/-- The same booking with the name of a customer, its fields in another order. -/
def namedRecord : Value :=
  .object [("customer", .object [("name", .text "Ann")]), ("total_spend", .int 6000),
    ("tier", .text "gold")]

/-- The name of a customer does not interfere, and neither does the order of the
fields. -/
theorem apply_eq_of_agreeAt_named :
    (∀ path, nestedEngine.Reads path → undatedRecord.AgreeAt namedRecord path) ∧
      nestedEngine.apply undatedRecord = nestedEngine.apply namedRecord := by
  have hagree : ∀ path, nestedEngine.Reads path → undatedRecord.AgreeAt namedRecord path := by
    rintro path (rfl | ⟨r, hr, hasks⟩)
    · rfl
    · have hcondition : r.condition = Condition.ofValue Condition.nestedCondition := by
        cases List.mem_singleton.mp hr
        rfl
      rw [hcondition] at hasks
      cases hasks with
      | child hmem hasks =>
        rcases List.mem_pair.mp hmem with rfl | rfl
        · cases hasks
          rfl
        · cases hasks with
          | child hmem hasks =>
            rcases List.mem_pair.mp hmem with rfl | rfl
            · cases hasks
              rfl
            · cases hasks
              rfl
  exact ⟨hagree, apply_eq_of_agreeAt hagree⟩

end Engine

end Loyalty
