import Loyalty.Proofs.Condition.Nodes
import Loyalty.Proofs.Json.RoundTrip
import Loyalty.Proofs.Rule.Problems
import Loyalty.Value.Sequence

/-!
# Rules that are read back

Rules that are stored as JSON come back with lists in the place of tuples. The
check of rules and conditions takes lists and tuples alike, so it passes the rules
that are read back exactly if it passes those that were stored.
-/

namespace Loyalty

open Json (reread rereadItems rereadFields)

/-- A field that is read back. -/
theorem Fields.get_rereadFields (fields : Fields) (key : String) :
    Fields.get (rereadFields fields) key = reread (fields.get key) := by
  induction fields with
  | nil => rfl
  | cons field fields ih =>
    obtain ⟨k, v⟩ := field
    simp only [rereadFields, Fields.get, List.lookup_cons] at ih ⊢
    split
    · rfl
    · exact ih

/-- Items are read back one by one. -/
theorem Json.rereadItems_eq_map (items : List Value) : rereadItems items = items.map reread := by
  induction items with
  | nil => rfl
  | cons v vs ih => rw [rereadItems, ih, List.map_cons]

namespace Value

/-- Reading back keeps what counts as true. -/
@[simp] theorem isTruthy_reread (v : Value) : (reread v).isTruthy = v.isTruthy := by
  cases v with
  | array kind items => cases items <;> rfl
  | object fields => cases fields <;> rfl
  | _ => rfl

/-- Reading back keeps what counts as given. -/
@[simp] theorem isGiven_reread (v : Value) : (reread v).isGiven = v.isGiven := by
  cases v <;> rfl

/-- Reading back keeps objects. -/
@[simp] theorem isObject_reread (v : Value) : (reread v).isObject = v.isObject := by
  cases v <;> rfl

end Value

namespace Condition

/-- Reading back keeps the words for operators. -/
@[simp] theorem operator_ofValue?_reread (v : Value) :
    Operator.ofValue? (reread v) = Operator.ofValue? v := by
  cases v <;> rfl

/-- Reading back keeps the words for connectives. -/
@[simp] theorem connective_ofValue?_reread (v : Value) :
    Connective.ofValue? (reread v) = Connective.ofValue? v := by
  cases v <;> rfl

/-- Reading back keeps whether the value of a simple node suits its operator. -/
theorem valueFault?_reread (op : Operator) (v : Value) :
    valueFault? op (reread v) = valueFault? op v := by
  cases v with
  | array kind items => cases op <;> rfl
  | object fields =>
    cases op with
    | dateRange => simp only [reread, valueFault?, Fields.get_rereadFields, Value.isTruthy_reread]
    | _ => rfl
  | _ => cases op <;> rfl

/-- Reading back keeps whether a simple node passes its check. -/
theorem simpleFault?_reread (operator v : Value) :
    simpleFault? (reread operator) (reread v) = none ↔ simpleFault? operator v = none := by
  unfold simpleFault?
  rw [Value.isTruthy_reread, operator_ofValue?_reread]
  split
  · cases Operator.ofValue? operator with
    | some op => simp only [valueFault?_reread]
    | none => simp
  · simp

/-- What is read back of an object passes the check of conditions with the object,
if that is so of the conditions that it unites. -/
private theorem fault?_object_reread {fields : Fields}
    (hitems : ∀ c items, Unites (.object fields) c items →
      ∀ v ∈ items, ((ofValue (reread v)).fault? = none ↔ (ofValue v).fault? = none)) :
    (ofValue (reread (.object fields))).fault? = none ↔
      (ofValue (.object fields)).fault? = none := by
  rw [ofValue_eq, ofValue_eq]
  simp only [reread, Shape.of, Shape.ofFields, Fields.get_rereadFields, connective_ofValue?_reread,
    Value.isTruthy_reread]
  cases hconnective : Connective.ofValue? (fields.get "operator") with
  | none =>
    cases (fields.get "field").isTruthy with
    | true => simp only [if_true, fault?, Option.map_eq_none_iff, simpleFault?_reread]
    | false => simp [fault?]
  | some c =>
    cases hconditions : fields.get "conditions" with
    | array kind items =>
      have hunites : Unites (.object fields) c items :=
        ⟨fields, kind, rfl, Connective.ofValue?_eq_some_iff.mp hconnective, hconditions⟩
      simp only [reread, Json.rereadItems_eq_map, fault?_compound_eq_none, List.map_map]
      have hall : (∀ child ∈ items.map (ofValue ∘ reread), child.fault? = none) ↔
          ∀ child ∈ items.map ofValue, child.fault? = none := by
        rw [List.forall_mem_map, List.forall_mem_map]
        exact forall₂_congr (hitems c items hunites)
      rw [hall]
      simp
    | _ => simp [reread, fault?]

/-- A condition that is read back passes its check exactly if the one that was
stored does. -/
theorem fault?_reread (v : Value) :
    (ofValue (reread v)).fault? = none ↔ (ofValue v).fault? = none := by
  induction v using nodeInduction with
  | node v ih =>
    cases v with
    | object fields => exact fault?_object_reread ih
    | array kind items => simp [reread, ofValue, fault?]
    | _ => rfl

end Condition

namespace Value

/-- A rule that is read back passes its check exactly if the one that was stored
does. -/
theorem ruleFault?_reread (v : Value) :
    (reread v).ruleFault? = none ↔ v.ruleFault? = none := by
  cases v with
  | object fields =>
    simp only [reread, ruleFault?, Fields.get_rereadFields, isGiven_reread, isObject_reread]
    split
    · simp
    · split
      · simp
      · split
        · simp
        · split
          · simp
          · simp only [Option.map_eq_none_iff, Condition.fault?_reread]
  | _ => simp [reread, ruleFault?]

/-- Rules that are read back pass their checks exactly if the stored ones do. -/
theorem allValid_rereadItems (rules : List Value) :
    AllValid (rereadItems rules) ↔ AllValid rules := by
  rw [Json.rereadItems_eq_map, AllValid, List.forall_mem_map]
  exact forall₂_congr fun rule _ => ruleFault?_reread rule

end Value

end Loyalty
