import Loyalty.Proofs.Condition.Visits
import Loyalty.Proofs.Value.Parts

/-!
# Nodes of conditions

Words are read as connectives and operators, and objects as nodes: a node unites the conditions
in its array, or it asks about a field. What stands below a node are the conditions that it
unites, which is what induction over nodes goes by. A node has a fault of its own or none,
whatever stands below it.
-/

namespace Loyalty

/-- What is found by each word is found by its own word only. -/
private theorem find?_word_eq_some_iff {α : Type} {word : α → String} {all : List α}
    (hfind : ∀ a, all.find? (fun b => word b == word a) = some a) {s : String} {a : α} :
    all.find? (fun b => word b == s) = some a ↔ s = word a := by
  constructor
  · intro h
    have hword := List.find?_some h
    exact (beq_iff_eq.mp hword).symm
  · rintro rfl
    exact hfind a

/-- A connective is read from its word. -/
theorem Connective.ofValue?_eq_some_iff {v : Value} {c : Connective} :
    ofValue? v = some c ↔ v = .text c.symbol := by
  cases v with
  | text s =>
    rw [Value.text.injEq]
    exact find?_word_eq_some_iff fun c => by cases c <;> rfl
  | _ => simp [ofValue?]

/-- No connective is read from anything but a word for one. -/
theorem Connective.ofValue?_eq_none_iff {v : Value} :
    ofValue? v = none ↔ ∀ c : Connective, v ≠ .text c.symbol := by
  rw [Option.eq_none_iff_forall_ne_some]
  exact forall_congr' fun c => not_congr ofValue?_eq_some_iff

/-- An operator is read from its word. -/
theorem Operator.ofValue?_eq_some_iff {v : Value} {op : Operator} :
    ofValue? v = some op ↔ v = .text op.symbol := by
  cases v with
  | text s =>
    rw [Value.text.injEq]
    exact find?_word_eq_some_iff fun op => by cases op <;> rfl
  | _ => simp [ofValue?]

/-- No operator is read from anything but a word for one. -/
theorem Operator.ofValue?_eq_none_iff {v : Value} :
    ofValue? v = none ↔ ∀ op : Operator, v ≠ .text op.symbol := by
  rw [Option.eq_none_iff_forall_ne_some]
  exact forall_congr' fun op => not_congr ofValue?_eq_some_iff

/-- Whether a value suits an operator: membership asks for an array, a range for an object
that gives a start and an end, and the other operators for nothing. -/
def Operator.Suits (value : Value) : Operator → Prop
  | .isIn | .notIn => ∃ kind items, value = .array kind items
  | .dateRange => ∃ fields, value = .object fields ∧
      (Fields.get fields "start").isTruthy = true ∧ (Fields.get fields "end").isTruthy = true
  | _ => True

namespace Condition

variable {v : Value} {c : Connective} {items : List Value}

/-! ## Nodes as they are read -/

/-- A node that unites some conditions: its operator is the word for the connective, and
they stand in its array of conditions. -/
def Unites (v : Value) (c : Connective) (items : List Value) : Prop :=
  ∃ fields kind, v = .object fields ∧ Fields.get fields "operator" = .text c.symbol ∧
    Fields.get fields "conditions" = .array kind items

/-- A node is read as what it unites. -/
theorem Unites.ofValue_eq (h : Unites v c items) :
    ofValue v = .compound c (items.map ofValue) := by
  obtain ⟨fields, kind, rfl, hoperator, hconditions⟩ := h
  rw [Condition.ofValue_eq, Shape.of, Shape.ofFields,
    Connective.ofValue?_eq_some_iff.mpr hoperator, hconditions]

/-- A node unites one list of conditions. -/
theorem Unites.unique {c' : Connective} {items' : List Value} (h : Unites v c items)
    (h' : Unites v c' items') : items = items' := by
  obtain ⟨fields, kind, rfl, -, hconditions⟩ := h
  obtain ⟨fields', kind', hfields, -, hconditions'⟩ := h'
  cases hfields
  cases hconditions.symm.trans hconditions'
  rfl

/-- The conditions that a node unites are parts of it. -/
theorem Unites.isPart (h : Unites v c items) {item : Value} (hitem : item ∈ items) :
    Value.IsPart item v := by
  obtain ⟨fields, kind, rfl, -, hconditions⟩ := h
  cases hlookup : fields.lookup "conditions" with
  | none =>
    rw [Fields.get, hlookup] at hconditions
    cases hconditions
  | some w =>
    rw [Fields.get, hlookup] at hconditions
    cases hconditions
    exact .field (Fields.mem_of_lookup hlookup) (.item hitem .self)

/-- Induction over nodes: the conditions that a node unites come before it. -/
@[elab_as_elim] theorem nodeInduction {motive : Value → Prop}
    (node : ∀ v, (∀ c items, Unites v c items → ∀ item ∈ items, motive item) → motive v) :
    ∀ v, motive v := by
  -- The conditions that a node unites stand two levels below it, in an array: so the induction
  -- carries the items of a value along with the value.
  have hboth : ∀ v, motive v ∧ ∀ kind items, v = .array kind items → ∀ w ∈ items, motive w := by
    intro v
    induction v using Value.treeInduction with
    | object fields ih =>
      have hconditions := Fields.get_of_forall
        (P := fun v => ∀ kind items, v = .array kind items → ∀ w ∈ items, motive w) (by simp)
        (fun p hp => (ih p hp).2) "conditions"
      refine ⟨node _ ?_, by simp⟩
      rintro c items ⟨_, kind, ⟨⟩, -, hitems⟩
      exact hconditions kind items hitems
    | array kind items ih =>
      refine ⟨node _ ?_, ?_⟩
      · rintro c items ⟨_, _, ⟨⟩, -⟩
      · rintro _ _ ⟨⟩ w hw
        exact (ih w hw).1
    | _ =>
      refine ⟨node _ ?_, by simp⟩
      rintro c items ⟨_, _, ⟨⟩, -⟩
  exact fun v => (hboth v).1

/-- The ways in which an object is read. -/
inductive IsRead (fields : Fields) : Condition → Prop
  | compound {c : Connective} {items : List Value} (h : Unites (.object fields) c items) :
    IsRead fields (.compound c (items.map ofValue))
  | noConditions {c : Connective} (hoperator : fields.get "operator" = .text c.symbol)
    (h : ∀ kind items, fields.get "conditions" ≠ .array kind items) :
    IsRead fields (.malformed (.object fields) (.noConditions c))
  | simple (hconnective : ∀ c : Connective, fields.get "operator" ≠ .text c.symbol)
    (hfield : (fields.get "field").isTruthy = true) :
    IsRead fields (.simple (fields.get "field") (fields.get "operator") (fields.get "value"))
  | neitherShape (hconnective : ∀ c : Connective, fields.get "operator" ≠ .text c.symbol)
    (hfield : (fields.get "field").isTruthy = false) :
    IsRead fields (.malformed (.object fields) .neitherShape)

/-- An object is read in one of these ways. -/
theorem isRead (fields : Fields) : IsRead fields (ofValue (.object fields)) := by
  rw [Condition.ofValue_eq, Shape.of, Shape.ofFields]
  cases hconnective : Connective.ofValue? (fields.get "operator") with
  | none =>
    rw [Connective.ofValue?_eq_none_iff] at hconnective
    cases hfield : (fields.get "field").isTruthy with
    | true => exact .simple hconnective hfield
    | false => exact .neitherShape hconnective hfield
  | some c =>
    rw [Connective.ofValue?_eq_some_iff] at hconnective
    cases hconditions : fields.get "conditions" with
    | array kind items => exact .compound ⟨fields, kind, rfl, hconnective, hconditions⟩
    | _ => exact .noConditions hconnective (by simp [hconditions])

/-- An object is read in one way. -/
theorem IsRead.ofValue_eq {fields : Fields} {read : Condition} (h : IsRead fields read) :
    ofValue (.object fields) = read := by
  cases h with
  | compound h => exact h.ofValue_eq
  | noConditions hoperator h =>
    rw [Condition.ofValue_eq, Shape.of, Shape.ofFields,
      Connective.ofValue?_eq_some_iff.mpr hoperator]
    cases hconditions : fields.get "conditions" with
    | array kind items => exact absurd hconditions (h kind items)
    | _ => rfl
  | simple hconnective hfield =>
    rw [Condition.ofValue_eq, Shape.of, Shape.ofFields,
      Connective.ofValue?_eq_none_iff.mpr hconnective, hfield]
    rfl
  | neitherShape hconnective hfield =>
    rw [Condition.ofValue_eq, Shape.of, Shape.ofFields,
      Connective.ofValue?_eq_none_iff.mpr hconnective, hfield]
    rfl

/-! ## The faults of one node -/

/-- What is wrong with a node itself. -/
def nodeFault? : Condition → Option NodeFault
  | .simple _ operator value => simpleFault? operator value
  | .compound c [] => some (.noChildren c)
  | .compound _ (_ :: _) => none
  | .malformed _ fault => some (.shape fault)

/-- The value of a test has no fault if it suits the operator. -/
theorem valueFault?_eq_none_iff {op : Operator} {value : Value} :
    valueFault? op value = none ↔ op.Suits value := by
  cases op with
  | isIn => cases value <;> simp [valueFault?, Operator.Suits]
  | notIn => cases value <;> simp [valueFault?, Operator.Suits]
  | dateRange => cases value <;> simp [valueFault?, Operator.Suits]
  | _ => simp [valueFault?, Operator.Suits]

/-- What is wrong with a value that does not suit its operator. -/
theorem valueFault?_eq_some {op : Operator} {value : Value} {f : NodeFault}
    (h : valueFault? op value = some f) :
    (op = .isIn ∨ op = .notIn) ∧ f = .arrayRequired op ∨ op = .dateRange ∧ f = .rangeRequired := by
  unfold valueFault? at h
  split at h
  · cases h
  · cases h
  · cases h
    exact .inl ⟨.inl rfl, rfl⟩
  · cases h
    exact .inl ⟨.inr rfl, rfl⟩
  · split at h
    · cases h
    · cases h
      exact .inr ⟨rfl, rfl⟩
  · cases h
    exact .inr ⟨rfl, rfl⟩
  · cases h

/-- The words for connectives are not those for operators. -/
theorem symbol_ne (c : Connective) (op : Operator) : c.symbol ≠ op.symbol := by
  cases c <;> cases op <;> decide

/-- What is the word for an operator is not one for a connective. -/
theorem ne_symbol {w : Value} {op : Operator} (h : w = .text op.symbol) (c : Connective) :
    w ≠ .text c.symbol := by
  rw [h]
  intro hword
  exact symbol_ne c op (Value.text.inj hword).symm

/-- Behind the word for an operator only the value can be at fault. -/
theorem simpleFault?_symbol (op : Operator) (value : Value) :
    simpleFault? (.text op.symbol) value = valueFault? op value := by
  have htruthy : (Value.text op.symbol).isTruthy = true := by cases op <;> rfl
  rw [simpleFault?, if_pos htruthy, Operator.ofValue?_eq_some_iff.mpr rfl]

/-- A test has no fault if its operator is one and its value suits it. -/
theorem simpleFault?_eq_none_iff {operator value : Value} :
    simpleFault? operator value = none ↔
      ∃ op : Operator, operator = .text op.symbol ∧ op.Suits value := by
  constructor
  · intro h
    rw [simpleFault?] at h
    split at h
    · cases hop : Operator.ofValue? operator with
      | none =>
        rw [hop] at h
        cases h
      | some op =>
        simp only [hop] at h
        exact ⟨op, Operator.ofValue?_eq_some_iff.mp hop, valueFault?_eq_none_iff.mp h⟩
    · cases h
  · rintro ⟨op, rfl, hvalue⟩
    rw [simpleFault?_symbol]
    exact valueFault?_eq_none_iff.mpr hvalue

/-- What is wrong with the value of a test is wrong with the node. -/
theorem nodeFault?_of_operator {fields : Fields} {op : Operator} {f : NodeFault}
    (hfield : (fields.get "field").isTruthy = true)
    (hoperator : fields.get "operator" = .text op.symbol)
    (hvalue : valueFault? op (fields.get "value") = some f) :
    (ofValue (.object fields)).nodeFault? = some f := by
  rw [(IsRead.simple (ne_symbol hoperator) hfield).ofValue_eq, nodeFault?, hoperator,
    simpleFault?_symbol]
  exact hvalue

end Condition

end Loyalty
