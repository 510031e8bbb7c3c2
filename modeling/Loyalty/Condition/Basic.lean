import Loyalty.Value.Basic

/-!
# Conditions

A condition is written as an object: a compound one joins the conditions of an
array by AND or OR, a simple one tests a field of the record by an operator.
Compound shape wins over simple shape, and whatever has neither shape is
malformed. `Shape.of` reads one node, `Condition.ofValue` the whole tree, and
`Condition.ofValue_eq` says that the tree is made of the shapes of its nodes.
-/

namespace Loyalty

/-- How a compound condition joins its children. -/
inductive Connective where
  | all
  | any
  deriving DecidableEq

namespace Connective

/-- The word for a connective. -/
def symbol : Connective → String
  | .all => "AND"
  | .any => "OR"

/-- The connective that a value is the word of. -/
def ofValue? : Value → Option Connective
  | .text s => [all, any].find? fun c => c.symbol == s
  | _ => none

end Connective

/-- What a simple condition asks about a field. -/
inductive Operator where
  | equal
  | notEqual
  | greater
  | less
  | greaterOrEqual
  | lessOrEqual
  | isIn
  | notIn
  | contains
  | startsWith
  | endsWith
  | isWeekend
  | dateRange
  deriving DecidableEq

namespace Operator

/-- The word for an operator. -/
def symbol : Operator → String
  | .equal => "=="
  | .notEqual => "!="
  | .greater => ">"
  | .less => "<"
  | .greaterOrEqual => ">="
  | .lessOrEqual => "<="
  | .isIn => "IN"
  | .notIn => "NOT_IN"
  | .contains => "CONTAINS"
  | .startsWith => "STARTS_WITH"
  | .endsWith => "ENDS_WITH"
  | .isWeekend => "IS_WEEKEND"
  | .dateRange => "DATE_RANGE"

/-- All operators, in the order in which they are documented. -/
def all : List Operator :=
  [.equal, .notEqual, .greater, .less, .greaterOrEqual, .lessOrEqual, .isIn, .notIn, .contains,
    .startsWith, .endsWith, .isWeekend, .dateRange]

/-- The operator that a value is the word of. -/
def ofValue? : Value → Option Operator
  | .text s => all.find? fun op => op.symbol == s
  | _ => none

/-- Every operator is listed. -/
theorem mem_all (op : Operator) : op ∈ all := by
  cases op <;> simp [all]

end Operator

/-- Why a node is malformed. -/
inductive ShapeFault where
  | notObject
  | noConditions (connective : Connective)
  | neitherShape
  deriving DecidableEq

/-- What is wrong with a malformed node, in words. -/
def ShapeFault.message : ShapeFault → String
  | .notObject => "Condition must be an object"
  | .noConditions c => c.symbol ++ " requires a conditions array"
  | .neitherShape =>
    "Condition must have either a field (simple) or operator with conditions (compound)"

/-- One node of a condition, its children still raw. -/
inductive Shape where
  | simple (field operator value : Value)
  | compound (connective : Connective) (kind : ArrayKind) (children : List Value)
  | malformed (raw : Value) (fault : ShapeFault)

/-- The shape of an object. -/
def Shape.ofFields (fields : Fields) : Shape :=
  match Connective.ofValue? (fields.get "operator") with
  | some c =>
    match fields.get "conditions" with
    | .array kind children => .compound c kind children
    | _ => .malformed (.object fields) (.noConditions c)
  | none =>
    if (fields.get "field").isTruthy then
      .simple (fields.get "field") (fields.get "operator") (fields.get "value")
    else .malformed (.object fields) .neitherShape

/-- The shape of any value. -/
def Shape.of : Value → Shape
  | .object fields => .ofFields fields
  | v => .malformed v .notObject

/-- A condition with all its nodes read. -/
inductive Condition where
  | simple (field operator value : Value)
  | compound (connective : Connective) (children : List Condition)
  | malformed (raw : Value) (fault : ShapeFault)

namespace Condition

mutual

/-- The condition that a value is written for. -/
def ofValue : Value → Condition
  | .object fields =>
    match Shape.ofFields fields with
    | .simple field operator value => .simple field operator value
    | .compound c _ _ => .compound c (ofFields fields)
    | .malformed raw fault => .malformed raw fault
  | v => .malformed v .notObject

/-- The conditions in the array under the key `conditions`. -/
def ofFields : List (String × Value) → List Condition
  | [] => []
  | (key, v) :: rest => if "conditions" = key then ofArray v else ofFields rest

/-- The conditions in an array. -/
def ofArray : Value → List Condition
  | .array _ items => ofItems items
  | _ => []

/-- The conditions that some values are written for. -/
def ofItems : List Value → List Condition
  | [] => []
  | v :: vs => ofValue v :: ofItems vs

end

/-- Items are read one by one. -/
theorem ofItems_eq_map (vs : List Value) : ofItems vs = vs.map ofValue := by
  induction vs with
  | nil => rfl
  | cons v vs ih => simp [ofItems, ih]

/-- The children of a node are those of the array it is looked up to have. -/
theorem ofFields_eq {fields : Fields} {kind : ArrayKind} {children : List Value}
    (h : fields.get "conditions" = .array kind children) :
    ofFields fields = children.map ofValue := by
  induction fields with
  | nil => simp [Fields.get] at h
  | cons field rest ih =>
    obtain ⟨key, v⟩ := field
    by_cases hkey : "conditions" = key
    · subst hkey
      simp only [Fields.get, List.lookup_cons_self, Option.getD_some] at h
      subst h
      simp [ofFields, ofArray, ofItems_eq_map]
    · have hbeq : ("conditions" == key) = false := by simpa using hkey
      simp only [Fields.get, List.lookup_cons, hbeq] at h
      simpa [ofFields, hkey] using ih h

/-- A tree is the shape of its root over the trees of the children. -/
theorem ofValue_eq (v : Value) :
    ofValue v = match Shape.of v with
      | .simple field operator value => .simple field operator value
      | .compound c _ children => .compound c (children.map ofValue)
      | .malformed raw fault => .malformed raw fault := by
  cases v with
  | object fields =>
    simp only [ofValue, Shape.of]
    unfold Shape.ofFields
    cases Connective.ofValue? (Fields.get fields "operator") with
    | none => by_cases hfield : (Fields.get fields "field").isTruthy = true <;> simp [hfield]
    | some c =>
      cases hconditions : Fields.get fields "conditions" with
      | array kind children => simp [ofFields_eq hconditions]
      | _ => simp
  | _ => rfl

end Condition

end Loyalty
