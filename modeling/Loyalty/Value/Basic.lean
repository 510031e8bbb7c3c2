import Loyalty.Calendar.Moment
import Loyalty.Number.Basic

/-!
# Values

Rules and records are trees of values: what JSON can write, and besides it
tuples, dates and moments that a caller can pass in, and the mark of a field
that a record does not have. An object keeps its fields in the order in which
they were first put in, each key once.
-/

namespace Loyalty

/-- The two kinds of arrays; they never equal each other. -/
inductive ArrayKind where
  | list
  | tuple
  deriving DecidableEq

/-- A value of a rule, a record or a document. -/
inductive Value where
  | null
  | bool (b : Bool)
  | number (n : Number)
  | text (s : String)
  | array (kind : ArrayKind) (items : List Value)
  | object (fields : List (String × Value))
  | date (d : Date)
  | moment (m : Moment)
  /-- The mark of an absent field, which is not null. -/
  | missing

/-- The fields of an object in their order. -/
abbrev Fields := List (String × Value)

namespace Fields

/-- The value of a field, null when it is absent. -/
def get (fields : Fields) (key : String) : Value := (fields.lookup key).getD .null

/-- Puts a value under a key, in the place of the key if it is there and at the
end otherwise. -/
def put (key : String) (value : Value) : Fields → Fields
  | [] => [(key, value)]
  | (k, v) :: rest => if k = key then (k, value) :: rest else (k, v) :: put key value rest

/-- The object fields of some pairs put in one after the other. -/
def ofList (pairs : List (String × Value)) : Fields :=
  pairs.foldl (fun fields pair => put pair.1 pair.2 fields) []

/-- A key that was put has its value. -/
theorem lookup_put_self (key : String) (value : Value) (fields : Fields) :
    (put key value fields).lookup key = some value := by
  induction fields with
  | nil => simp [put]
  | cons field rest ih =>
    obtain ⟨k, v⟩ := field
    by_cases hk : k = key
    · simp [put, hk]
    · have hkey : (key == k) = false := by simpa using Ne.symm hk
      simp [put, hk, List.lookup_cons, hkey, ih]

/-- The other keys keep their values. -/
theorem lookup_put_of_ne {key other : String} (h : other ≠ key) (value : Value)
    (fields : Fields) : (put key value fields).lookup other = fields.lookup other := by
  have hother : (other == key) = false := by simpa using h
  induction fields with
  | nil => simp [put, List.lookup_cons, hother]
  | cons field rest ih =>
    obtain ⟨k, v⟩ := field
    by_cases hk : k = key
    · simp [put, hk, List.lookup_cons, hother]
    · simp [put, hk, List.lookup_cons, ih]

end Fields

namespace Value

/-- An integer. -/
def int (n : Int) : Value := .number (.int n)

/-- A natural number. -/
def nat (n : Nat) : Value := .number (.int n)

/-- A double. -/
def double (x : Double) : Value := .number (.double x)

/-- A list. -/
def list (items : List Value) : Value := .array .list items

/-- Everything counts as true but null, false, zeros, and empty texts, arrays and
objects; not-a-number counts as true. -/
def isTruthy : Value → Bool
  | .null => false
  | .bool b => b
  | .number n => !n.isZero
  | .text s => s != ""
  | .array _ items => !items.isEmpty
  | .object fields => !fields.isEmpty
  | .date _ | .moment _ | .missing => true

/-- The first value if it counts as true, else the second. -/
def orElse (v w : Value) : Value := if v.isTruthy then v else w

/-- A truth value. -/
def isBool : Value → Bool
  | .bool _ => true
  | _ => false

/-- An object. -/
def isObject : Value → Bool
  | .object _ => true
  | _ => false

end Value

/-- What sort of value a fault complains about. -/
inductive ValueKind where
  | null
  | bool
  | int
  | double
  | text
  | list
  | tuple
  | object
  | date
  | moment
  | missing
  deriving DecidableEq

/-- The sort of a value. -/
def Value.kind : Value → ValueKind
  | .null => .null
  | .bool _ => .bool
  | .number (.int _) => .int
  | .number (.double _) => .double
  | .text _ => .text
  | .array .list _ => .list
  | .array .tuple _ => .tuple
  | .object _ => .object
  | .date _ => .date
  | .moment _ => .moment
  | .missing => .missing

/-- The name of a sort in messages. -/
def ValueKind.name : ValueKind → String
  | .null => "NoneType"
  | .bool => "bool"
  | .int => "int"
  | .double => "float"
  | .text => "str"
  | .list => "list"
  | .tuple => "tuple"
  | .object => "dict"
  | .date => "datetime.date"
  | .moment => "datetime.datetime"
  | .missing => "_Missing"

end Loyalty
