import Loyalty.Fault
import Loyalty.Number.Approximate
import Loyalty.Number.Shortest
import Loyalty.Number.Significant
import Loyalty.Value.Text

/-!
# Columns of the store

Some columns hold a text or nothing. Another value that is put into one becomes a
text: a date or moment is written out, a truth value counts as one or zero, and
numbers have a form of their own. Nothing comes of null and of not-a-number.
Arrays, objects and integers of more than 64 bits are refused.

Another column holds documents as text, except that a text which is a number is
kept as one: as an integer if it is whole and has a word of 64 bits, and as a
double otherwise.
-/

namespace Loyalty

/-- Doubles in a column have fifteen significant digits, are positional from
`0.0001` up to but not including `10 ^ 15`, and always have a point. -/
def columnLayout : DecimalLayout := ⟨-4, 15, 2, true⟩

/-- The text of a double in a column. Zero loses its sign there. -/
def Double.columnText : Double → Option String
  | .nan => none
  | .infinity negative => some (if negative then "-Inf" else "Inf")
  | x =>
    let x := if x.isZero then .zero false else x
    x.fifteenDigits?.map fun d => String.ofList (columnLayout.write d)

/-- Whether an integer fits a signed word of 64 bits. -/
def fitsWord (n : Int) : Bool := -9223372036854775808 ≤ n && n ≤ 9223372036854775807

/-- What a value becomes in a column of texts. -/
def Value.columnText : Value → Except Fault (Option String)
  | .null => .ok none
  | .bool b => .ok (some (if b then "1" else "0"))
  | .number (.int n) => if fitsWord n then .ok (some (intText n)) else .error .integerTooWide
  | .number (.double x) => .ok x.columnText
  | .text s => .ok (some s)
  | .date d => .ok (some (Value.date d).spelling)
  | .moment m => .ok (some (Value.moment m).spelling)
  | v => .error (.notStorable v.kind)

/-- A double as an integer if it is whole, and inside the integers of 64 bits. -/
def Double.wholeInColumn (x : Double) : Number :=
  match x.toInt? with
  | some n =>
    if -9223372036854775808 < n ∧ n < 9223372036854775807 then .int n else .double x
  | none => .double x

/-- What a number becomes as the whole text of a document. -/
def Number.inColumn : Number → Number
  | .int n => if fitsWord n then .int n else .double (Decimal.ofInt n).approximate
  | .double x =>
    match x.shortest? with
    | some d => d.approximate.wholeInColumn
    | none => .double x

/-- What a value becomes as a document. -/
def Value.inColumn : Value → Value
  | .number n => .number n.inColumn
  | v => v

end Loyalty
