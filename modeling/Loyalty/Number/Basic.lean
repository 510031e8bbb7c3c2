import Loyalty.Number.Double

/-!
# Numbers of rules and records

A number is an integer of any size or a double. The two kinds are told apart
when they are written, and compared by exact value: integers are never rounded
on the way to a comparison.
-/

namespace Loyalty

/-- A place on the line of exact values, with both infinities at its ends. -/
inductive Level where
  /-- Below every finite value. -/
  | below
  /-- A finite value as a count of the smallest unit of doubles. -/
  | at (units : Int)
  /-- Above every finite value. -/
  | above
  deriving DecidableEq

/-- The strict order of the line. -/
def Level.lt : Level → Level → Bool
  | .below, .below => false
  | .below, _ => true
  | .at a, .at b => a < b
  | .at _, .above => true
  | _, _ => false

/-- The place of a double, absent for not-a-number. -/
def Double.level? : Double → Option Level
  | .nan => none
  | .infinity true => some .below
  | .infinity false => some .above
  | x => some (.at x.units)

/-- `x < y` on doubles; not-a-number is not comparable. -/
def Double.lt (x y : Double) : Bool :=
  match x.level?, y.level? with
  | some a, some b => a.lt b
  | _, _ => false

/-- `x = y` by value on doubles: zeros are equal, not-a-number equals nothing. -/
def Double.eq (x y : Double) : Bool :=
  match x.level?, y.level? with
  | some a, some b => a = b
  | _, _ => false

/-- `x ≤ y` on doubles. -/
def Double.le (x y : Double) : Bool := x.lt y || x.eq y

/-- An integer of any size or a double. -/
inductive Number where
  | int (n : Int)
  | double (x : Double)
  deriving DecidableEq

namespace Number

/-- The exact place of a number, absent for not-a-number. -/
def level? : Number → Option Level
  | .int n => some (.at (n * Double.unitsPerOne))
  | .double x => x.level?

/-- Equality by exact value; not-a-number equals nothing. -/
def eq (x y : Number) : Bool :=
  match x.level?, y.level? with
  | some a, some b => a = b
  | _, _ => false

/-- Strict order by exact value; not-a-number is not comparable. -/
def lt (x y : Number) : Bool :=
  match x.level?, y.level? with
  | some a, some b => a.lt b
  | _, _ => false

/-- Zero of either kind and sign. -/
def isZero : Number → Bool
  | .int n => n == 0
  | .double x => x.isZero

/-- Only the double that is not a number. -/
def isNaN : Number → Bool
  | .int _ => false
  | .double x => x.isNaN

/-- The nearest double, absent when an integer is too large for one. -/
def toDouble? : Number → Option Double
  | .int n => Double.ofInt? n
  | .double x => some x

/-- The sum, exact on two integers and a double otherwise; absent when an
integer that meets a double is too large for one. -/
def add? : Number → Number → Option Number
  | .int a, .int b => some (.int (a + b))
  | x, y => do
    let a ← x.toDouble?
    let b ← y.toDouble?
    return .double (a.add b)

end Number

end Loyalty
