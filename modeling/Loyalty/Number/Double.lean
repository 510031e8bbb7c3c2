import Loyalty.Number.Rounding

/-!
# Double precision numbers

A finite double is a sign, a mantissa and a shift: it stands for the mantissa
times two to the shift, counted in units of two to the power -1074. The
canonical form of that pair is unique, so two doubles with the same bits are
equal terms. Every operation computes the exact quotient of two naturals and
rounds it once, to nearest with ties to even.
-/

namespace Loyalty

/-- The mantissa is full, or the shift is zero, so that no magnitude is written
twice; both fit the format. -/
def Canonical (mantissa shift : Nat) : Prop :=
  mantissa < 9007199254740992 ∧ shift ≤ 2045 ∧ (shift = 0 ∨ 4503599627370496 ≤ mantissa)

instance (mantissa shift : Nat) : Decidable (Canonical mantissa shift) :=
  inferInstanceAs (Decidable (_ ∧ _ ∧ _))

/-- A double precision number. -/
inductive Double where
  /-- Not a number. -/
  | nan
  /-- One of the two infinities. -/
  | infinity (negative : Bool)
  /-- A signed multiple of the smallest unit; zero keeps its sign. -/
  | finite (negative : Bool) (mantissa shift : Nat) (canonical : Canonical mantissa shift)
  deriving DecidableEq

namespace Double

/-- How many units make one: two to the power 1074. -/
def unitsPerOne : Nat := 1 <<< 1074

/-- Zero with the given sign. -/
def zero (negative : Bool) : Double := .finite negative 0 0 (by decide)

/-- The double nearest to `num / den` units, an infinity when that is too large. -/
def ofUnits (negative : Bool) (num den : Nat) : Double :=
  let shift := (num / den).log2 - 52
  let mantissa := roundQuotient .toEven num (den <<< shift)
  if h : Canonical mantissa shift then .finite negative mantissa shift h
  else if h : Canonical 4503599627370496 (shift + 1) then
    .finite negative 4503599627370496 (shift + 1) h
  else .infinity negative

/-- The double nearest to `num / den`. -/
def ofRatio (negative : Bool) (num den : Nat) : Double :=
  ofUnits negative (num <<< 1074) den

/-- The double nearest to an integer, an infinity when that is too large. -/
def nearestInt (n : Int) : Double := ofRatio (n < 0) n.natAbs 1

/-- The double nearest to an integer, absent when only an infinity is near. -/
def ofInt? (n : Int) : Option Double :=
  match nearestInt n with
  | .finite negative mantissa shift h => some (.finite negative mantissa shift h)
  | _ => none

/-- Neither an infinity nor not a number. -/
def isFinite : Double → Bool
  | .finite .. => true
  | _ => false

/-- Only not-a-number. -/
def isNaN : Double → Bool
  | .nan => true
  | _ => false

/-- Zero of either sign. -/
def isZero : Double → Bool
  | .finite _ mantissa _ _ => mantissa == 0
  | _ => false

/-- A count of units with a sign. -/
def signed (negative : Bool) (units : Nat) : Int :=
  if negative then -(units : Int) else units

/-- The exact value of a finite double as a count of units; zero for the others. -/
def units : Double → Int
  | .finite negative mantissa shift _ => signed negative (mantissa <<< shift)
  | _ => 0

/-- The same magnitude with the other sign. -/
def neg : Double → Double
  | .nan => .nan
  | .infinity negative => .infinity (!negative)
  | .finite negative mantissa shift h => .finite (!negative) mantissa shift h

/-- The rounded sum. Opposite numbers add up to positive zero. -/
def add : Double → Double → Double
  | .nan, _ => .nan
  | _, .nan => .nan
  | .infinity a, .infinity b => if a = b then .infinity a else .nan
  | .infinity a, _ => .infinity a
  | _, .infinity b => .infinity b
  | .finite a m s _, .finite b n t _ =>
    let sum := signed a (m <<< s) + signed b (n <<< t)
    if sum = 0 then zero (a && b) else ofUnits (sum < 0) sum.natAbs 1

/-- The rounded difference. -/
def sub (x y : Double) : Double := add x (neg y)

/-- The rounded product. -/
def mul : Double → Double → Double
  | .nan, _ => .nan
  | _, .nan => .nan
  | .infinity a, .infinity b => .infinity (a ^^ b)
  | .infinity a, .finite b n _ _ => if n = 0 then .nan else .infinity (a ^^ b)
  | .finite a m _ _, .infinity b => if m = 0 then .nan else .infinity (a ^^ b)
  | .finite a m s _, .finite b n t _ =>
    ofUnits (a ^^ b) ((m <<< s) * (n <<< t)) unitsPerOne

/-- The rounded quotient by a positive whole number. -/
def divNat (x : Double) (n : Nat) : Double :=
  match x with
  | .nan => .nan
  | .infinity negative => .infinity negative
  | .finite negative mantissa shift _ => ofUnits negative (mantissa <<< shift) n

/-- The integer a finite double is equal to, if it has no fraction. -/
def toInt? : Double → Option Int
  | .finite negative mantissa shift _ =>
    if (mantissa <<< shift) % unitsPerOne = 0 then
      some (signed negative ((mantissa <<< shift) / unitsPerOne))
    else none
  | _ => none

end Double

end Loyalty
