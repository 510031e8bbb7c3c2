import Loyalty.Number.Double

/-!
# Decimal numerals

A decimal is a signed coefficient times a power of ten. It is what a numeral
denotes, what the shortest text of a double spells, and what is rounded to
cents. Both conversions to doubles round the exact value once; an exponent far
out of range decides the answer without writing the power out.
-/

namespace Loyalty

/-- The value `± coefficient · 10 ^ exponent`, the sign being kept on zero. -/
structure Decimal where
  negative : Bool
  coefficient : Nat
  exponent : Int
  deriving DecidableEq

namespace Decimal

/-- A decimal that is a whole number. -/
def ofInt (n : Int) : Decimal := ⟨n < 0, n.natAbs, 0⟩

/-- The double nearest to a decimal. From `10 ^ 400` on that is an infinity;
where ten to the minus exponent is above the coefficient times two to the power
1101, it is zero. -/
def toDouble (d : Decimal) : Double :=
  if d.coefficient = 0 then .zero d.negative
  else if 0 ≤ d.exponent then
    if 400 < d.exponent then .infinity d.negative
    else Double.ofRatio d.negative (d.coefficient * Nat.pow 10 d.exponent.toNat) 1
  else if d.coefficient.log2 + 1102 < 3 * d.exponent.natAbs then .zero d.negative
  else Double.ofRatio d.negative d.coefficient (Nat.pow 10 d.exponent.natAbs)

/-- The number of whole cents nearest to the magnitude, a half going up; absent
when it has more than 400 digits. -/
def cents? (d : Decimal) : Option Nat :=
  let places := d.exponent + 2
  let cents :=
    if d.coefficient = 0 then some 0
    else if 0 ≤ places then
      if 400 < places then none else some (d.coefficient * Nat.pow 10 places.toNat)
    else if d.coefficient.log2 + 2 < 3 * places.natAbs then some 0
    else some (roundQuotient .up d.coefficient (Nat.pow 10 places.natAbs))
  cents.filter fun n => n < Nat.pow 10 400

/-- The double nearest to the decimal rounded to cents, half away from zero;
absent when there are more than 400 digits of cents. -/
def round2? (d : Decimal) : Option Double :=
  d.cents?.map fun n => Double.ofRatio d.negative n 100

end Decimal

end Loyalty
