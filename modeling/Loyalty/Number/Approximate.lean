import Loyalty.Number.Working

/-!
# Approximate reading of decimals

A decimal can be read as a double by a few operations on magnitudes of 64
significant bits: a coefficient of 63 bits is multiplied or divided by a power of
ten, and the result made a double. Digits that the coefficient has no room for are
left out. The double that comes of it is the nearest one or a neighbour of it.
-/

namespace Loyalty

namespace Decimal

/-- The largest coefficient. -/
def coefficientLimit : Nat := 9223372036854775807

/-- The leading digits for which a coefficient has room, the value of some digits
before them being given, and how many are left out. -/
def leadingDigits : List Nat → Nat → Nat × Nat
  | [], value => (value, 0)
  | digit :: digits, value =>
    if (coefficientLimit - 9) / 10 ≤ value then (value, digits.length + 1)
    else leadingDigits digits (value * 10 + digit)

/-- Moves decimal places from a positive exponent into the coefficient, as many as
it has room for. -/
def widen : Nat → Nat → Nat × Nat
  | coefficient, 0 => (coefficient, 0)
  | coefficient, exponent + 1 =>
    if coefficientLimit / 10 ≤ coefficient then (coefficient, exponent + 1)
    else widen (coefficient * 10) exponent

/-- Moves zeros at the end of the coefficient into a negative exponent. -/
def narrow : Nat → Nat → Nat × Nat
  | coefficient, 0 => (coefficient, 0)
  | coefficient, exponent + 1 =>
    if coefficient % 10 = 0 then narrow (coefficient / 10) exponent
    else (coefficient, exponent + 1)

/-- Ten to a power that is given by its binary digits, the lowest first, as the
product of repeated squares. -/
def powerProduct : Nat → Nat → Working → Working → Working
  | 0, _, _, product => product
  | left + 1, exponent, square, product =>
    let product := if exponent % 2 = 1 then product.times square else product
    if exponent / 2 = 0 then product
    else powerProduct left (exponent / 2) (square.times square) product

/-- Ten to a power below a thousand. -/
def powerOfTen (exponent : Nat) : Working :=
  powerProduct 10 exponent (.ofDecimal 10 0) .one

/-- The double nearest to ten to the power 308. -/
def outermostPower : Double := toDouble ⟨false, 1, 308⟩

/-- A coefficient times a positive power of ten. From the power 342 on that is an
infinity. -/
def scaledUp (negative : Bool) (coefficient exponent : Nat) : Double :=
  let w : Working := ⟨coefficient * Working.unitsPerOne⟩
  if exponent < 308 then (w.times (powerOfTen exponent)).toDouble negative
  else if exponent < 342 then
    ((w.times (powerOfTen (exponent - 308))).toDouble negative).mul outermostPower
  else .infinity negative

/-- A coefficient over a positive power of ten. From the power 342 on that is
zero. -/
def scaledDown (negative : Bool) (coefficient exponent : Nat) : Double :=
  let w : Working := ⟨coefficient * Working.unitsPerOne⟩
  if exponent < 308 then (w.dividedBy (powerOfTen exponent)).toDouble negative
  else if exponent < 342 then
    Double.ofRatio negative
      ((w.dividedBy (powerOfTen (exponent - 308))).toDouble negative).units.natAbs
      outermostPower.units.natAbs
  else .zero negative

/-- The double that a decimal is read as. -/
def approximate (d : Decimal) : Double :=
  let digits := (Nat.toDigits 10 d.coefficient).map fun c => c.toNat - 48
  let (coefficient, dropped) := leadingDigits digits 0
  let exponent := d.exponent + dropped
  if coefficient = 0 then .zero d.negative
  else if 0 ≤ exponent then
    let (coefficient, exponent) := widen coefficient exponent.toNat
    scaledUp d.negative coefficient exponent
  else
    let (coefficient, exponent) := narrow coefficient exponent.natAbs
    scaledDown d.negative coefficient exponent

end Decimal

end Loyalty
