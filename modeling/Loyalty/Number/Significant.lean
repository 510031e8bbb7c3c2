import Loyalty.Number.Working

/-!
# Fifteen significant digits

The fifteen leading digits of a double are worked out on magnitudes of 64
significant bits. The magnitude is brought between one and ten by powers of ten,
half a unit of the fifteenth digit is added, and the digits are cut off one by one.
Half way between two neighbours the roundings on the way decide which of them is
written.
-/

namespace Loyalty

namespace Working

/-- Makes a scale larger by a number of decimal places, as often as a magnitude
reaches the larger one and a number of times at most; counts the places. -/
def raise (w : Working) (places : Nat) : Nat → Working × Nat → Working × Nat
  | 0, scaled => scaled
  | left + 1, (scale, exponent) =>
    let larger := scale.times (ofDecimal 1 places)
    if w.reaches larger then raise w places left (larger, exponent + places)
    else (scale, exponent)

/-- Makes a magnitude larger by a number of decimal places, as often as it does not
reach a bound and a number of times at most; counts the places. -/
def lift (bound : Working) (places : Nat) : Nat → Working × Nat → Working × Nat
  | 0, lifted => lifted
  | left + 1, (w, exponent) =>
    if w.reaches bound then (w, exponent)
    else lift bound places left (w.times (ofDecimal 1 places), exponent + places)

/-- A magnitude that is not zero as one between one and ten, and the power of ten
that was taken out. The doubles have less than 310 places before the point and
less than 330 behind it. -/
def normalized (w : Working) : Working × Int :=
  let (scale, down) := raise w 1 10 (raise w 10 10 (raise w 100 4 (one, 0)))
  let (w, up) := lift one 1 10 (lift (ofDecimal 1 (-8)) 8 42 (w.dividedBy scale, 0))
  (w, (down : Int) - up)

/-- Half a unit of the fifteenth digit of a magnitude between one and ten. -/
def halfUnit : Working :=
  ofDouble ((Decimal.toDouble ⟨false, 5, -5⟩).mul (Decimal.toDouble ⟨false, 1, -10⟩))

/-- Rounds up by half a unit, which can lead to ten; that is one again, with the
next power of ten. -/
def roundedUp : Working × Int → Working × Int
  | (w, exponent) =>
    let w := w.plus halfUnit
    if w.reaches (ofDecimal 10 0) then (w.times (ofDecimal 1 (-1)), exponent + 1)
    else (w, exponent)

/-- Cuts digits off a magnitude below ten and adds them to those cut off before. -/
def cutDigits : Nat → Working → Nat → Nat
  | 0, _, digits => digits
  | left + 1, w, digits =>
    cutDigits left (nearest (w.units % unitsPerOne * 10) 1)
      (digits * 10 + w.units / unitsPerOne)

end Working

/-- The decimal of a finite double with fifteen significant digits; absent for the
other doubles. -/
def Double.fifteenDigits? (x : Double) : Option Decimal :=
  match x with
  | .finite negative mantissa _ _ =>
    if mantissa = 0 then some ⟨negative, 0, 0⟩
    else
      let (w, exponent) := Working.roundedUp (Working.ofDouble x).normalized
      some ⟨negative, Working.cutDigits 15 w 0, exponent - 14⟩
  | _ => none

end Loyalty
