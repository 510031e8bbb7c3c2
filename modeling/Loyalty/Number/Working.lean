import Loyalty.Number.Decimal

/-!
# Working magnitudes

Doubles are written into the store and read from it by a few operations on
magnitudes of 64 significant bits. Each operation rounds its exact result once, to
nearest with ties to even.
-/

namespace Loyalty

/-- A magnitude of 64 significant bits at most, as a count of units of two to the
power -1200. -/
structure Working where
  units : Nat
  deriving DecidableEq

namespace Working

/-- How many units make one: two to the power 1200. -/
def unitsPerOne : Nat := 1 <<< 1200

/-- The magnitude with 64 significant bits that is nearest to `num / den` units. -/
def nearest (num den : Nat) : Working :=
  let shift := (num / den).log2 - 63
  ⟨roundQuotient .toEven num (den <<< shift) <<< shift⟩

/-- The magnitude of a finite double; its units are larger by two to the power
126. -/
def ofDouble (x : Double) : Working := ⟨x.units.natAbs <<< 126⟩

/-- One. -/
def one : Working := ⟨unitsPerOne⟩

/-- The double nearest to a magnitude, with a sign. -/
def toDouble (negative : Bool) (w : Working) : Double := Double.ofRatio negative w.units unitsPerOne

/-- Whether a magnitude is at least as large as another one. -/
def reaches (w v : Working) : Bool := v.units ≤ w.units

/-- The rounded sum. -/
def plus (w v : Working) : Working := nearest (w.units + v.units) 1

/-- The rounded product. -/
def times (w v : Working) : Working := nearest (w.units * v.units) unitsPerOne

/-- The rounded quotient. -/
def dividedBy (w scale : Working) : Working := nearest (w.units * unitsPerOne) scale.units

/-- The double nearest to a decimal, as a magnitude. -/
def ofDecimal (coefficient : Nat) (exponent : Int) : Working :=
  ofDouble (Decimal.toDouble ⟨false, coefficient, exponent⟩)

end Working

end Loyalty
