import Loyalty.Number.Basic
import Loyalty.Number.Decimal

/-!
# Shortest decimals

Every double is written with the fewest significant digits that read back as
the same double, and among those with the digits nearest to it. For one digit,
two digits and so on, the two neighbours of the double on that decimal grid are
tried, the nearer one first: the doubles that are read back from a grid form an
interval around the double, so if any point of the grid reads back, one of these
two does.
-/

namespace Loyalty

/-- How many decimal digits a natural has. -/
def digitCount (n : Nat) : Nat := (Nat.toDigits 10 n).length

/-- The exponent of the leading decimal digit of a positive quotient. -/
def leadingExponent (num den : Nat) : Int :=
  if den ≤ num then (digitCount (num / den) : Int) - 1 else -(digitCount ((den - 1) / num) : Int)

/-- A quotient as another one that counts it in multiples of `10 ^ exponent`. -/
def gridQuotient (num den : Nat) (exponent : Int) : Nat × Nat :=
  if 0 ≤ exponent then (num, den * Nat.pow 10 exponent.toNat)
  else (num * Nat.pow 10 exponent.natAbs, den)

/-- The multiples of `10 ^ exponent` next to a quotient, the nearer one first; a
tie goes to the even multiple. -/
def gridNeighbours (num den : Nat) (exponent : Int) : List Nat :=
  let (num, den) := gridQuotient num den exponent
  let floor := num / den
  let nearest := roundQuotient .toEven num den
  [nearest, if nearest = floor then floor + 1 else floor]

namespace Double

/-- The magnitude of a double as a count of units. -/
def magnitude (x : Double) : Nat := x.units.natAbs

/-- The decimal on the grid `10 ^ exponent` that reads back as a double, if there
is one. -/
def onGrid? (x : Double) (negative : Bool) (exponent : Int) : Option Decimal :=
  ((gridNeighbours x.magnitude unitsPerOne exponent).map fun coefficient =>
    (⟨negative, coefficient, exponent⟩ : Decimal)).find? fun d => d.toDouble = x

/-- The shortest decimal that reads back as a finite double; absent for the
others. Seventeen digits are always enough. -/
def shortest? (x : Double) : Option Decimal :=
  match x with
  | .finite negative mantissa _ _ =>
    if mantissa = 0 then some ⟨negative, 0, 0⟩
    else
      let leading := leadingExponent x.magnitude unitsPerOne
      (List.range 17).findSome? fun (n : Nat) => x.onGrid? negative (leading - n)
  | _ => none

end Double

/-- How decimals are laid out as text: which leading exponents are written
positionally, how many digits an exponent has at least, and whether a single
digit before an exponent gets a point and a zero. -/
structure DecimalLayout where
  lowestPositional : Int
  firstScientific : Int
  exponentDigits : Nat
  pointedMantissa : Bool

namespace DecimalLayout

/-- Digits without the zeros at their end, at least one of them. -/
def trimZeros (digits : List Char) : List Char :=
  match (digits.reverse.dropWhile (· = '0')).reverse with
  | [] => ['0']
  | trimmed => trimmed

/-- The digits with a point after the first `whole` of them, filled up with
zeros, and with at least one digit on each side. -/
def positional (digits : List Char) (leading : Int) : List Char :=
  if leading < 0 then
    '0' :: '.' :: (List.replicate (leading.natAbs - 1) '0' ++ digits)
  else
    let whole := leading.toNat + 1
    let fraction := digits.drop whole
    digits.take whole ++ List.replicate (whole - digits.length) '0' ++
      '.' :: (if fraction.isEmpty then ['0'] else fraction)

/-- One digit, a point if more follow or the layout wants one, and the exponent
with its sign. -/
def scientific (layout : DecimalLayout) (digits : List Char) (leading : Int) : List Char :=
  let mantissa := match digits with
    | first :: second :: rest => first :: '.' :: second :: rest
    | short => if layout.pointedMantissa then short ++ ['.', '0'] else short
  let exponent := Nat.toDigits 10 leading.natAbs
  mantissa ++ 'e' :: (if leading < 0 then '-' else '+') ::
    (List.replicate (layout.exponentDigits - exponent.length) '0' ++ exponent)

/-- The text of a decimal. -/
def write (layout : DecimalLayout) (d : Decimal) : List Char :=
  let written := Nat.toDigits 10 d.coefficient
  let leading : Int := if d.coefficient = 0 then 0 else d.exponent + written.length - 1
  let digits := trimZeros written
  let body :=
    if layout.lowestPositional ≤ leading ∧ leading < layout.firstScientific then
      positional digits leading
    else layout.scientific digits leading
  if d.negative then '-' :: body else body

end DecimalLayout

/-- Doubles are positional from `0.0001` up to but not including `10 ^ 16`, and
an exponent has two digits or more. -/
def doubleLayout : DecimalLayout := ⟨-4, 16, 2, false⟩

/-- The text of a double: its shortest decimal, or the name of a value that has
none. -/
def Double.text (x : Double) : String :=
  match x with
  | .nan => "nan"
  | .infinity negative => if negative then "-inf" else "inf"
  | x => String.ofList ((x.shortest?.map doubleLayout.write).getD [])

/-- The text of an integer. -/
def intText (n : Int) : String :=
  String.ofList ((if n < 0 then ['-'] else []) ++ Nat.toDigits 10 n.natAbs)

/-- The text of a number. -/
def Number.text : Number → String
  | .int n => intText n
  | .double x => x.text

end Loyalty
