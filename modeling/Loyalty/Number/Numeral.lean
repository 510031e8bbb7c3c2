import Loyalty.Number.Basic
import Loyalty.Number.Decimal
import Loyalty.Text.CharClass

/-!
# Reading numerals

A decimal literal is an optional sign, digits with an optional point among or
around them, and an optional exponent. Three readers are built on it: amounts in
rules and records take the literal and `Infinity`; a posted amount also takes
single underscores between digits and the words for infinity and not-a-number;
rounding to cents ignores underscores and knows the same words.
-/

namespace Loyalty

/-- Splits an optional sign off; true for a minus. -/
def takeSign : List Char → Bool × List Char
  | '-' :: cs => (true, cs)
  | '+' :: cs => (false, cs)
  | cs => (false, cs)

/-- The value of an exponent part that fills the whole text, zero when the text
is empty. -/
def readExponent? (digit? : Char → Option Nat) : List Char → Option Int
  | [] => some 0
  | mark :: cs =>
    if mark = 'e' ∨ mark = 'E' then
      let (negative, cs) := takeSign cs
      match takeDigits digit? cs with
      | ([], _) => none
      | (ds, []) => some (if negative then -(ofDigits ds : Int) else ofDigits ds)
      | _ => none
    else none

/-- Reads an unsigned decimal literal that fills the whole text. -/
def readMagnitude? (digit? : Char → Option Nat) (negative : Bool) (cs : List Char) :
    Option Decimal :=
  let (whole, rest) := takeDigits digit? cs
  let (fraction, rest) := match rest with
    | '.' :: rest => takeDigits digit? rest
    | rest => ([], rest)
  if whole.isEmpty && fraction.isEmpty then none
  else (readExponent? digit? rest).map fun exponent =>
    ⟨negative, ofDigits (whole ++ fraction), exponent - fraction.length⟩

/-- Reads a decimal literal that fills the whole text. -/
def readDecimal? (cs : List Char) : Option Decimal :=
  let (negative, cs) := takeSign cs
  readMagnitude? decimalDigit? negative cs

/-- The number an amount in a rule or record denotes. A blank text is zero, and
a text that is no literal is not a number. -/
def amountOfText (text : List Char) : Double :=
  let cs := strip text
  if cs.isEmpty then .zero false
  else match readDecimal? cs with
    | some d => d.toDouble
    | none =>
      let (negative, word) := takeSign cs
      if word = ['I', 'n', 'f', 'i', 'n', 'i', 't', 'y'] then .infinity negative else .nan

/-- Whether a text is a lower case ASCII word, in any case. -/
def isWord (word : String) (cs : List Char) : Bool :=
  cs.map Char.toLower == word.toList

/-- Removes underscores that stand between two digits; absent when another one
is left. -/
def dropUnderscores? (afterDigit : Bool) : List Char → Option (List Char)
  | [] => some []
  | '_' :: cs =>
    match cs with
    | [] => none
    | c :: _ =>
      if afterDigit && (decimalDigit? c).isSome then dropUnderscores? false cs else none
  | c :: cs => (dropUnderscores? (decimalDigit? c).isSome cs).map (c :: ·)

/-- The number a posted amount denotes, absent when the text is no number. -/
def postedAmount? (text : List Char) : Option Double :=
  match dropUnderscores? false (trimBoth isPlainBlank text) with
  | none => none
  | some cs =>
    let (negative, body) := takeSign cs
    if isWord "inf" body || isWord "infinity" body then some (.infinity negative)
    else if isWord "nan" body then some .nan
    else (readDecimal? cs).map Decimal.toDouble

/-- What a text to be rounded to cents denotes. -/
inductive CentsText where
  /-- A number. -/
  | number (d : Decimal)
  /-- Not a number. -/
  | nan
  /-- An infinity, a not-a-number that refuses every operation, or a number with
  an exponent out of range. -/
  | refused
  /-- No number at all. -/
  | malformed

/-- The least exponent of a number that can be rounded to cents. -/
def leastCentsExponent : Int := -1999999999999999997

/-- The greatest exponent of a number that can be rounded to cents. -/
def greatestCentsExponent : Int := 999999999999999999

/-- Reads a text to be rounded to cents: blanks around it and underscores
anywhere do not matter. -/
def CentsText.read (text : List Char) : CentsText :=
  let cs := (strip text).filter (· ≠ '_')
  let (_, body) := takeSign cs
  let (word, tail) := body.span fun c => (decimalDigit? c).isNone
  let payload := tail.all fun c => (decimalDigit? c).isSome
  if tail.isEmpty && (isWord "inf" word || isWord "infinity" word) then .refused
  else if payload && isWord "nan" word then .nan
  else if payload && isWord "snan" word then .refused
  else match readDecimal? cs with
    | some d =>
      if leastCentsExponent ≤ d.exponent ∧ d.exponent ≤ greatestCentsExponent then .number d
      else .refused
    | none => .malformed

end Loyalty
