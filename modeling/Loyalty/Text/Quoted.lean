import Loyalty.Text.Printable

/-!
# Quoted texts and their parts

Diagnostics show a text in quotes, single ones unless only double ones avoid an
escape, with everything unprintable escaped by its code point. This file also
holds the three questions that conditions ask about parts of a text, and the
splitting of a dotted path.
-/

namespace Loyalty

/-- A character inside quotes of the given kind. -/
def quotedChar (quote c : Char) : List Char :=
  if c = quote ∨ c = '\\' then ['\\', c]
  else if c = '\t' then ['\\', 't']
  else if c = '\n' then ['\\', 'n']
  else if c = '\r' then ['\\', 'r']
  else if isPrintable c then [c]
  else if c.toNat < 256 then '\\' :: 'x' :: paddedDigits 16 2 c.toNat
  else if c.toNat < 65536 then '\\' :: 'u' :: paddedDigits 16 4 c.toNat
  else '\\' :: 'U' :: paddedDigits 16 8 c.toNat

/-- The quotes that a text is put in: double ones exactly when it holds a single
one and no double one. -/
def quoteFor (cs : List Char) : Char :=
  if cs.contains '\'' && !cs.contains '"' then '"' else '\''

/-- A text in quotes. -/
def quoted (cs : List Char) : List Char :=
  let quote := quoteFor cs
  quote :: (cs.flatMap (quotedChar quote) ++ [quote])

/-- Whether `part` stands somewhere in a text. -/
def occursIn (part : List Char) : List Char → Bool
  | [] => part.isEmpty
  | c :: cs => part.isPrefixOf (c :: cs) || occursIn part cs

/-- Whether a text ends in `part`. -/
def endsIn (part cs : List Char) : Bool := part.reverse.isPrefixOf cs.reverse

/-- The parts of a text between the occurrences of a separator; one more than
there are separators. -/
def segments (separator : Char) : List Char → List (List Char)
  | [] => [[]]
  | c :: cs =>
    if c = separator then [] :: segments separator cs
    else match segments separator cs with
      | [] => [[c]]
      | part :: parts => (c :: part) :: parts

end Loyalty
