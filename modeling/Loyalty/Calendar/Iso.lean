import Loyalty.Calendar.Moment

/-!
# Reading ISO 8601

A moment is written as a date, one separating character of any kind, a time of
day and an offset. Dates are `YYYY-MM-DD`, `YYYYMMDD`, or a week date with or
without its day; times and offsets are up to three parts of two digits, with or
without colons, the last part with a fraction. The date ends where the longest of
these forms does, unless the hyphen of a week's day is followed by two digits:
then it separates the time. A text that ends with the date is midnight; after a
separator there has to be a time.

The reading of a time is lenient. It ends at the first sign or `Z`, and there one
ASCII character that belongs to no part may be left over, or anything at all
behind six digits of a fraction; without an offset nothing may be left. A NUL
counts as the end of the text.
-/

namespace Loyalty

/-- An ASCII digit. -/
def isAsciiDigit (c : Char) : Bool := (asciiDigit? c).isSome

/-- Reads exactly `count` ASCII digits. -/
def readDigits? (count : Nat) (cs : List Char) : Option (Nat × List Char) :=
  let (ds, rest) := takeDigits asciiDigit? (cs.take count)
  if ds.length = count ∧ rest = [] then some (ofDigits ds, cs.drop count) else none

/-- How many characters the date takes up. -/
def dateLength (cs : List Char) : Nat :=
  if cs.length = 7 then 7
  else if cs[4]? = some '-' then
    if cs[5]? = some 'W' then
      if cs[8]? = some '-' ∧ cs[10]?.any isAsciiDigit = false then 10 else 8
    else 10
  else if cs[4]? = some 'W' then
    let day := 7 + ((cs.drop 7).takeWhile isAsciiDigit).length
    if day < 9 then day else if day % 2 = 0 then 7 else 8
  else 8

/-- Reads a month and a day, with the separator that stood after the year. -/
def readMonthDay? (year : Nat) (hyphens : Bool) (cs : List Char) : Option Date := do
  let (month, cs) ← readDigits? 2 cs
  let cs ← if hyphens then (match cs with | '-' :: cs => some cs | _ => none) else some cs
  let (day, cs) ← readDigits? 2 cs
  if cs = [] then Date.of? year month day else none

/-- Reads a week and possibly its day, Monday when it is left out. -/
def readWeek? (year : Nat) (hyphens : Bool) (cs : List Char) : Option Date := do
  let (week, cs) ← readDigits? 2 cs
  match cs with
  | [] => Date.ofWeek? year week 1
  | cs =>
    let cs ← if hyphens then (match cs with | '-' :: cs => some cs | _ => none) else some cs
    let (day, cs) ← readDigits? 1 cs
    if cs = [] then Date.ofWeek? year week day else none

/-- Reads a date that fills the whole text. -/
def readDate? (cs : List Char) : Option Date := do
  let (year, cs) ← readDigits? 4 cs
  match cs with
  | '-' :: 'W' :: cs => readWeek? year true cs
  | '-' :: cs => readMonthDay? year true cs
  | 'W' :: cs => readWeek? year false cs
  | cs => readMonthDay? year false cs

/-- The parts of a written time of day or offset, not yet held to any range. -/
structure TimeParts where
  hour : Nat
  minute : Nat
  second : Nat
  micro : Nat

/-- The parts of a time from its numbers, those that were left out being zero. -/
def TimeParts.of (numbers : List Nat) (micro : Nat) : TimeParts :=
  ⟨numbers[0]?.getD 0, numbers[1]?.getD 0, numbers[2]?.getD 0, micro⟩

/-- Whether a text is over. -/
def isOver : List Char → Bool
  | [] => true
  | c :: _ => c = '\x00'

/-- What follows two digits of a time. -/
inductive AfterPart where
  /-- Nothing, or one character left over; tells if that ends the text. -/
  | done (ended : Bool)
  | part (cs : List Char)
  | fraction (cs : List Char)

/-- Tells what follows two digits of a time. -/
def afterPart? (colons : Bool) : List Char → Option AfterPart
  | [] => some (.done true)
  | [c] => if c.toNat < 128 then some (.done (isOver [c])) else none
  | c :: cs =>
    if colons ∧ c = ':' then some (.part cs)
    else if c = '.' ∨ c = ',' then some (.fraction cs)
    else if colons then none
    else some (.part (c :: cs))

/-- The numbers of a time, its microseconds, and whether the text is over behind
them. -/
structure ReadParts where
  numbers : List Nat
  micro : Nat
  ended : Bool

/-- Puts a number in front. -/
def ReadParts.push (number : Nat) (read : ReadParts) : ReadParts :=
  { read with numbers := number :: read.numbers }

/-- Reads a fraction of a second, of which six digits count. Fewer have to fill the
rest of the text. -/
def readFraction? (cs : List Char) : Option ReadParts := do
  let count := min 6 cs.length
  let (value, cs) ← readDigits? count cs
  return ⟨[], value * Nat.pow 10 (6 - count), isOver (cs.dropWhile isAsciiDigit)⟩

/-- Reads some parts of a time at most, and the fraction. -/
def readParts? (colons : Bool) : Nat → List Char → Option ReadParts
  | 0, cs => readFraction? cs
  | left + 1, cs => do
    let (number, cs) ← readDigits? 2 cs
    let after ← match ← afterPart? colons cs with
      | .done ended => some ⟨[], 0, ended⟩
      | .part cs => readParts? colons left cs
      | .fraction cs => readFraction? cs
    return after.push number

/-- Reads the parts of a time, and whether the text is over behind them. Colons
stand between all parts or between none. -/
def readTimeParts? (cs : List Char) : Option (TimeParts × Bool) :=
  (readParts? (cs[2]? = some ':') 3 cs).map fun read => (.of read.numbers read.micro, read.ended)

/-- The whole seconds of some parts. -/
def TimeParts.seconds (p : TimeParts) : Nat := (p.hour * 60 + p.minute) * 60 + p.second

/-- The length of some parts in microseconds. -/
def TimeParts.micros (p : TimeParts) : Nat := p.seconds * 1000000 + p.micro

/-- Reads an offset after its sign; its minutes can exceed an hour. One of less
than a second is none. -/
def readOffset? (negative : Bool) (cs : List Char) : Option UtcOffset :=
  match readTimeParts? cs with
  | some (parts, true) =>
    if parts.seconds = 0 then some .utc
    else UtcOffset.of? (if negative then -(parts.micros : Int) else parts.micros)
  | _ => none

/-- The time of day with some parts. -/
def TimeParts.timeOfDay? (p : TimeParts) : Option TimeOfDay :=
  TimeOfDay.of? p.hour p.minute p.second p.micro

/-- A sign or the letter for UTC, which ends the time of day and begins the
offset. -/
def beginsOffset (c : Char) : Bool := c = '+' || c = '-' || c = 'Z'

/-- Reads an offset, if there is one behind a time of day. -/
def readOffsetAfter? (ended : Bool) : List Char → Option (Option UtcOffset)
  | [] => if ended then some none else none
  | 'Z' :: cs => if isOver cs then some (some .utc) else none
  | sign :: cs => (readOffset? (sign = '-') cs).map some

/-- Reads a time of day with or without an offset. -/
def readTime? (cs : List Char) : Option (TimeOfDay × Option UtcOffset) := do
  let (parts, ended) ← readTimeParts? (cs.takeWhile fun c => !beginsOffset c)
  let offset ← readOffsetAfter? ended (cs.dropWhile fun c => !beginsOffset c)
  let time ← parts.timeOfDay?
  return (time, offset)

/-- Reads a moment that fills the whole text. -/
def Moment.read? (cs : List Char) : Option Moment := do
  let date ← readDate? (cs.take (dateLength cs))
  match cs.drop (dateLength cs) with
  | [] => some (.ofDate date)
  | _ :: cs => (readTime? cs).map fun (time, offset) => ⟨date, time, offset⟩

/-- A final `Z` of either case stands for the offset of UTC. -/
def expandZulu (cs : List Char) : List Char :=
  match cs.reverse with
  | 'Z' :: rest => rest.reverse ++ ['+', '0', '0', ':', '0', '0']
  | 'z' :: rest => rest.reverse ++ ['+', '0', '0', ':', '0', '0']
  | _ => cs

/-- The moment that a text with blanks around it denotes. -/
def Moment.ofText? (text : String) : Option Moment :=
  Moment.read? (expandZulu (strip text.toList))

end Loyalty
