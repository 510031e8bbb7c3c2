/-!
# Blanks and digits

Texts that people type are trimmed and read with the Unicode classes of white
space and of decimal digits. Decimal digits come in runs of ten, so the place in
its run is the value of a digit. Some further characters are digits that stand
for no decimal place, such as superscripts and circled numbers.
-/

namespace Loyalty

/-- Whether a character lies in one of some closed ranges of code points. -/
def inRanges (ranges : List (Nat × Nat)) (c : Char) : Bool :=
  ranges.any fun range => range.1 ≤ c.toNat && c.toNat ≤ range.2

/-- The code points of white space. -/
def blankRanges : List (Nat × Nat) :=
  [(0x0009, 0x000d), (0x001c, 0x0020), (0x0085, 0x0085), (0x00a0, 0x00a0), (0x1680, 0x1680),
   (0x2000, 0x200a), (0x2028, 0x2029), (0x202f, 0x202f), (0x205f, 0x205f), (0x3000, 0x3000)]

/-- White space, the four ASCII information separators included. -/
def isBlank (c : Char) : Bool := inRanges blankRanges c

/-- White space, the four ASCII information separators left out. -/
def isPlainBlank (c : Char) : Bool := isBlank c && !(28 ≤ c.toNat && c.toNat ≤ 31)

/-- Drops the characters of a class from both ends. -/
def trimBoth (p : Char → Bool) (cs : List Char) : List Char :=
  ((cs.dropWhile p).reverse.dropWhile p).reverse

/-- Drops white space from both ends. -/
def strip (cs : List Char) : List Char := trimBoth isBlank cs

/-- The code points of decimal digits; each range holds whole runs from zero to nine. -/
def decimalRanges : List (Nat × Nat) :=
  [(0x0030, 0x0039), (0x0660, 0x0669), (0x06f0, 0x06f9), (0x07c0, 0x07c9), (0x0966, 0x096f),
   (0x09e6, 0x09ef), (0x0a66, 0x0a6f), (0x0ae6, 0x0aef), (0x0b66, 0x0b6f), (0x0be6, 0x0bef),
   (0x0c66, 0x0c6f), (0x0ce6, 0x0cef), (0x0d66, 0x0d6f), (0x0de6, 0x0def), (0x0e50, 0x0e59),
   (0x0ed0, 0x0ed9), (0x0f20, 0x0f29), (0x1040, 0x1049), (0x1090, 0x1099), (0x17e0, 0x17e9),
   (0x1810, 0x1819), (0x1946, 0x194f), (0x19d0, 0x19d9), (0x1a80, 0x1a89), (0x1a90, 0x1a99),
   (0x1b50, 0x1b59), (0x1bb0, 0x1bb9), (0x1c40, 0x1c49), (0x1c50, 0x1c59), (0xa620, 0xa629),
   (0xa8d0, 0xa8d9), (0xa900, 0xa909), (0xa9d0, 0xa9d9), (0xa9f0, 0xa9f9), (0xaa50, 0xaa59),
   (0xabf0, 0xabf9), (0xff10, 0xff19), (0x104a0, 0x104a9), (0x10d30, 0x10d39), (0x11066, 0x1106f),
   (0x110f0, 0x110f9), (0x11136, 0x1113f), (0x111d0, 0x111d9), (0x112f0, 0x112f9),
   (0x11450, 0x11459), (0x114d0, 0x114d9), (0x11650, 0x11659), (0x116c0, 0x116c9),
   (0x11730, 0x11739), (0x118e0, 0x118e9), (0x11950, 0x11959), (0x11c50, 0x11c59),
   (0x11d50, 0x11d59), (0x11da0, 0x11da9), (0x16a60, 0x16a69), (0x16ac0, 0x16ac9),
   (0x16b50, 0x16b59), (0x1d7ce, 0x1d7ff), (0x1e140, 0x1e149), (0x1e2f0, 0x1e2f9),
   (0x1e950, 0x1e959), (0x1fbf0, 0x1fbf9)]

/-- The value of a decimal digit of any script. -/
def decimalDigit? (c : Char) : Option Nat :=
  (decimalRanges.find? fun range => range.1 ≤ c.toNat && c.toNat ≤ range.2).map fun range =>
    (c.toNat - range.1) % 10

/-- The code points of digits that are not decimal digits. -/
def otherDigitRanges : List (Nat × Nat) :=
  [(0x00b2, 0x00b3), (0x00b9, 0x00b9), (0x1369, 0x1371), (0x19da, 0x19da), (0x2070, 0x2070),
   (0x2074, 0x2079), (0x2080, 0x2089), (0x2460, 0x2468), (0x2474, 0x247c), (0x2488, 0x2490),
   (0x24ea, 0x24ea), (0x24f5, 0x24fd), (0x24ff, 0x24ff), (0x2776, 0x277e), (0x2780, 0x2788),
   (0x278a, 0x2792), (0x10a40, 0x10a43), (0x10e60, 0x10e68), (0x11052, 0x1105a), (0x1f100, 0x1f10a)]

/-- Any digit, whether it has a decimal place or not. -/
def isAnyDigit (c : Char) : Bool := (decimalDigit? c).isSome || inRanges otherDigitRanges c

/-- The value of an ASCII digit. -/
def asciiDigit? (c : Char) : Option Nat :=
  if '0' ≤ c ∧ c ≤ '9' then some (c.toNat - 48) else none

/-- The values of the leading digits, and what follows them. -/
def takeDigits (digit? : Char → Option Nat) : List Char → List Nat × List Char
  | [] => ([], [])
  | c :: cs =>
    match digit? c with
    | some d => let (ds, rest) := takeDigits digit? cs; (d :: ds, rest)
    | none => ([], c :: cs)

/-- The number that decimal digits spell. -/
def ofDigits (ds : List Nat) : Nat := ds.foldl (fun n d => 10 * n + d) 0

/-- The digits of a number in a base, filled up with zeros to a width. -/
def paddedDigits (base width n : Nat) : List Char :=
  let digits := Nat.toDigits base n
  List.replicate (width - digits.length) '0' ++ digits

/-- Nothing is lost when the leading digits are taken off. -/
theorem length_takeDigits (digit? : Char → Option Nat) (cs : List Char) :
    (takeDigits digit? cs).1.length + (takeDigits digit? cs).2.length = cs.length := by
  induction cs with
  | nil => rfl
  | cons c cs ih =>
    unfold takeDigits
    split
    · simp only [List.length_cons]
      omega
    · simp

/-- An ASCII digit is a decimal digit of the same value. -/
theorem decimalDigit?_of_asciiDigit? {c : Char} {d : Nat} (h : asciiDigit? c = some d) :
    decimalDigit? c = some d := by
  unfold asciiDigit? at h
  split at h
  · rename_i hrange
    have hlow : 48 ≤ c.toNat := hrange.1
    have hhigh : c.toNat ≤ 57 := hrange.2
    simp only [Option.some.injEq] at h
    simp only [decimalDigit?, decimalRanges]
    rw [List.find?_cons_of_pos (by simp [hlow, hhigh])]
    simp only [Option.map_some, Option.some.injEq]
    omega
  · cases h

end Loyalty
