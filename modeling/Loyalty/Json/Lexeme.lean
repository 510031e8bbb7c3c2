import Loyalty.Number.Numeral
import Loyalty.Text.CharClass

/-!
# Texts and numbers of JSON

The two parts of a document that have an inner form are texts in quotes and
numbers. A number with a fraction or an exponent is a double, any other an
integer of any size up to a limit on its digits. A reading stops at the first
fault, which says what was expected and how much text was left there.
-/

namespace Loyalty.Json

/-- What stops a reading. -/
inductive FaultKind where
  | valueExpected
  | commaExpected
  | nameExpected
  | colonExpected
  | extraData
  | unterminatedText
  | controlCharacter
  | badEscape
  | badUnicodeEscape
  | byteOrderMark
  /-- An integer with more digits than the limit. -/
  | tooManyDigits (count : Nat)
  deriving DecidableEq

/-- A fault, with the number of characters from its place to the end. -/
structure Stop where
  kind : FaultKind
  remaining : Nat
  deriving DecidableEq

/-- The value of a hexadecimal digit. -/
def hexDigit? (c : Char) : Option Nat :=
  if '0' ≤ c ∧ c ≤ '9' then some (c.toNat - 48)
  else if 'a' ≤ c ∧ c ≤ 'f' then some (c.toNat - 87)
  else if 'A' ≤ c ∧ c ≤ 'F' then some (c.toNat - 55)
  else none

/-- The UTF-16 unit that four hexadecimal digits spell. -/
def unit? (a b c d : Char) : Option Nat := do
  let a ← hexDigit? a
  let b ← hexDigit? b
  let c ← hexDigit? c
  let d ← hexDigit? d
  return ((a * 16 + b) * 16 + c) * 16 + d

/-- The character that a letter after a backslash stands for. -/
def simpleEscape? (c : Char) : Option Char :=
  if c = '"' ∨ c = '\\' ∨ c = '/' then some c
  else if c = 'b' then some '\x08'
  else if c = 'f' then some '\x0c'
  else if c = 'n' then some '\n'
  else if c = 'r' then some '\r'
  else if c = 't' then some '\t'
  else none

/-- The first unit of a pair. -/
def isHighUnit (unit : Nat) : Bool := 55296 ≤ unit && unit < 56320

/-- The second unit of a pair. -/
def isLowUnit (unit : Nat) : Bool := 56320 ≤ unit && unit < 57344

/-- The character of a unit that stands alone; half a pair gives the replacement
character. -/
def unitChar (unit : Nat) : Char :=
  if isHighUnit unit || isLowUnit unit then '\ufffd' else Char.ofNat unit

/-- The character of a pair of units. -/
def pairChar (high low : Nat) : Char :=
  Char.ofNat (65536 + (high - 55296) * 1024 + (low - 56320))

/-- A part of a text: a character, or a UTF-16 unit written as an escape. -/
inductive Piece where
  | char (c : Char)
  | unit (u : Nat)

/-- The characters of some parts, a high unit and a low one after it making one. -/
def joinUnits : List Piece → List Char
  | [] => []
  | .char c :: pieces => c :: joinUnits pieces
  | [.unit u] => [unitChar u]
  | .unit u :: .char c :: pieces => unitChar u :: c :: joinUnits pieces
  | .unit u :: .unit v :: pieces =>
    if isHighUnit u && isLowUnit v then pairChar u v :: joinUnits pieces
    else unitChar u :: joinUnits (.unit v :: pieces)

/-- Whether half of a pair stands alone among the escapes of a document, where
joining replaces it. A high unit can stand right before the characters. -/
def hasLoneHalf (high : Bool) : List Char → Bool
  | [] => high
  | '\\' :: 'u' :: w :: x :: y :: z :: cs =>
    let unit := (unit? w x y z).getD 0
    if high then !isLowUnit unit || hasLoneHalf false cs
    else isLowUnit unit || hasLoneHalf (isHighUnit unit) cs
  | '\\' :: _ :: cs => high || hasLoneHalf false cs
  | _ :: cs => high || hasLoneHalf false cs

/-- Puts a part in front of what was read after it. -/
def withPiece (piece : Piece) (read : Except Stop (List Piece × List Char)) :
    Except Stop (List Piece × List Char) :=
  read.map fun (pieces, rest) => (piece :: pieces, rest)

/-- Reads the parts of a text after its opening quote, which stood `start`
characters before the end; gives them and what follows the closing quote. -/
def readPieces (start : Nat) : List Char → Except Stop (List Piece × List Char)
  | [] => .error ⟨.unterminatedText, start⟩
  | c :: cs =>
    if c = '"' then .ok ([], cs)
    else if c = '\\' then
      match cs with
      | [] => .error ⟨.unterminatedText, start⟩
      | d :: rest =>
        if d = 'u' then
          match rest with
          | w :: x :: y :: z :: tail =>
            if tail.isEmpty then .error ⟨.badUnicodeEscape, 5⟩
            else match unit? w x y z with
              | some u => withPiece (.unit u) (readPieces start tail)
              | none => .error ⟨.badUnicodeEscape, tail.length + 5⟩
          | short => .error ⟨.badUnicodeEscape, short.length + 1⟩
        else match simpleEscape? d with
          | some e => withPiece (.char e) (readPieces start rest)
          | none => .error ⟨.badEscape, rest.length + 2⟩
    else if c.toNat < 32 then .error ⟨.controlCharacter, cs.length + 1⟩
    else withPiece (.char c) (readPieces start cs)

/-- What follows a text is shorter than what followed its opening quote. -/
theorem length_of_readPieces {start : Nat} {cs : List Char} {pieces : List Piece}
    {rest : List Char} (h : readPieces start cs = .ok (pieces, rest)) :
    rest.length < cs.length := by
  have hmap : ∀ {piece : Piece} {read : Except Stop (List Piece × List Char)}
      {pieces : List Piece} {rest : List Char}, withPiece piece read = .ok (pieces, rest) →
      ∃ tail, read = .ok (tail, rest) := by
    intro piece read pieces rest h
    cases read with
    | error e => cases h
    | ok r =>
      obtain ⟨tail, rest'⟩ := r
      simp only [withPiece, Except.map, Except.ok.injEq, Prod.mk.injEq] at h
      exact ⟨tail, by rw [h.2]⟩
  fun_induction readPieces start cs generalizing pieces rest with
  | case1 | case3 | case4 | case6 | case7 | case9 | case10 => cases h
  | case2 =>
    simp only [Except.ok.injEq, Prod.mk.injEq] at h
    rw [← h.2]
    simp
  | case5 | case8 | case11 =>
    rename_i ih
    obtain ⟨tail, htail⟩ := hmap h
    have := ih htail
    simp only [List.length_cons]
    omega

/-- A number as it is written: its digits before and after the point, and its
exponent. -/
structure NumberText where
  negative : Bool
  whole : List Nat
  fraction : List Nat
  exponent : Option Int

/-- The whole part of a number, which has no needless zero in front. -/
def readWhole? : List Char → Option (List Nat × List Char)
  | '0' :: rest => some ([0], rest)
  | cs =>
    match takeDigits asciiDigit? cs with
    | ([], _) => none
    | (ds, rest) => some (ds, rest)

/-- A point and digits after it, if a text begins with both. -/
def readFraction (cs : List Char) : List Nat × List Char :=
  match cs with
  | '.' :: rest =>
    match takeDigits asciiDigit? rest with
    | ([], _) => ([], cs)
    | (ds, rest) => (ds, rest)
  | _ => ([], cs)

/-- An exponent, if a text begins with a complete one. -/
def readExponent (cs : List Char) : Option Int × List Char :=
  match cs with
  | mark :: rest =>
    if mark = 'e' ∨ mark = 'E' then
      let (negative, rest) := takeSign rest
      match takeDigits asciiDigit? rest with
      | ([], _) => (none, cs)
      | (ds, rest) => (some (if negative then -(ofDigits ds : Int) else ofDigits ds), rest)
    else (none, cs)
  | [] => (none, cs)

/-- Reads the longest number at the start of a text. -/
def readNumberText? (cs : List Char) : Option (NumberText × List Char) := do
  let negative := cs.head? = some '-'
  let (whole, rest) ← readWhole? (if negative then cs.tail else cs)
  let (fraction, rest) := readFraction rest
  let (exponent, rest) := readExponent rest
  return (⟨negative, whole, fraction, exponent⟩, rest)

/-- How many digits an integer can have. -/
def digitLimit : Nat := 4300

/-- The number that a written one denotes: an integer unless it has a fraction or
an exponent. -/
def NumberText.number (t : NumberText) : Except FaultKind Number :=
  match t.fraction, t.exponent with
  | [], none =>
    if digitLimit < t.whole.length then .error (.tooManyDigits t.whole.length)
    else .ok (.int (if t.negative then -(ofDigits t.whole : Int) else ofDigits t.whole))
  | fraction, exponent =>
    let d : Decimal :=
      ⟨t.negative, ofDigits (t.whole ++ fraction), exponent.getD 0 - fraction.length⟩
    .ok (.double d.toDouble)

/-- Taking digits off never makes a text longer. -/
private theorem length_takeDigits_le {cs rest : List Char} {ds : List Nat}
    (h : takeDigits asciiDigit? cs = (ds, rest)) : ds.length + rest.length = cs.length := by
  have := length_takeDigits asciiDigit? cs
  rwa [h] at this

private theorem length_readWhole {cs rest : List Char} {ds : List Nat}
    (h : readWhole? cs = some (ds, rest)) : rest.length < cs.length := by
  unfold readWhole? at h
  split at h
  · simp only [Option.some.injEq, Prod.mk.injEq] at h
    rw [← h.2]
    simp
  · split at h
    · cases h
    · rename_i hne htake
      simp only [Option.some.injEq, Prod.mk.injEq] at h
      have hsum := length_takeDigits_le htake
      have hpos := List.length_pos_iff.mpr hne
      rw [← h.2]
      omega

private theorem length_readFraction_le (cs : List Char) :
    (readFraction cs).2.length ≤ cs.length := by
  unfold readFraction
  split
  · split
    · exact Nat.le_refl _
    · rename_i htake
      have := length_takeDigits_le htake
      simp only [List.length_cons]
      omega
  · exact Nat.le_refl _

private theorem length_takeSign_le (cs : List Char) : (takeSign cs).2.length ≤ cs.length := by
  unfold takeSign
  split <;> simp

private theorem length_readExponent_le (cs : List Char) :
    (readExponent cs).2.length ≤ cs.length := by
  unfold readExponent
  split
  · rename_i mark rest
    split
    · have hsign := length_takeSign_le rest
      split
      rename_i hpair
      rw [hpair] at hsign
      split
      · exact Nat.le_refl _
      · rename_i htake
        have := length_takeDigits_le htake
        simp only [List.length_cons] at hsign ⊢
        omega
    · exact Nat.le_refl _
  · exact Nat.le_refl _

/-- A number takes up at least one character. -/
theorem length_of_readNumberText {cs rest : List Char} {t : NumberText}
    (h : readNumberText? cs = some (t, rest)) : rest.length < cs.length := by
  unfold readNumberText? at h
  have hsign : (if cs.head? = some '-' then cs.tail else cs).length ≤ cs.length := by
    split <;> simp
  simp only at h
  cases hw : readWhole? (if cs.head? = some '-' then cs.tail else cs) with
  | none =>
    rw [hw] at h
    cases h
  | some r =>
    obtain ⟨whole, rest₁⟩ := r
    have hwhole := length_readWhole hw
    have hfraction := length_readFraction_le rest₁
    have hexponent := length_readExponent_le (readFraction rest₁).2
    rw [hw] at h
    change some (_, (readExponent (readFraction rest₁).2).2) = some (t, rest) at h
    rw [← (Prod.mk.inj (Option.some.inj h)).2]
    omega

end Loyalty.Json
