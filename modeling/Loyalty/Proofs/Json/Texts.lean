import Loyalty.Json.Reader
import Loyalty.Json.Writer
import Mathlib.Tactic.IntervalCases

/-!
# Texts written and read

Every character of a text is written as itself, as a letter after a backslash or
as its UTF-16 units, and each of these is read as the parts that are joined to
that character again. No character is half a pair, so a unit that stands alone
is never taken for the first of two.
-/

namespace Loyalty.Json

/-- The digit of a value below sixteen has that value. -/
private theorem hexDigit?_digitChar {d : Nat} (hd : d < 16) :
    hexDigit? (Nat.digitChar d) = some d := by
  interval_cases d <;> rfl

/-- A unit is padded to its four digits. -/
theorem paddedDigits_unit {u : Nat} (hu : u < 65536) :
    paddedDigits 16 4 u = [Nat.digitChar (u / 4096), Nat.digitChar (u / 256 % 16),
      Nat.digitChar (u / 16 % 16), Nat.digitChar (u % 16)] := by
  have hzero : ∀ n, n = 0 → Nat.digitChar n = '0' := by
    rintro n rfl
    rfl
  have hone : ∀ n, n < 16 → Nat.toDigits 16 n = [Nat.digitChar n] :=
    fun n hn => Nat.toDigits_of_lt_base hn
  have hmore : ∀ n, 16 ≤ n →
      Nat.toDigits 16 n = Nat.toDigits 16 (n / 16) ++ [Nat.digitChar (n % 16)] :=
    fun n hn => Nat.toDigits_of_base_le (by decide) hn
  unfold paddedDigits
  rcases Nat.lt_or_ge u 16 with h1 | h1
  · rw [hone u h1, hzero (u / 4096) (by omega), hzero (u / 256 % 16) (by omega),
      hzero (u / 16 % 16) (by omega), show u % 16 = u by omega]
    rfl
  · rcases Nat.lt_or_ge u 256 with h2 | h2
    · rw [hmore u h1, hone (u / 16) (by omega), hzero (u / 4096) (by omega),
        hzero (u / 256 % 16) (by omega), show u / 16 % 16 = u / 16 by omega]
      rfl
    · rcases Nat.lt_or_ge u 4096 with h3 | h3
      · rw [hmore u h1, hmore (u / 16) (by omega), hone (u / 16 / 16) (by omega),
          hzero (u / 4096) (by omega), show u / 256 % 16 = u / 16 / 16 by omega]
        rfl
      · rw [hmore u h1, hmore (u / 16) (by omega), hmore (u / 16 / 16) (by omega),
          hone (u / 16 / 16 / 16) (by omega), show u / 4096 = u / 16 / 16 / 16 by omega,
          show u / 256 % 16 = u / 16 / 16 % 16 by omega]
        rfl

/-- The four digits of a unit spell it. -/
private theorem unit?_digits {u : Nat} (hu : u < 65536) :
    unit? (Nat.digitChar (u / 4096)) (Nat.digitChar (u / 256 % 16))
      (Nat.digitChar (u / 16 % 16)) (Nat.digitChar (u % 16)) = some u := by
  simp only [unit?, hexDigit?_digitChar (show u / 4096 < 16 by omega),
    hexDigit?_digitChar (show u / 256 % 16 < 16 by omega),
    hexDigit?_digitChar (show u / 16 % 16 < 16 by omega),
    hexDigit?_digitChar (show u % 16 < 16 by omega), Option.bind_eq_bind, Option.bind_some,
    Option.pure_def, Option.some.injEq]
  omega

/-- The escape of a unit is read as that unit. -/
private theorem readPieces_unitEscape (start : Nat) {u : Nat} (hu : u < 65536)
    {rest : List Char} (hrest : rest ≠ []) :
    readPieces start (unitEscape u ++ rest) = withPiece (.unit u) (readPieces start rest) := by
  have hempty : rest.isEmpty = false := List.isEmpty_eq_false_iff.mpr hrest
  rw [unitEscape, paddedDigits_unit hu]
  simp only [List.cons_append, List.nil_append]
  rw [readPieces.eq_def]
  simp only [if_neg (show ¬('\\' = '"') by decide), if_true, hempty, Bool.false_eq_true, if_false,
    unit?_digits hu]

/-- A letter after a backslash is read as the character it stands for. -/
private theorem readPieces_simpleEscape (start : Nat) {letter c : Char} (hletter : letter ≠ 'u')
    (h : simpleEscape? letter = some c) (rest : List Char) :
    readPieces start ('\\' :: letter :: rest) = withPiece (.char c) (readPieces start rest) := by
  rw [readPieces.eq_def]
  simp only [if_neg (show ¬('\\' = '"') by decide), if_true, if_neg hletter, h]

/-- A character that needs no escape is read as itself. -/
private theorem readPieces_char (start : Nat) {c : Char} (hquote : c ≠ '"') (hslash : c ≠ '\\')
    (hcontrol : 32 ≤ c.toNat) (rest : List Char) :
    readPieces start (c :: rest) = withPiece (.char c) (readPieces start rest) := by
  rw [readPieces.eq_def]
  simp only [if_neg hquote, if_neg hslash, if_neg (show ¬ c.toNat < 32 by omega)]

/-- Some parts in front of what was read after them. -/
def withPieces (pieces : List Piece) (read : Except Stop (List Piece × List Char)) :
    Except Stop (List Piece × List Char) :=
  read.map fun (more, rest) => (pieces ++ more, rest)

private theorem withPieces_singleton (piece : Piece)
    (read : Except Stop (List Piece × List Char)) :
    withPieces [piece] read = withPiece piece read := rfl

private theorem withPieces_pair (first second : Piece)
    (read : Except Stop (List Piece × List Char)) :
    withPieces [first, second] read = withPiece first (withPiece second read) := by
  cases read <;> rfl

/-- Parts that are joined to a character, whatever follows them. -/
def JoinTo (pieces : List Piece) (c : Char) : Prop :=
  ∀ more, joinUnits (pieces ++ more) = c :: joinUnits more

/-- A character that is a part by itself is joined to itself. -/
private theorem joinTo_char (c : Char) : JoinTo [.char c] c := by
  intro more
  rfl

/-- No character is half a pair. -/
private theorem not_half_pair (c : Char) :
    isHighUnit c.toNat = false ∧ isLowUnit c.toNat = false := by
  have hvalid : c.toNat < 55296 ∨ (57343 < c.toNat ∧ c.toNat < 1114112) := c.valid
  simp only [isHighUnit, isLowUnit, Bool.and_eq_false_iff, decide_eq_false_iff_not]
  omega

/-- A code point that is one unit is joined to its character. -/
private theorem joinTo_unit (c : Char) : JoinTo [.unit c.toNat] c := by
  intro more
  obtain ⟨hhigh, hlow⟩ := not_half_pair c
  have hchar : unitChar c.toNat = c := by
    rw [unitChar, hhigh, hlow]
    exact Char.ofNat_toNat c
  cases more with
  | nil => simp only [List.append_nil, joinUnits, hchar]
  | cons piece more =>
    cases piece with
    | char d => simp only [List.cons_append, List.nil_append, joinUnits, hchar]
    | unit v =>
      simp only [List.cons_append, List.nil_append, joinUnits, hchar, hhigh, Bool.false_and,
        Bool.false_eq_true, if_false]

/-- A code point that takes two units is joined to its character. -/
private theorem joinTo_pair {c : Char} (hc : 65536 ≤ c.toNat) :
    JoinTo [.unit (55296 + (c.toNat - 65536) / 1024), .unit (56320 + (c.toNat - 65536) % 1024)]
      c := by
  intro more
  have hvalid : c.toNat < 55296 ∨ (57343 < c.toNat ∧ c.toNat < 1114112) := c.valid
  have hhigh : isHighUnit (55296 + (c.toNat - 65536) / 1024) = true := by
    simp only [isHighUnit, Bool.and_eq_true, decide_eq_true_eq]
    omega
  have hlow : isLowUnit (56320 + (c.toNat - 65536) % 1024) = true := by
    simp only [isLowUnit, Bool.and_eq_true, decide_eq_true_eq]
    omega
  have hchar : pairChar (55296 + (c.toNat - 65536) / 1024) (56320 + (c.toNat - 65536) % 1024) =
      c := by
    rw [pairChar, show 65536 + (55296 + (c.toNat - 65536) / 1024 - 55296) * 1024 +
      (56320 + (c.toNat - 65536) % 1024 - 56320) = c.toNat by omega]
    exact Char.ofNat_toNat c
  simp only [List.cons_append, List.nil_append, joinUnits, hhigh, hlow, Bool.and_true, if_true,
    hchar]

/-- Both units of a character that takes two are units. -/
theorem units_lt (c : Char) :
    55296 + (c.toNat - 65536) / 1024 < 65536 ∧ 56320 + (c.toNat - 65536) % 1024 < 65536 := by
  have hvalid : c.toNat < 55296 ∨ (57343 < c.toNat ∧ c.toNat < 1114112) := c.valid
  omega

/-- Some characters are read as parts that are joined to one character. -/
private def ReadsChar (start : Nat) (cs : List Char) (c : Char) : Prop :=
  ∃ pieces, JoinTo pieces c ∧ ∀ rest, rest ≠ [] →
    readPieces start (cs ++ rest) = withPieces pieces (readPieces start rest)

section ReadsChar

variable (start : Nat) {c : Char}

private theorem readsChar_simple {letter : Char} (hletter : letter ≠ 'u')
    (hescape : simpleEscape? letter = some c) : ReadsChar start ['\\', letter] c := by
  refine ⟨[.char c], joinTo_char c, fun rest _ => ?_⟩
  rw [withPieces_singleton]
  exact readPieces_simpleEscape start hletter hescape rest

private theorem readsChar_plain (hquote : c ≠ '"') (hslash : c ≠ '\\') (hplain : 32 ≤ c.toNat) :
    ReadsChar start [c] c := by
  refine ⟨[.char c], joinTo_char c, fun rest _ => ?_⟩
  rw [withPieces_singleton]
  exact readPieces_char start hquote hslash hplain rest

private theorem readsChar_unit (hunit : c.toNat < 65536) :
    ReadsChar start (unitEscape c.toNat) c := by
  refine ⟨[.unit c.toNat], joinTo_unit c, fun rest hrest => ?_⟩
  rw [withPieces_singleton]
  exact readPieces_unitEscape start hunit hrest

private theorem readsChar_pair (hpair : 65536 ≤ c.toNat) :
    ReadsChar start (unitEscape (55296 + (c.toNat - 65536) / 1024) ++
      unitEscape (56320 + (c.toNat - 65536) % 1024)) c := by
  obtain ⟨hhigh, hlow⟩ := units_lt c
  refine ⟨_, joinTo_pair hpair, fun rest hrest => ?_⟩
  have hsecond := readPieces_unitEscape start hlow hrest
  have hne : unitEscape (56320 + (c.toNat - 65536) % 1024) ++ rest ≠ [] :=
    List.append_ne_nil_of_right_ne_nil _ hrest
  have hfirst := readPieces_unitEscape start hhigh hne
  rw [List.append_assoc, hfirst, hsecond, withPieces_pair]

end ReadsChar

/-- What a character is written as is read as parts that are joined to it. -/
private theorem readsChar_escaped (start : Nat) (c : Char) :
    ReadsChar start (escapedChar c) c := by
  by_cases hquote : c = '"'
  · subst hquote
    exact @readsChar_simple start _ '"' (by decide) rfl
  by_cases hslash : c = '\\'
  · subst hslash
    exact @readsChar_simple start _ '\\' (by decide) rfl
  by_cases hnewline : c = '\n'
  · subst hnewline
    exact @readsChar_simple start _ 'n' (by decide) rfl
  by_cases hreturn : c = '\r'
  · subst hreturn
    exact @readsChar_simple start _ 'r' (by decide) rfl
  by_cases htab : c = '\t'
  · subst htab
    exact @readsChar_simple start _ 't' (by decide) rfl
  by_cases hbackspace : c.toNat = 8
  · have hc : c = '\x08' := Char.toNat_inj.mp hbackspace
    subst hc
    exact @readsChar_simple start _ 'b' (by decide) rfl
  by_cases hfeed : c.toNat = 12
  · have hc : c = '\x0c' := Char.toNat_inj.mp hfeed
    subst hc
    exact @readsChar_simple start _ 'f' (by decide) rfl
  simp only [escapedChar, if_neg hquote, if_neg hslash, if_neg hnewline, if_neg hreturn,
    if_neg htab, if_neg hbackspace, if_neg hfeed]
  split
  · rename_i hplain
    exact readsChar_plain start hquote hslash hplain.1
  · split
    · rename_i hunit
      exact readsChar_unit start hunit
    · exact readsChar_pair start (by omega)

/-- The characters of a text are read back up to the closing quote. -/
private theorem readPieces_written (start : Nat) (cs rest : List Char) :
    ∃ pieces, joinUnits pieces = cs ∧
      readPieces start (cs.flatMap escapedChar ++ '"' :: rest) = .ok (pieces, rest) := by
  induction cs with
  | nil =>
    refine ⟨[], rfl, ?_⟩
    rw [List.flatMap_nil, List.nil_append, readPieces.eq_def]
    rfl
  | cons c cs ih =>
    obtain ⟨pieces, hjoin, hread⟩ := ih
    obtain ⟨first, hfirst, hescape⟩ := readsChar_escaped start c
    refine ⟨first ++ pieces, ?_, ?_⟩
    · rw [hfirst, hjoin]
    · rw [List.flatMap_cons, List.append_assoc, hescape _ (by simp), hread]
      rfl

/-- A text is read back from its characters. -/
theorem readString_written (s : String) (rest : List Char) :
    ∃ h, readString (s.toList.flatMap escapedChar ++ '"' :: rest) = .ok (s, ⟨rest, h⟩) := by
  obtain ⟨pieces, hjoin, hread⟩ := readPieces_written
    ((s.toList.flatMap escapedChar ++ '"' :: rest).length + 1) s.toList rest
  refine ⟨length_of_readPieces hread, ?_⟩
  unfold readString
  split
  · rename_i hsome
    rw [hread] at hsome
    cases hsome
    rw [hjoin, String.ofList_toList]
  · rename_i hnone
    rw [hread] at hnone
    cases hnone

end Loyalty.Json
