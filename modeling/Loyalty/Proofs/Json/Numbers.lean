import Loyalty.Json.Reader
import Loyalty.Json.Writer
import Loyalty.Proofs.Json.Numerals
import Loyalty.Proofs.Number.Shortest

/-!
# Numbers written and read

A decimal is laid out with its digits up to the last that is not zero, either
positionally or with an exponent. Both layouts are read back with the value of
the decimal, so the text of a double is read as that double; an integer within
the limit on digits is read as itself.
-/

namespace Loyalty

open DecimalLayout

/-- The digits that a decimal is written with. -/
def Decimal.writtenDigits (d : Decimal) : List Char := trimZeros (Nat.toDigits 10 d.coefficient)

/-- The exponent of the first of them. -/
def Decimal.leading (d : Decimal) : Int :=
  if d.coefficient = 0 then 0
  else d.exponent + (Nat.toDigits 10 d.coefficient).length - 1

namespace Json

/-- Digits that do not begin with a zero lose only zeros when they are trimmed. -/
private theorem exists_eq_trimZeros_append {ds : List Char} (hne : ds ≠ [])
    (hhead : ds.head? ≠ some '0') :
    ∃ k, ds = trimZeros ds ++ List.replicate k '0' := by
  have hsplit : ds.reverse = ds.reverse.takeWhile (· = '0') ++ ds.reverse.dropWhile (· = '0') :=
    List.takeWhile_append_dropWhile.symm
  have hzeros : ds.reverse.takeWhile (· = '0') =
      List.replicate (ds.reverse.takeWhile (· = '0')).length '0' := by
    refine List.eq_replicate_iff.mpr ⟨rfl, ?_⟩
    intro c hc
    exact of_decide_eq_true (List.all_eq_true.mp List.all_takeWhile c hc)
  generalize (ds.reverse.takeWhile (· = '0')).length = k at hzeros
  rw [hzeros] at hsplit
  have hds : ds = (ds.reverse.dropWhile (· = '0')).reverse ++ List.replicate k '0' := by
    have := congrArg List.reverse hsplit
    rwa [List.reverse_reverse, List.reverse_append, List.reverse_replicate] at this
  refine ⟨k, ?_⟩
  unfold trimZeros
  split
  · rename_i hnil
    rw [hnil, List.nil_append] at hds
    cases k with
    | zero => exact absurd hds hne
    | succ k =>
      rw [hds] at hhead
      exact absurd rfl hhead
  · exact hds

/-- The digits of a positive natural, trimmed, are a whole part that does not
begin with a zero. -/
private theorem trimZeros_toDigits {n : Nat} (hn : 0 < n) :
    ∃ k, Nat.toDigits 10 n = trimZeros (Nat.toDigits 10 n) ++ List.replicate k '0' ∧
      IsWhole (trimZeros (Nat.toDigits 10 n)) ∧
      (trimZeros (Nat.toDigits 10 n)).head? ≠ some '0' := by
  have hhead := head?_toDigits_ne_zero hn
  have hdigits := @isDigit_of_mem_toDigits n
  obtain ⟨k, hk⟩ := exists_eq_trimZeros_append Nat.toDigits_ne_nil hhead
  generalize trimZeros (Nat.toDigits 10 n) = ds at hk ⊢
  have hne : ds ≠ [] := by
    rintro rfl
    rw [List.nil_append] at hk
    cases k with
    | zero => exact Nat.toDigits_ne_nil hk
    | succ k =>
      rw [hk] at hhead
      exact hhead rfl
  have hfirst : ds.head? ≠ some '0' := by
    obtain ⟨d, ds', rfl⟩ := List.exists_cons_of_ne_nil hne
    rwa [hk] at hhead
  refine ⟨k, hk, ⟨?_, hne, fun h => absurd h hfirst⟩, hfirst⟩
  intro c hc
  refine hdigits ?_
  rw [hk]
  exact List.mem_append_left _ hc

/-- The written digits are a whole part, and they and the leading exponent say
the value of the decimal. -/
theorem writtenDigits_spec (d : Decimal) :
    IsWhole d.writtenDigits ∧ (d.writtenDigits.head? = some '0' → d.leading = 0) ∧
      Decimal.value ⟨d.negative, ofDigits (digitValues d.writtenDigits),
        d.leading + 1 - d.writtenDigits.length⟩ = d.value := by
  obtain ⟨negative, c, e⟩ := d
  simp only [Decimal.writtenDigits, Decimal.leading]
  rcases Nat.eq_zero_or_pos c with hc | hc
  · subst hc
    exact ⟨isWhole_zero, fun _ => rfl,
      (Decimal.value_zero _ _).trans (Decimal.value_zero _ _).symm⟩
  · obtain ⟨k, hk, hwhole, hhead⟩ := trimZeros_toDigits hc
    rw [if_neg (by omega)]
    refine ⟨hwhole, fun h => absurd h hhead, ?_⟩
    have hvalue := ofDigits_toDigits c
    have hlength := congrArg List.length hk
    rw [List.length_append, List.length_replicate] at hlength
    rw [hk, digitValues_append, digitValues_zeros, ofDigits_append_replicate_zero] at hvalue
    generalize trimZeros (Nat.toDigits 10 c) = ds at hvalue hlength ⊢
    rw [← hvalue, Decimal.value_mul_pow, hvalue, hlength]
    congr 2
    omega

/-- A whole part and a fraction that have the value of some digits, the first of
which has a leading exponent. -/
structure SaysDigits (negative : Bool) (ds : List Char) (leading : Int)
    (whole fraction : List Char) : Prop where
  isWhole : IsWhole whole
  isDigit : ∀ c ∈ fraction, c.isDigit = true
  ne_nil : fraction ≠ []
  value : Decimal.value ⟨negative, ofDigits (digitValues whole ++ digitValues fraction),
      0 - (digitValues fraction).length⟩ =
    Decimal.value ⟨negative, ofDigits (digitValues ds), leading + 1 - ds.length⟩

section Positional

variable {ds : List Char} {leading : Int}

/-- Below one the digits follow zeros. -/
private theorem saysDigits_below_one (hds : IsWhole ds) (hleading : leading < 0)
    (negative : Bool) :
    SaysDigits negative ds leading ['0'] (List.replicate (leading.natAbs - 1) '0' ++ ds) where
  isWhole := isWhole_zero
  isDigit := by
    intro c hc
    rcases List.mem_append.mp hc with hc | hc
    · exact isDigit_of_mem_zeros hc
    · exact hds.isDigit c hc
  ne_nil := List.append_ne_nil_of_right_ne_nil _ hds.ne_nil
  value := by
    have hfront := ofDigits_replicate_zero_append (leading.natAbs - 1 + 1) (digitValues ds)
    rw [digitValues_append, digitValues_zeros]
    change Decimal.value ⟨negative, ofDigits (List.replicate (leading.natAbs - 1 + 1) 0 ++
      digitValues ds), _⟩ = _
    rw [hfront, List.length_append, List.length_replicate, length_digitValues]
    congr 2
    omega

/-- Where there are digits behind the point, the point splits them. -/
private theorem saysDigits_split (hds : IsWhole ds) (hleading : 0 ≤ leading)
    (hlong : leading.toNat + 1 < ds.length) (negative : Bool) :
    SaysDigits negative ds leading (ds.take (leading.toNat + 1))
      (ds.drop (leading.toNat + 1)) where
  isWhole := by
    refine ⟨fun c hc => hds.isDigit c (List.mem_of_mem_take hc), ?_, ?_⟩
    · obtain ⟨d, ds', rfl⟩ := List.exists_cons_of_ne_nil hds.ne_nil
      simp
    · obtain ⟨d, ds', rfl⟩ := List.exists_cons_of_ne_nil hds.ne_nil
      intro hhead
      rw [hds.eq_zero hhead] at hlong
      simp at hlong
  isDigit := fun c hc => hds.isDigit c (List.mem_of_mem_drop hc)
  ne_nil := by
    intro hnil
    rw [List.drop_eq_nil_iff] at hnil
    omega
  value := by
    rw [← digitValues_append, List.take_append_drop, length_digitValues, List.length_drop]
    congr 2
    omega

/-- Where there are none, zeros fill the places up to the point and one behind it. -/
private theorem saysDigits_padded (hds : IsWhole ds)
    (hzero : ds.head? = some '0' → leading = 0) {k : Nat} (hk : leading + 1 = ds.length + k)
    (negative : Bool) :
    SaysDigits negative ds leading (ds ++ List.replicate k '0') ['0'] where
  isWhole := by
    refine ⟨?_, List.append_ne_nil_of_left_ne_nil hds.ne_nil _, ?_⟩
    · intro c hc
      rcases List.mem_append.mp hc with hc | hc
      · exact hds.isDigit c hc
      · exact isDigit_of_mem_zeros hc
    · obtain ⟨d, ds', rfl⟩ := List.exists_cons_of_ne_nil hds.ne_nil
      intro hhead
      have hleading := hzero hhead
      rw [hds.eq_zero hhead] at hk ⊢
      have hk : k = 0 := by
        simp only [hleading, List.length_singleton] at hk
        omega
      rw [hk]
      rfl
  isDigit := isWhole_zero.isDigit
  ne_nil := isWhole_zero.ne_nil
  value := by
    have hvalue : digitValues (ds ++ List.replicate k '0') ++ digitValues ['0'] =
        digitValues ds ++ List.replicate (k + 1) 0 := by
      rw [digitValues_append, digitValues_zeros, List.replicate_succ', ← List.append_assoc]
      rfl
    rw [hvalue, ofDigits_append_replicate_zero, Decimal.value_mul_pow, length_digitValues]
    congr 2
    simp only [List.length_singleton]
    omega

/-- The positional layout is a whole part, a point and a fraction of the same
value. -/
theorem positional_spec (hds : IsWhole ds) (hzero : ds.head? = some '0' → leading = 0)
    (negative : Bool) :
    ∃ whole fraction, positional ds leading = whole ++ '.' :: fraction ∧
      SaysDigits negative ds leading whole fraction := by
  unfold positional
  split
  · rename_i hneg
    exact ⟨_, _, rfl, saysDigits_below_one hds hneg negative⟩
  · rename_i hpos
    by_cases hlong : leading.toNat + 1 < ds.length
    · have hlayout := saysDigits_split hds (by omega) hlong negative
      refine ⟨_, _, ?_, hlayout⟩
      have hpad : leading.toNat + 1 - ds.length = 0 := by omega
      simp only [hpad, List.isEmpty_eq_false_iff.mpr hlayout.ne_nil]
      simp
    · have hdrop : ds.drop (leading.toNat + 1) = [] := List.drop_eq_nil_iff.mpr (by omega)
      have htake : ds.take (leading.toNat + 1) = ds := List.take_of_length_le (by omega)
      refine ⟨_, _, ?_, saysDigits_padded (k := leading.toNat + 1 - ds.length) hds hzero
        (by omega) negative⟩
      simp only [hdrop, htake]
      rfl

end Positional

/-- The layout with an exponent is a digit, the other digits after a point, and
the leading exponent. -/
theorem scientific_spec {ds : List Char} (hds : IsWhole ds) (leading : Int)
    (negative : Bool) :
    ∃ first rest exponent,
      doubleLayout.scientific ds leading =
        [first] ++ ((if rest = [] then [] else '.' :: rest) ++
          'e' :: (if decide (leading < 0) then '-' else '+') :: exponent) ∧
      IsWhole [first] ∧ (∀ c ∈ rest, c.isDigit = true) ∧
      (∀ c ∈ exponent, c.isDigit = true) ∧ exponent ≠ [] ∧
      Decimal.value ⟨negative, ofDigits (digitValues [first] ++ digitValues rest),
        exponentOf (decide (leading < 0)) exponent - (digitValues rest).length⟩ =
        Decimal.value ⟨negative, ofDigits (digitValues ds), leading + 1 - ds.length⟩ := by
  obtain ⟨first, rest, rfl⟩ := List.exists_cons_of_ne_nil hds.ne_nil
  refine ⟨first, rest, List.replicate (2 - (Nat.toDigits 10 leading.natAbs).length) '0' ++
    Nat.toDigits 10 leading.natAbs, ?_, ⟨?_, by simp, ?_⟩, ?_, ?_, ?_, ?_⟩
  · cases rest <;> simp [scientific, doubleLayout]
  · intro c hc
    rw [List.mem_singleton.mp hc]
    exact hds.isDigit first List.mem_cons_self
  · intro hhead
    cases hhead
    rfl
  · exact fun c hc => hds.isDigit c (List.mem_cons_of_mem _ hc)
  · intro c hc
    rcases List.mem_append.mp hc with hc | hc
    · exact isDigit_of_mem_zeros hc
    · exact isDigit_of_mem_toDigits hc
  · exact List.append_ne_nil_of_right_ne_nil _ Nat.toDigits_ne_nil
  · have hexponent : ofDigits (digitValues (List.replicate
        (2 - (Nat.toDigits 10 leading.natAbs).length) '0' ++ Nat.toDigits 10 leading.natAbs)) =
        leading.natAbs := by
      rw [digitValues_append, digitValues_zeros, ofDigits_replicate_zero_append,
        ofDigits_toDigits]
    rw [exponentOf, hexponent, ← digitValues_append, length_digitValues, List.length_cons]
    congr 2
    simp only [decide_eq_true_eq]
    split <;> omega

/-- The text of a decimal is its sign and one of the two layouts. -/
theorem write_eq (d : Decimal) :
    doubleLayout.write d = withSign d.negative
      (if -4 ≤ d.leading ∧ d.leading < 16 then positional d.writtenDigits d.leading
        else doubleLayout.scientific d.writtenDigits d.leading) := by
  unfold withSign
  rw [write]
  split <;> rfl

/-- A sign is put in front of all that follows. -/
theorem withSign_append (negative : Bool) (cs rest : List Char) :
    withSign negative cs ++ rest = withSign negative (cs ++ rest) := by
  cases negative <;> rfl

/-- The text of a decimal is read as its double. -/
theorem readNumberText?_write (d : Decimal) {rest : List Char} (hrest : EndsNumber rest) :
    ∃ t, readNumberText? (doubleLayout.write d ++ rest) = some (t, rest) ∧
      t.number = .ok (.double d.toDouble) := by
  obtain ⟨hwhole, hzero, hvalue⟩ := writtenDigits_spec d
  rw [write_eq, withSign_append]
  split
  · obtain ⟨whole, fraction, htext, hlayout⟩ := positional_spec hwhole hzero d.negative
    have hread := readNumberText?_fixed hlayout.isWhole hlayout.isDigit hlayout.ne_nil hrest
      d.negative
    refine ⟨_, by rw [htext, List.append_assoc, List.cons_append]; exact hread, ?_⟩
    have hdouble : Decimal.toDouble ⟨d.negative, ofDigits (digitValues whole ++
        digitValues fraction), 0 - (digitValues fraction).length⟩ = d.toDouble :=
      Decimal.toDouble_congr rfl (hlayout.value.trans hvalue)
    rw [← hdouble]
    obtain ⟨c, cs, rfl⟩ := List.exists_cons_of_ne_nil hlayout.ne_nil
    rfl
  · obtain ⟨first, more, exponent, htext, hw, hf, hx, hne, heq⟩ :=
      scientific_spec hwhole d.leading d.negative
    have hread := readNumberText?_scientific hw hf hx hne hrest d.negative (decide (d.leading < 0))
    refine ⟨_, by rw [htext, List.append_assoc, List.append_assoc]; exact hread, ?_⟩
    have hdouble : Decimal.toDouble ⟨d.negative, ofDigits (digitValues [first] ++
        digitValues more), exponentOf (decide (d.leading < 0)) exponent -
          (digitValues more).length⟩ = d.toDouble :=
      Decimal.toDouble_congr rfl (heq.trans hvalue)
    rw [← hdouble]
    cases more <;> rfl

/-- The digits of a number are counted by their values. -/
theorem length_digitValues_toDigits (n : Nat) :
    (digitValues (Nat.toDigits 10 n)).length = digitCount n := length_digitValues _

/-- The text of an integer is a numeral without a fraction and an exponent. -/
theorem readNumberText?_intText (n : Int) {rest : List Char} (hrest : EndsNumber rest) :
    readNumberText? ((intText n).toList ++ rest) =
      some (⟨decide (n < 0), digitValues (Nat.toDigits 10 n.natAbs), [], none⟩, rest) := by
  have hwhole : IsWhole (Nat.toDigits 10 n.natAbs) := by
    refine ⟨fun c => isDigit_of_mem_toDigits, Nat.toDigits_ne_nil, ?_⟩
    intro hhead
    rcases Nat.eq_zero_or_pos n.natAbs with hzero | hpos
    · rw [hzero]
      rfl
    · exact absurd hhead (head?_toDigits_ne_zero hpos)
  have htext : (intText n).toList ++ rest =
      withSign (decide (n < 0)) (Nat.toDigits 10 n.natAbs ++ rest) := by
    rw [intText, String.toList_ofList, withSign]
    simp only [decide_eq_true_eq]
    split <;> simp
  rw [htext]
  exact readNumberText?_whole hwhole hrest (decide (n < 0))

/-- The text of an integer within the limit is read as that integer. -/
theorem readNumberText?_int {n : Int} (hn : digitCount n.natAbs ≤ digitLimit) {rest : List Char}
    (hrest : EndsNumber rest) :
    ∃ t, readNumberText? ((intText n).toList ++ rest) = some (t, rest) ∧
      t.number = .ok (.int n) := by
  refine ⟨_, readNumberText?_intText n hrest, ?_⟩
  simp only [NumberText.number, length_digitValues_toDigits, ofDigits_toDigits,
    decide_eq_true_eq]
  rw [if_neg (by omega)]
  congr 2
  split <;> omega

/-- A word at the start of a text is the word that is found there. -/
private theorem find?_words {word : List Char × Value} (h : word ∈ words) (rest : List Char) :
    words.find? (fun other => other.1.isPrefixOf (word.1 ++ rest)) = some word := by
  simp only [words, List.mem_cons, List.not_mem_nil, or_false] at h
  rcases h with rfl | rfl | rfl | rfl | rfl | rfl <;> rfl

/-- A word at the start of a text is read as what it stands for. -/
theorem readScalar_word {word : List Char × Value} (h : word ∈ words) (rest : List Char) :
    ∃ hlt, readScalar (word.1 ++ rest) = .ok (word.2, ⟨rest, hlt⟩) := by
  have hpos : 0 < word.1.length := by
    revert word
    decide
  have hlt : rest.length < (word.1 ++ rest).length := by
    rw [List.length_append]
    omega
  have hdrop : (word.1 ++ rest).drop word.1.length = rest := List.drop_left
  refine ⟨hlt, ?_⟩
  unfold readScalar
  rw [find?_words h]
  simp only [hdrop, dif_pos hlt]

/-- A word is no number, whatever follows it. -/
private theorem readNumberText?_word {word : List Char × Value} (h : word ∈ words)
    (rest : List Char) : readNumberText? (word.1 ++ rest) = none := by
  simp only [words, List.mem_cons, List.not_mem_nil, or_false] at h
  rcases h with rfl | rfl | rfl | rfl | rfl | rfl <;> rfl

/-- A numeral at the start of a text is the value that is read there, or what is wrong with it
stops the reading. -/
private theorem readScalar_of_numberText {cs rest : List Char} {t : NumberText}
    (hread : readNumberText? cs = some (t, rest)) :
    (∀ n, t.number = .ok n → ∃ h, readScalar cs = .ok (.number n, ⟨rest, h⟩)) ∧
      ∀ kind, t.number = .error kind → readScalar cs = .error ⟨kind, cs.length⟩ := by
  have hwords : words.find? (fun word => word.1.isPrefixOf cs) = none := by
    refine List.find?_eq_none.mpr ?_
    intro word hword hprefix
    obtain ⟨tail, rfl⟩ := List.isPrefixOf_iff_prefix.mp hprefix
    rw [readNumberText?_word hword] at hread
    cases hread
  unfold readScalar
  rw [hwords]
  simp only
  split
  · rename_i hnone
    rw [hread] at hnone
    cases hnone
  · rename_i hsome
    rw [hread] at hsome
    cases hsome
    constructor
    · intro n hnumber
      rw [hnumber]
      exact ⟨length_of_readNumberText hread, rfl⟩
    · intro kind hnumber
      rw [hnumber]

/-- The text of an integer with more digits than the limit stops the reading. -/
theorem readScalar_of_tooManyDigits {n : Int} (hn : digitLimit < digitCount n.natAbs) :
    readScalar (intText n).toList =
      .error ⟨.tooManyDigits (digitCount n.natAbs), (intText n).toList.length⟩ := by
  have hread := readNumberText?_intText n endsNumber_nil
  rw [List.append_nil] at hread
  refine (readScalar_of_numberText hread).2 _ ?_
  simp only [NumberText.number, length_digitValues_toDigits, if_pos hn]

/-- A number is read back from its text. -/
theorem readScalar_writtenNumber {n : Number} (hn : hasTooManyDigits n = false)
    {rest : List Char} (hrest : EndsNumber rest) :
    ∃ h, readScalar (writtenNumber n ++ rest) = .ok (.number n, ⟨rest, h⟩) := by
  match n with
  | .int n =>
    have hdigits : digitCount n.natAbs ≤ digitLimit := by
      simp only [hasTooManyDigits, decide_eq_false_iff_not] at hn
      omega
    obtain ⟨t, hread, hnumber⟩ := readNumberText?_int hdigits hrest
    exact (readScalar_of_numberText hread).1 _ hnumber
  | .double .nan =>
    exact readScalar_word (show ("NaN".toList, .double .nan) ∈ words by simp [words]) rest
  | .double (.infinity false) =>
    exact readScalar_word
      (show ("Infinity".toList, .double (.infinity false)) ∈ words by simp [words]) rest
  | .double (.infinity true) =>
    exact readScalar_word
      (show ("-Infinity".toList, .double (.infinity true)) ∈ words by simp [words]) rest
  | .double (.finite negative m s hcanonical) =>
    obtain ⟨d, hshortest, hdouble⟩ := Double.exists_shortest negative hcanonical
    have htext : writtenNumber (.double (.finite negative m s hcanonical)) =
        doubleLayout.write d := by
      change (String.ofList (((Double.shortest? (.finite negative m s hcanonical)).map
        doubleLayout.write).getD [])).toList = _
      rw [hshortest, String.toList_ofList]
      rfl
    obtain ⟨t, hread, hnumber⟩ := readNumberText?_write d hrest
    rw [hdouble] at hnumber
    rw [htext]
    exact (readScalar_of_numberText hread).1 _ hnumber

end Json

end Loyalty
