import Loyalty.Proofs.Number.TiesToEven
import Loyalty.Proofs.Text.Digits
import Loyalty.Value.Reading

/-!
# Decimal literals

A literal is a sign, digits around a point and an exponent. The grammar says which texts are
literals and which rational number each of them denotes; the reader of decimals takes exactly
the texts of the grammar, with that number. So the amount of a text is what the number of its
literal is rounded to, and a text that is neither blank nor a literal nor an infinity is not a
number.
-/

namespace Loyalty

open Double

/-! ## The grammar -/

/-- Decimal digits of any script, with their values. -/
def AreDigits (values : List Nat) (ds : List Char) : Prop := ds.map decimalDigit? = values.map some

/-- An optional sign, with whether it is a minus. -/
inductive IsSign : Bool → List Char → Prop where
  | absent : IsSign false []
  | plus : IsSign false ['+']
  | minus : IsSign true ['-']

/-- The digits of a literal with an optional point, with the values of those before the point
and of those behind it. There is at least one digit. -/
inductive IsMantissa : List Nat → List Nat → List Char → Prop where
  | whole {values ds} (hds : AreDigits values ds) (hne : ds ≠ []) : IsMantissa values [] ds
  | pointed {values places ds es} (hds : AreDigits values ds) (hne : ds ≠ [])
    (hes : AreDigits places es) : IsMantissa values places (ds ++ '.' :: es)
  | fraction {places es} (hes : AreDigits places es) (hne : es ≠ []) :
    IsMantissa [] places ('.' :: es)

/-- An optional exponent, with the power of ten that it stands for. -/
inductive IsExponent : Int → List Char → Prop where
  | absent : IsExponent 0 []
  | present {mark negative sign values ds} (hmark : mark = 'e' ∨ mark = 'E')
    (hsign : IsSign negative sign) (hds : AreDigits values ds) (hne : ds ≠ []) :
    IsExponent (signed negative (ofDigits values)) (mark :: (sign ++ ds))

/-- The number that a sign, the digits before and behind a point and an exponent stand for. -/
def literalValue (negative : Bool) (whole fraction : List Nat) (exponent : Int) : ℚ :=
  (if negative then -1 else 1) *
    (ofDigits whole + ofDigits fraction / 10 ^ fraction.length) * 10 ^ exponent

/-- A decimal literal, with its sign and the number that it denotes. -/
inductive IsLiteral : Bool → ℚ → List Char → Prop where
  | parts {negative sign whole fraction mantissa power exponent} (hsign : IsSign negative sign)
    (hmantissa : IsMantissa whole fraction mantissa) (hexponent : IsExponent power exponent) :
    IsLiteral negative (literalValue negative whole fraction power)
      (sign ++ (mantissa ++ exponent))

/-- The name of an infinity, with its sign. -/
inductive IsInfinity : Bool → List Char → Prop where
  | word {negative sign} (hsign : IsSign negative sign) :
    IsInfinity negative (sign ++ ['I', 'n', 'f', 'i', 'n', 'i', 't', 'y'])

/-! ## What the reader takes -/

/-- A text that begins with no sign. -/
def NoSignFirst (cs : List Char) : Prop := ∀ c, cs.head? = some c → c ≠ '+' ∧ c ≠ '-'

/-- A sign is split off what follows it. -/
theorem takeSign_append {negative : Bool} {sign cs : List Char} (h : IsSign negative sign)
    (hcs : NoSignFirst cs) : takeSign (sign ++ cs) = (negative, cs) := by
  cases h with
  | plus => rfl
  | minus => rfl
  | absent =>
    cases cs with
    | nil => rfl
    | cons c cs =>
      obtain ⟨hplus, hminus⟩ := hcs c rfl
      rw [List.nil_append, takeSign]
      · rintro rest ⟨rfl, -⟩
        exact hminus rfl
      · rintro rest ⟨rfl, -⟩
        exact hplus rfl

/-- What is split off is a sign. -/
theorem exists_of_takeSign {negative : Bool} {cs rest : List Char}
    (h : takeSign cs = (negative, rest)) : ∃ sign, IsSign negative sign ∧ cs = sign ++ rest := by
  unfold takeSign at h
  split at h
  · cases h
    exact ⟨_, .minus, rfl⟩
  · cases h
    exact ⟨_, .plus, rfl⟩
  · cases h
    exact ⟨_, .absent, rfl⟩

/-- Signs, points and marks of exponents are no digits. -/
theorem decimalDigit?_mark {c : Char} (h : c ∈ ['+', '-', '.', 'e', 'E']) :
    decimalDigit? c = none := by
  simp only [List.mem_cons, List.not_mem_nil, or_false] at h
  rcases h with rfl | rfl | rfl | rfl | rfl <;> decide +kernel

/-- The first of some digits is a digit. -/
theorem AreDigits.isSome_head? {values : List Nat} {ds : List Char} (h : AreDigits values ds)
    {c : Char} (hc : ds.head? = some c) : ∃ value, decimalDigit? c = some value := by
  cases ds with
  | nil => cases hc
  | cons d ds =>
    cases hc
    cases values with
    | nil => cases h
    | cons value values => exact ⟨value, (List.cons.inj h).1⟩

/-- Digits begin with no sign, and neither does what follows them if there are any. -/
theorem AreDigits.noSignFirst {values : List Nat} {ds : List Char} (h : AreDigits values ds)
    (hne : ds ≠ []) (rest : List Char) : NoSignFirst (ds ++ rest) := by
  intro c hc
  rw [List.head?_append_of_ne_nil _ hne] at hc
  obtain ⟨value, hvalue⟩ := h.isSome_head? hc
  constructor
  · rintro rfl
    rw [decimalDigit?_mark (by simp)] at hvalue
    cases hvalue
  · rintro rfl
    rw [decimalDigit?_mark (by simp)] at hvalue
    cases hvalue

/-- A mantissa begins with no sign. -/
theorem IsMantissa.noSignFirst {whole fraction : List Nat} {cs : List Char}
    (h : IsMantissa whole fraction cs) (rest : List Char) : NoSignFirst (cs ++ rest) := by
  cases h with
  | whole hds hne => exact hds.noSignFirst hne rest
  | pointed hds hne hes =>
    rw [List.append_assoc]
    exact hds.noSignFirst hne _
  | fraction hes hne =>
    intro c hc
    cases hc
    exact ⟨by decide, by decide⟩

/-- Digits have as many values as they are. -/
theorem AreDigits.length_eq {values : List Nat} {ds : List Char} (h : AreDigits values ds) :
    values.length = ds.length := by
  have hlength := congrArg List.length h
  rwa [List.length_map, List.length_map, eq_comm] at hlength

/-- There are no values exactly when there are no digits. -/
theorem AreDigits.eq_nil_iff {values : List Nat} {ds : List Char} (h : AreDigits values ds) :
    values = [] ↔ ds = [] := by
  rw [← List.length_eq_zero_iff, h.length_eq, List.length_eq_zero_iff]

/-- A text is read as an exponent exactly if it is one. -/
theorem readExponent?_eq_some_iff {cs : List Char} {power : Int} :
    readExponent? decimalDigit? cs = some power ↔ IsExponent power cs := by
  constructor
  · intro h
    unfold readExponent? at h
    split at h
    · cases h
      exact .absent
    · rename_i mark cs
      split at h
      · rename_i hmark
        rcases hsign : takeSign cs with ⟨negative, body⟩
        rcases htake : takeDigits decimalDigit? body with ⟨values, rest⟩
        obtain ⟨sign, hsign', rfl⟩ := exists_of_takeSign hsign
        obtain ⟨ds, rfl, hds, -⟩ := exists_of_takeDigits htake
        have hds : AreDigits values ds := hds
        simp only [hsign, htake] at h
        split at h
        · cases h
        · rename_i values' hne heq
          obtain ⟨rfl, rfl⟩ := Prod.mk.inj heq
          cases h
          rw [List.append_nil]
          refine .present hmark hsign' hds ?_
          rintro rfl
          exact hne (hds.eq_nil_iff.mpr rfl)
        · cases h
      · cases h
  · rintro (_ | ⟨hmark, hsign, hds, hne⟩)
    · rfl
    · have htake := @takeDigits_append_of decimalDigit? _ [] _ hds (fun c hc => by cases hc)
      have hbody := takeSign_append hsign (hds.noSignFirst hne [])
      rw [List.append_nil] at htake hbody
      simp only [readExponent?, if_pos hmark, hbody, htake]
      split
      · rename_i hnil
        exact absurd (hds.eq_nil_iff.mp (Prod.mk.inj hnil).1) hne
      · rename_i hvalues
        obtain ⟨rfl, -⟩ := Prod.mk.inj hvalues
        rfl
      · rename_i hother
        exact absurd rfl (hother _)

/-- An exponent begins with no digit and no point. -/
theorem IsExponent.head_mark {power : Int} {cs : List Char} (h : IsExponent power cs) {c : Char}
    (hc : cs.head? = some c) : decimalDigit? c = none ∧ c ≠ '.' := by
  cases h with
  | absent => cases hc
  | present hmark hsign hds hne =>
    cases hc
    rcases hmark with rfl | rfl
    · exact ⟨decimalDigit?_mark (by simp), by decide⟩
    · exact ⟨decimalDigit?_mark (by simp), by decide⟩

/-- The digits behind an optional point, and what follows them. -/
def takeFraction : List Char → List Nat × List Char
  | '.' :: cs => takeDigits decimalDigit? cs
  | cs => ([], cs)

/-- A decimal without its sign is read part by part. -/
theorem readMagnitude?_eq (negative : Bool) (cs : List Char) :
    readMagnitude? decimalDigit? negative cs =
      let (whole, afterWhole) := takeDigits decimalDigit? cs
      let (fraction, rest) := takeFraction afterWhole
      if whole = [] ∧ fraction = [] then none
      else (readExponent? decimalDigit? rest).map fun power =>
        ⟨negative, ofDigits (whole ++ fraction), power - fraction.length⟩ := by
  simp only [readMagnitude?, takeFraction, Bool.and_eq_true, List.isEmpty_iff]
  rfl

/-- Without a point there is no fraction. -/
theorem takeFraction_of_ne {cs : List Char} (h : ∀ c, cs.head? = some c → c ≠ '.') :
    takeFraction cs = ([], cs) := by
  unfold takeFraction
  split
  · exact absurd rfl (h '.' rfl)
  · rfl

/-- The digits that are read around a point are a mantissa, if there are any. -/
theorem isMantissa_of_take {cs afterWhole rest : List Char} {whole fraction : List Nat}
    (hwhole : takeDigits decimalDigit? cs = (whole, afterWhole))
    (hfraction : takeFraction afterWhole = (fraction, rest))
    (hne : ¬ (whole = [] ∧ fraction = [])) :
    ∃ mantissa, IsMantissa whole fraction mantissa ∧ cs = mantissa ++ rest := by
  obtain ⟨ds, rfl, hds, -⟩ := exists_of_takeDigits hwhole
  have hds : AreDigits whole ds := hds
  unfold takeFraction at hfraction
  split at hfraction
  · rename_i tail
    obtain ⟨es, rfl, hes, -⟩ := exists_of_takeDigits hfraction
    have hes : AreDigits fraction es := hes
    by_cases hnil : ds = []
    · subst hnil
      have hwhole := hds.eq_nil_iff.mpr rfl
      subst hwhole
      exact ⟨'.' :: es, .fraction hes fun h => hne ⟨rfl, hes.eq_nil_iff.mpr h⟩, rfl⟩
    · exact ⟨ds ++ '.' :: es, .pointed hds hnil hes, by rw [List.append_assoc, List.cons_append]⟩
  · cases hfraction
    exact ⟨ds, .whole hds fun h => hne ⟨hds.eq_nil_iff.mpr h, rfl⟩, rfl⟩

/-- A mantissa in front of an exponent is taken off as its digits. -/
theorem IsMantissa.take_append {mantissa exponent : List Char} {whole fraction : List Nat}
    {power : Int} (h : IsMantissa whole fraction mantissa) (hexponent : IsExponent power exponent) :
    ∃ afterWhole, takeDigits decimalDigit? (mantissa ++ exponent) = (whole, afterWhole) ∧
      takeFraction afterWhole = (fraction, exponent) ∧ ¬ (whole = [] ∧ fraction = []) := by
  have hdigit : ∀ c, exponent.head? = some c → decimalDigit? c = none :=
    fun c hc => (hexponent.head_mark hc).1
  have hpoint : ∀ c, exponent.head? = some c → c ≠ '.' := fun c hc => (hexponent.head_mark hc).2
  have hdot : ∀ cs c, ('.' :: cs).head? = some c → decimalDigit? c = none := by
    intro cs c hc
    cases hc
    exact decimalDigit?_mark (by simp)
  cases h with
  | whole hds hne =>
    exact ⟨exponent, takeDigits_append_of hds hdigit, takeFraction_of_ne hpoint,
      fun h => hne (hds.eq_nil_iff.mp h.1)⟩
  | @pointed values places ds es hds hne hes =>
    refine ⟨'.' :: (es ++ exponent), ?_, takeDigits_append_of hes hdigit,
      fun h => hne (hds.eq_nil_iff.mp h.1)⟩
    rw [List.append_assoc, List.cons_append]
    exact takeDigits_append_of hds (hdot _)
  | @fraction places es hes hne =>
    exact ⟨'.' :: (es ++ exponent), @takeDigits_append_of decimalDigit? [] _ [] rfl (hdot _),
      takeDigits_append_of hes hdigit, fun h => hne (hes.eq_nil_iff.mp h.2)⟩

/-- The parts of a literal denote the value of the decimal that they are read as. -/
theorem value_parts (negative : Bool) (whole fraction : List Nat) (power : Int) :
    Decimal.value ⟨negative, ofDigits (whole ++ fraction), power - fraction.length⟩ =
      literalValue negative whole fraction power := by
  have hpow : (10 : ℚ) ^ fraction.length ≠ 0 := by positivity
  rw [Decimal.value, literalValue, ofDigits_append, zpow_sub₀ (by norm_num), zpow_natCast]
  cases negative with
  | false =>
    simp only [signed, Bool.false_eq_true, if_false]
    push_cast
    field_simp
  | true =>
    simp only [signed, if_true]
    push_cast
    field_simp

/-- A text is read as a decimal exactly if it is a literal, and the decimal has the sign and the
value of the literal. -/
theorem isLiteral_iff {negative : Bool} {q : ℚ} {cs : List Char} :
    IsLiteral negative q cs ↔
      ∃ d, readDecimal? cs = some d ∧ d.negative = negative ∧ d.value = q := by
  constructor
  · rintro ⟨hsign, hmantissa, hexponent⟩
    obtain ⟨afterWhole, hwhole, hfraction, hne⟩ := hmantissa.take_append hexponent
    have htake := fun rest => takeSign_append hsign (hmantissa.noSignFirst rest)
    refine ⟨_, ?_, rfl, value_parts _ _ _ _⟩
    simp only [readDecimal?, htake, readMagnitude?_eq, hwhole, hfraction, if_neg hne,
      readExponent?_eq_some_iff.mpr hexponent, Option.map_some]
  · rintro ⟨d, hread, rfl, rfl⟩
    rcases hsign : takeSign cs with ⟨negative, body⟩
    rcases hwhole : takeDigits decimalDigit? body with ⟨whole, afterWhole⟩
    rcases hfraction : takeFraction afterWhole with ⟨fraction, rest⟩
    simp only [readDecimal?, hsign, readMagnitude?_eq, hwhole, hfraction] at hread
    split at hread
    · cases hread
    · rename_i hne
      obtain ⟨power, hpower, rfl⟩ := Option.map_eq_some_iff.mp hread
      obtain ⟨sign, hsign', rfl⟩ := exists_of_takeSign hsign
      obtain ⟨mantissa, hmantissa, rfl⟩ := isMantissa_of_take hwhole hfraction hne
      rw [value_parts]
      exact .parts hsign' hmantissa (readExponent?_eq_some_iff.mp hpower)

/-- A text is the name of an infinity if that is what follows its sign. -/
theorem isInfinity_iff {negative : Bool} {cs : List Char} :
    IsInfinity negative cs ↔
      takeSign cs = (negative, ['I', 'n', 'f', 'i', 'n', 'i', 't', 'y']) := by
  constructor
  · rintro ⟨hsign⟩
    refine takeSign_append hsign ?_
    intro c hc
    cases hc
    exact ⟨by decide, by decide⟩
  · intro h
    obtain ⟨sign, hsign, rfl⟩ := exists_of_takeSign h
    exact .word hsign

/-- The name of an infinity is no literal. -/
theorem readDecimal?_of_isInfinity {negative : Bool} {cs : List Char} (h : IsInfinity negative cs) :
    readDecimal? cs = none := by
  rw [readDecimal?, isInfinity_iff.mp h]
  rfl

/-- The empty text is neither a literal nor the name of an infinity. -/
theorem not_isLiteral_nil (negative : Bool) (q : ℚ) : ¬ IsLiteral negative q [] := by
  intro h
  obtain ⟨d, hread, -⟩ := isLiteral_iff.mp h
  cases hread

section Amount

variable {text : List Char} {negative : Bool} {q : ℚ}

/-- A blank text is zero. -/
theorem amountOfText_of_blank (h : strip text = []) : amountOfText text = .zero false := by
  simp only [amountOfText, h, List.isEmpty_nil, if_true]

/-- A literal is the double that its number is rounded to. -/
theorem amountOfText_of_isLiteral (h : IsLiteral negative q (strip text)) :
    IsRounding negative q (amountOfText text) := by
  obtain ⟨d, hread, rfl, rfl⟩ := isLiteral_iff.mp h
  have hne : ¬ (strip text).isEmpty = true := by
    rw [List.isEmpty_iff]
    intro hnil
    rw [hnil] at h
    exact not_isLiteral_nil _ _ h
  simp only [amountOfText, if_neg hne, hread]
  exact d.isRounding_toDouble

/-- The name of an infinity is that infinity. -/
theorem amountOfText_of_isInfinity (h : IsInfinity negative (strip text)) :
    amountOfText text = .infinity negative := by
  have hsign := isInfinity_iff.mp h
  have hne : ¬ (strip text).isEmpty = true := by
    rw [List.isEmpty_iff]
    intro hnil
    rw [hnil] at hsign
    cases hsign
  simp only [amountOfText, if_neg hne, readDecimal?_of_isInfinity h, hsign, if_true]

/-- Every other text is not a number. -/
theorem amountOfText_of_none (hblank : strip text ≠ [])
    (hliteral : ∀ negative q, ¬ IsLiteral negative q (strip text))
    (hinfinity : ∀ negative, ¬ IsInfinity negative (strip text)) : amountOfText text = .nan := by
  have hread : readDecimal? (strip text) = none := by
    refine Option.eq_none_iff_forall_not_mem.mpr fun d hd => ?_
    exact hliteral _ _ (isLiteral_iff.mpr ⟨d, hd, rfl, rfl⟩)
  have hword : ¬ (takeSign (strip text)).2 = ['I', 'n', 'f', 'i', 'n', 'i', 't', 'y'] := by
    intro hword
    exact hinfinity _ (isInfinity_iff.mpr (Prod.ext rfl hword))
  simp only [amountOfText, if_neg (mt List.isEmpty_iff.mp hblank), hread, if_neg hword]

end Amount

/-- The amount of a text is told by the grammar. It is what the number of a literal is rounded
to, an infinity where one is named, zero for a blank text, and otherwise not a number. -/
theorem amount_text (s : String) :
    ∃ x, (Value.text s).amount = .ok x ∧
      (x = .nan ↔ strip s.toList ≠ [] ∧
        (∀ negative q, ¬ IsLiteral negative q (strip s.toList)) ∧
        ∀ negative, ¬ IsInfinity negative (strip s.toList)) ∧
      (∀ negative q, IsLiteral negative q (strip s.toList) → IsRounding negative q x) ∧
      (∀ negative, IsInfinity negative (strip s.toList) → x = .infinity negative) ∧
      (strip s.toList = [] → x = .zero false) := by
  refine ⟨amountOfText s.toList, rfl, ⟨fun hnan => ⟨?_, ?_, ?_⟩, ?_⟩,
    fun _ _ => amountOfText_of_isLiteral, fun _ => amountOfText_of_isInfinity,
    amountOfText_of_blank⟩
  · intro hblank
    rw [amountOfText_of_blank hblank] at hnan
    cases hnan
  · intro negative q hliteral
    exact (amountOfText_of_isLiteral hliteral).ne_nan hnan
  · intro negative hinfinity
    rw [amountOfText_of_isInfinity hinfinity] at hnan
    cases hnan
  · rintro ⟨hblank, hliteral, hinfinity⟩
    exact amountOfText_of_none hblank hliteral hinfinity

end Loyalty
