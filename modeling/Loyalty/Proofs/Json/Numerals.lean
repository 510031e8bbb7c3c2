import Loyalty.Json.Lexeme
import Loyalty.Proofs.Text.Digits

/-!
# Numerals read part by part

A numeral is a sign, a whole part, a fraction and an exponent, each of them
optional but the whole part. The reader takes each part to its end, so a text
put together from well-formed parts is read as just these parts.
-/

namespace Loyalty.Json

/-- A text that cannot be read on as a part of a number before it. -/
def EndsNumber (cs : List Char) : Prop :=
  ∀ c, cs.head? = some c → c.isDigit = false ∧ c ≠ '.' ∧ c ≠ 'e' ∧ c ≠ 'E'

/-- Digits that can be the whole part of a number. -/
structure IsWhole (ds : List Char) : Prop where
  isDigit : ∀ c ∈ ds, c.isDigit = true
  ne_nil : ds ≠ []
  eq_zero : ds.head? = some '0' → ds = ['0']

/-- The digit zero alone is a whole part. -/
theorem isWhole_zero : IsWhole ['0'] where
  isDigit := by
    intro c hc
    rw [List.mem_singleton.mp hc]
    rfl
  ne_nil := List.cons_ne_nil _ _
  eq_zero := fun _ => rfl

/-- A text with a minus in front when it is negative. -/
def withSign (negative : Bool) (cs : List Char) : List Char :=
  if negative then '-' :: cs else cs

/-- The end of a document ends a number. -/
theorem endsNumber_nil : EndsNumber [] := by
  intro c hc
  cases hc

/-- So does every character that is no part of one. -/
theorem endsNumber_cons {c : Char} (hdigit : c.isDigit = false)
    (hother : c ≠ '.' ∧ c ≠ 'e' ∧ c ≠ 'E') (cs : List Char) : EndsNumber (c :: cs) := by
  intro d hd
  cases hd
  exact ⟨hdigit, hother⟩

/-- The end of a number is no digit. -/
theorem EndsNumber.noDigitFirst {cs : List Char} (h : EndsNumber cs) : NoDigitFirst cs :=
  fun c hc => (h c hc).1

/-- The whole part is read to its end. -/
theorem readWhole?_append {ds rest : List Char} (hds : IsWhole ds) (hrest : NoDigitFirst rest) :
    readWhole? (ds ++ rest) = some (digitValues ds, rest) := by
  obtain ⟨d, ds', rfl⟩ := List.exists_cons_of_ne_nil hds.ne_nil
  by_cases hzero : d = '0'
  · subst hzero
    rw [hds.eq_zero rfl]
    rfl
  · have htake := takeDigits_append hds.isDigit hrest
    unfold readWhole?
    split
    · rename_i heq
      exact absurd (List.cons.inj heq).1 hzero
    · rw [htake]
      rfl

/-- A point and its digits are read to their end. -/
theorem readFraction_append {ds rest : List Char} (hds : ∀ c ∈ ds, c.isDigit = true)
    (hne : ds ≠ []) (hrest : NoDigitFirst rest) :
    readFraction ('.' :: (ds ++ rest)) = (digitValues ds, rest) := by
  obtain ⟨d, ds', rfl⟩ := List.exists_cons_of_ne_nil hne
  simp only [readFraction, takeDigits_append hds hrest]
  rfl

/-- Without a point there is no fraction. -/
theorem readFraction_of_ne {cs : List Char} (h : cs.head? ≠ some '.') :
    readFraction cs = ([], cs) := by
  unfold readFraction
  split
  · exact absurd rfl h
  · rfl

/-- The exponent that a sign and digits denote. -/
def exponentOf (negative : Bool) (ds : List Char) : Int :=
  if negative then -(ofDigits (digitValues ds) : Int) else ofDigits (digitValues ds)

/-- An exponent is read to its end. -/
theorem readExponent_append {ds rest : List Char} (negative : Bool)
    (hds : ∀ c ∈ ds, c.isDigit = true) (hne : ds ≠ []) (hrest : NoDigitFirst rest) :
    readExponent ('e' :: (if negative then '-' else '+') :: (ds ++ rest)) =
      (some (exponentOf negative ds), rest) := by
  obtain ⟨d, ds', rfl⟩ := List.exists_cons_of_ne_nil hne
  have htake := takeDigits_append hds hrest
  cases negative
  · simp only [readExponent, takeSign, if_false, Bool.false_eq_true, htake]
    rfl
  · simp only [readExponent, takeSign, if_true, htake]
    rfl

/-- Without its mark there is no exponent. -/
theorem readExponent_of_endsNumber {cs : List Char} (h : EndsNumber cs) :
    readExponent cs = (none, cs) := by
  unfold readExponent
  split
  · rename_i mark rest
    obtain ⟨-, -, hlower, hupper⟩ := h mark rfl
    rw [if_neg (by simp [hlower, hupper])]
  · rfl

/-- A numeral is what its parts are. -/
theorem readNumberText?_of_parts {body afterWhole afterFraction rest : List Char}
    {whole fraction : List Nat} {exponent : Option Int} (hsign : body.head? ≠ some '-')
    (hwhole : readWhole? body = some (whole, afterWhole))
    (hfraction : readFraction afterWhole = (fraction, afterFraction))
    (hexponent : readExponent afterFraction = (exponent, rest)) (negative : Bool) :
    readNumberText? (withSign negative body) =
      some (⟨negative, whole, fraction, exponent⟩, rest) := by
  cases negative
  · simp only [readNumberText?, withSign, Bool.false_eq_true, if_false,
      if_neg hsign, decide_eq_false hsign, hwhole, hfraction, hexponent, Option.bind_eq_bind,
      Option.bind_some, Option.pure_def]
  · simp only [readNumberText?, withSign, if_true, List.head?_cons, decide_true, List.tail_cons,
      hwhole, hfraction, hexponent, Option.bind_eq_bind, Option.bind_some, Option.pure_def]

/-- The whole part does not begin with a minus. -/
theorem IsWhole.head?_append_ne {ds : List Char} (hds : IsWhole ds) (rest : List Char) :
    (ds ++ rest).head? ≠ some '-' := by
  obtain ⟨d, ds', rfl⟩ := List.exists_cons_of_ne_nil hds.ne_nil
  intro hhead
  cases hhead
  have := hds.isDigit '-' List.mem_cons_self
  exact absurd this (by decide)

/-- Digits alone are read as an integer text. -/
theorem readNumberText?_whole {ds rest : List Char} (hds : IsWhole ds) (hrest : EndsNumber rest)
    (negative : Bool) :
    readNumberText? (withSign negative (ds ++ rest)) =
      some (⟨negative, digitValues ds, [], none⟩, rest) := by
  refine readNumberText?_of_parts (hds.head?_append_ne rest)
    (readWhole?_append hds hrest.noDigitFirst) (readFraction_of_ne ?_)
    (readExponent_of_endsNumber hrest) negative
  intro hpoint
  exact (hrest '.' hpoint).2.1 rfl

/-- Digits, a point and digits are read as a fraction without an exponent. -/
theorem readNumberText?_fixed {ds es rest : List Char} (hds : IsWhole ds)
    (hes : ∀ c ∈ es, c.isDigit = true) (hne : es ≠ []) (hrest : EndsNumber rest)
    (negative : Bool) :
    readNumberText? (withSign negative (ds ++ '.' :: (es ++ rest))) =
      some (⟨negative, digitValues ds, digitValues es, none⟩, rest) :=
  readNumberText?_of_parts (hds.head?_append_ne _)
    (readWhole?_append hds (noDigitFirst_cons (by decide) _))
    (readFraction_append hes hne hrest.noDigitFirst) (readExponent_of_endsNumber hrest) negative

/-- A digit, digits after a point if there are more, and an exponent are read as
a fraction with an exponent. -/
theorem readNumberText?_scientific {ds es xs rest : List Char} (hds : IsWhole ds)
    (hes : ∀ c ∈ es, c.isDigit = true) (hxs : ∀ c ∈ xs, c.isDigit = true) (hne : xs ≠ [])
    (hrest : EndsNumber rest) (negative small : Bool) :
    readNumberText? (withSign negative (ds ++ ((if es = [] then [] else '.' :: es) ++
        'e' :: (if small then '-' else '+') :: (xs ++ rest)))) =
      some (⟨negative, digitValues ds, digitValues es, some (exponentOf small xs)⟩, rest) := by
  have hexponent := readExponent_append small hxs hne hrest.noDigitFirst
  have hmark : ∀ cs, NoDigitFirst ('e' :: cs) := noDigitFirst_cons (by decide)
  split
  · rename_i hnil
    subst hnil
    exact readNumberText?_of_parts (hds.head?_append_ne _) (readWhole?_append hds (hmark _))
      (readFraction_of_ne (by simp)) hexponent negative
  · rename_i hsome
    exact readNumberText?_of_parts (hds.head?_append_ne _)
      (readWhole?_append hds (noDigitFirst_cons (by decide) _))
      (readFraction_append hes hsome (hmark _)) hexponent negative

end Loyalty.Json
