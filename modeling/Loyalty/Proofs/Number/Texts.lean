import Loyalty.Proofs.Json.Numbers
import Loyalty.Proofs.Number.Fewest
import Loyalty.Proofs.Number.Literals

/-!
# The texts of numbers

The text of a finite double and the text of an integer are decimal literals. That of an integer
denotes the integer, and that of a double denotes a shortest decimal that reads back as the
double.
-/

namespace Loyalty

open Double

/-- Digits of ASCII are digits with their values. -/
theorem areDigits_digitValues {ds : List Char} (hds : ∀ c ∈ ds, c.isDigit = true) :
    AreDigits (digitValues ds) ds := map_decimalDigit? hds

/-- A mantissa and an exponent are a literal, with a minus in front if it is negative. -/
theorem isLiteral_withSign {negative : Bool} {whole fraction : List Nat} {power : Int}
    {mantissa exponent : List Char} {q : ℚ} (hmantissa : IsMantissa whole fraction mantissa)
    (hexponent : IsExponent power exponent)
    (hq : Decimal.value ⟨negative, ofDigits (whole ++ fraction), power - fraction.length⟩ = q) :
    IsLiteral negative q (Json.withSign negative (mantissa ++ exponent)) := by
  rw [← hq, value_parts]
  cases negative with
  | false => exact .parts .absent hmantissa hexponent
  | true => exact .parts .minus hmantissa hexponent

/-- The text of a decimal is a literal that denotes the decimal. -/
theorem isLiteral_write (d : Decimal) :
    IsLiteral d.negative d.value (doubleLayout.write d) := by
  obtain ⟨hwhole, hzero, hvalue⟩ := Json.writtenDigits_spec d
  rw [Json.write_eq]
  split
  · obtain ⟨whole, fraction, htext, hlayout⟩ := Json.positional_spec hwhole hzero d.negative
    rw [htext, ← List.append_nil (whole ++ '.' :: fraction)]
    refine isLiteral_withSign ?_ .absent (hlayout.value.trans hvalue)
    exact .pointed (areDigits_digitValues hlayout.isWhole.isDigit) hlayout.isWhole.ne_nil
      (areDigits_digitValues hlayout.isDigit)
  · obtain ⟨first, rest, exponent, htext, hfirst, hrest, hdigits, hne, hpower⟩ :=
      Json.scientific_spec hwhole d.leading d.negative
    have hexponent : IsExponent (Json.exponentOf (decide (d.leading < 0)) exponent)
        ('e' :: (if decide (d.leading < 0) then '-' else '+') :: exponent) := by
      have hdigits := areDigits_digitValues hdigits
      cases decide (d.leading < 0) with
      | false => exact .present (.inl rfl) .plus hdigits hne
      | true => exact .present (.inl rfl) .minus hdigits hne
    have hmantissa : IsMantissa (digitValues [first]) (digitValues rest)
        ([first] ++ if rest = [] then [] else '.' :: rest) := by
      have hfirst' := areDigits_digitValues hfirst.isDigit
      split
      · rename_i hnil
        rw [List.append_nil, hnil]
        exact .whole hfirst' hfirst.ne_nil
      · exact .pointed hfirst' hfirst.ne_nil (areDigits_digitValues hrest)
    rw [htext, ← List.append_assoc]
    exact isLiteral_withSign hmantissa hexponent (hpower.trans hvalue)

/-- The text of an integer is a literal that denotes the integer. -/
theorem isLiteral_intText (n : Int) : IsLiteral (n < 0) n (intText n).toList := by
  have htext : (intText n).toList =
      Json.withSign (n < 0) (Nat.toDigits 10 n.natAbs ++ []) := by
    rw [intText, String.toList_ofList, Json.withSign, List.append_nil]
    simp only [decide_eq_true_eq]
    split <;> rfl
  rw [htext]
  refine isLiteral_withSign (.whole (areDigits_digitValues fun c => isDigit_of_mem_toDigits)
    Nat.toDigits_ne_nil) .absent ?_
  rw [List.append_nil, ofDigits_toDigits, Decimal.value]
  simp only [signed_natAbs]
  simp

end Loyalty
