import Loyalty.Proofs.Json.Ascii
import Loyalty.Proofs.Text.Segments
import Loyalty.Proofs.Value.Refusals

/-!
# Indices in ASCII paths

A path is split at its points, and a segment of digits is an index where the walk comes to an
array. The digits among the ASCII characters are the decimal ones, so the only index that an
ASCII path cannot spell is one with more digits than are read.
-/

namespace Loyalty

/-- The digits among the ASCII characters are the ten decimal ones. -/
theorem isAnyDigit_iff_of_ascii {c : Char} (hascii : c.toNat < 128) :
    isAnyDigit c = true ↔ c.isDigit = true := by
  have hother : ∀ range ∈ otherDigitRanges, 128 ≤ range.1 := by decide
  have hdecimal : ∀ range ∈ decimalRanges.tail, 128 ≤ range.1 := by decide
  have hranges : decimalRanges = (48, 57) :: decimalRanges.tail := rfl
  constructor
  · intro h
    rw [isAnyDigit, Bool.or_eq_true] at h
    rcases h with h | h
    · rw [decimalDigit?, Option.isSome_map, List.find?_isSome, hranges] at h
      obtain ⟨range, hmem, hrange⟩ := h
      simp only [Bool.and_eq_true, decide_eq_true_eq] at hrange
      rcases List.mem_cons.mp hmem with rfl | htail
      · simp only [Char.isDigit, Bool.and_eq_true, decide_eq_true_eq]
        exact hrange
      · have := hdecimal range htail
        omega
    · rw [inRanges, List.any_eq_true] at h
      obtain ⟨range, hmem, hrange⟩ := h
      simp only [Bool.and_eq_true, decide_eq_true_eq] at hrange
      have := hother range hmem
      omega
  · intro h
    rw [isAnyDigit, decimalDigit?_of_asciiDigit? (asciiDigit?_of_isDigit h)]
    rfl

/-- Decimal digits spell an index unless they are too many. -/
theorem readIndex_of_isDigit {segment : List Char} (h : ∀ c ∈ segment, c.isDigit = true) :
    readIndex segment = if Json.digitLimit < segment.length
      then .error (.indexTooLong segment.length) else .ok (ofDigits (digitValues segment)) := by
  rw [readIndex, takeDigits_decimal h]
  simp only [length_digitValues, List.isEmpty_nil, if_true]

namespace Value

/-- The segments of an ASCII path are ASCII. -/
theorem isAscii_of_mem_segments {path : Value} (hpath : IsAscii path.spelling.toList)
    {segment : List Char} (h : segment ∈ path.segments) : IsAscii segment :=
  hpath.of_subset (subset_of_mem_segments h)

/-- A path that comes to an array with an index of more digits than are read. -/
def Overruns (path record : Value) : Prop :=
  path.isTruthy = true ∧ ∃ before segment after kind items,
    path.segments = before ++ segment :: after ∧
    walk .missing before record = .ok (.array kind items) ∧
    (∀ c ∈ segment, c.isDigit = true) ∧ Json.digitLimit < segment.length

/-- An ASCII segment that can be an index is one unless it has too many digits. -/
theorem readIndex_eq_error_iff {segment : List Char} (hascii : IsAscii segment) {f : Fault} :
    isIndex segment = true ∧ readIndex segment = .error f ↔
      (∀ c ∈ segment, c.isDigit = true) ∧ Json.digitLimit < segment.length ∧
        f = .indexTooLong segment.length := by
  have hdigits : segment.all isAnyDigit = true ↔ ∀ c ∈ segment, c.isDigit = true := by
    rw [List.all_eq_true]
    exact forall₂_congr fun c hc => isAnyDigit_iff_of_ascii (hascii c hc)
  rw [isIndex, Bool.and_eq_true, hdigits, and_assoc]
  constructor
  · rintro ⟨-, h, hread⟩
    rw [readIndex_of_isDigit h] at hread
    split at hread
    · rename_i hlong
      cases hread
      exact ⟨h, hlong, rfl⟩
    · cases hread
  · rintro ⟨h, hlong, rfl⟩
    refine ⟨?_, h, by rw [readIndex_of_isDigit h, if_pos hlong]⟩
    cases segment with
    | nil => exact absurd hlong (Nat.not_lt_zero _)
    | cons c cs => rfl

/-- An ASCII path with few digits stumbles only where it overruns. -/
theorem stumbles_iff_overruns {path record : Value} (hfew : path.HasFewDigits)
    (hpath : IsAscii path.spelling.toList) : path.Stumbles record ↔ path.Overruns record := by
  rw [Stumbles, or_iff_right fun hlacks => hlacks.manyDigits hfew]
  refine and_congr_right fun _ => (and_iff_right hfew).trans ?_
  refine exists_congr fun before => exists_congr fun segment => exists_congr fun after =>
    exists_congr fun kind => exists_congr fun items => and_congr_right fun hsegments =>
      and_congr_right fun _ => ?_
  have hascii : IsAscii segment := isAscii_of_mem_segments hpath (by simp [hsegments])
  rw [← exists_and_left]
  simp only [readIndex_eq_error_iff hascii, ← and_assoc, exists_eq_right]

end Value

end Loyalty
