/-!
# Rounding quotients to whole numbers

Doubles and cents are both whole multiples of a unit, so each of their roundings
is one rounding of a quotient of naturals. `roundQuotient` is that operation;
the two bounds say that its answer is never more than half a unit away.
-/

namespace Loyalty

/-- Which whole number a quotient exactly half way between two of them goes to. -/
inductive Tie where
  /-- The even neighbour. -/
  | toEven
  /-- The larger neighbour, which for magnitudes is the one away from zero. -/
  | up
  deriving DecidableEq

/-- The whole number nearest to `num / den`, with `tie` deciding at a half. -/
def roundQuotient (tie : Tie) (num den : Nat) : Nat :=
  if 2 * (num % den) < den then num / den
  else if den < 2 * (num % den) then num / den + 1
  else match tie with
    | .toEven => num / den + num / den % 2
    | .up => num / den + 1

/-- A quotient is rounded to one of the two whole numbers next to it, and to none that is
farther away than half a unit. -/
theorem roundQuotient_cases (tie : Tie) (num den : Nat) :
    (roundQuotient tie num den = num / den ∧ 2 * (num % den) ≤ den) ∨
      (roundQuotient tie num den = num / den + 1 ∧ den ≤ 2 * (num % den)) := by
  unfold roundQuotient
  split
  · exact .inl ⟨rfl, by omega⟩
  · split
    · exact .inr ⟨rfl, by omega⟩
    · have hhalf : 2 * (num % den) = den := by omega
      cases tie with
      | up => exact .inr ⟨rfl, Nat.le_of_eq hhalf.symm⟩
      | toEven =>
        rcases Nat.mod_two_eq_zero_or_one (num / den) with heven | hodd
        · exact .inl ⟨by simp [heven], Nat.le_of_eq hhalf⟩
        · exact .inr ⟨by simp [hodd], Nat.le_of_eq hhalf.symm⟩

/-- A quotient is rounded up by at most half a unit. -/
theorem two_mul_roundQuotient_le (tie : Tie) (num den : Nat) :
    2 * (roundQuotient tie num den * den) ≤ 2 * num + den := by
  have hfloor := Nat.div_add_mod' num den
  have hceil := Nat.add_one_mul (num / den) den
  rcases roundQuotient_cases tie num den with ⟨heq, hlow⟩ | ⟨heq, hhigh⟩
  · rw [heq]
    omega
  · rw [heq]
    omega

/-- A quotient is rounded down by at most half a unit. -/
theorem two_mul_le_two_mul_roundQuotient_add (tie : Tie) (num den : Nat) (hden : 0 < den) :
    2 * num ≤ 2 * (roundQuotient tie num den * den) + den := by
  have hmod := Nat.mod_lt num hden
  have hfloor := Nat.div_add_mod' num den
  have hceil := Nat.add_one_mul (num / den) den
  rcases roundQuotient_cases tie num den with ⟨heq, hlow⟩ | ⟨heq, hhigh⟩
  · rw [heq]
    omega
  · rw [heq]
    omega

end Loyalty
