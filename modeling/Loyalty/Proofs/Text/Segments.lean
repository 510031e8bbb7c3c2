import Loyalty.Text.Quoted

/-!
# Parts of a text

A separator cuts a text into parts, one more than it occurs. The parts of a joined text are the
parts of what was joined, in their order.
-/

namespace Loyalty

variable {separator : Char}

/-- The parts of a text consist of its characters. -/
theorem subset_of_mem_segments {cs part : List Char}
    (h : part ∈ segments separator cs) : part ⊆ cs := by
  induction cs generalizing part with
  | nil =>
    rw [segments, List.mem_singleton] at h
    rw [h]
    exact List.Subset.refl _
  | cons c cs ih =>
    rw [segments] at h
    split at h
    · rcases List.mem_cons.mp h with rfl | h
      · exact List.nil_subset _
      · exact List.Subset.trans (ih h) (List.subset_cons_self c cs)
    · split at h
      · rw [List.mem_singleton] at h
        rw [h]
        exact List.cons_subset_cons c (List.nil_subset cs)
      · rename_i first parts hparts
        rw [hparts] at ih
        rcases List.mem_cons.mp h with rfl | h
        · exact List.cons_subset_cons c (ih List.mem_cons_self)
        · exact List.Subset.trans (ih (List.mem_cons_of_mem _ h)) (List.subset_cons_self c cs)

/-- A text without the separator is its only part. -/
theorem segments_of_not_mem {cs : List Char} (h : separator ∉ cs) :
    segments separator cs = [cs] := by
  induction cs with
  | nil => rfl
  | cons c cs ih =>
    rw [List.mem_cons, not_or] at h
    rw [segments, if_neg (Ne.symm h.1), ih h.2]

/-- A text has a first part. -/
theorem segments_ne_nil (separator : Char) (cs : List Char) : segments separator cs ≠ [] := by
  cases cs with
  | nil => exact List.cons_ne_nil _ _
  | cons c cs =>
    rw [segments]
    split
    · exact List.cons_ne_nil _ _
    · split <;> exact List.cons_ne_nil _ _

/-- The parts of two texts with a separator between them are the parts of the one and those of
the other. -/
theorem segments_append_cons (separator : Char) (cs ds : List Char) :
    segments separator (cs ++ separator :: ds) =
      segments separator cs ++ segments separator ds := by
  induction cs with
  | nil => simp [segments]
  | cons c cs ih =>
    rw [List.cons_append, segments, segments, ih]
    split
    · rfl
    · obtain ⟨part, parts, hparts⟩ := List.exists_cons_of_ne_nil (segments_ne_nil separator cs)
      rw [hparts]
      rfl

/-- The first part ends at the first separator. -/
theorem segments_append {part : List Char} (h : separator ∉ part) (rest : List Char) :
    segments separator (part ++ separator :: rest) = part :: segments separator rest := by
  rw [segments_append_cons, segments_of_not_mem h, List.singleton_append]

end Loyalty
