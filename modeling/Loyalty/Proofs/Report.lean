import Loyalty.Report

/-!
# What a report shows besides its value

A report can show notices, and a fault in place of its value. In both it is the
same with two reports one after the other: they show what the first one shows
and, where that came to a value, what follows from the value.
-/

namespace Loyalty

namespace Report

/-- Something that a report shows besides its value. -/
inductive Sign where
  | notice (n : Notice)
  | fault (f : Fault)

variable {α β : Type}

/-- Whether a report shows something besides its value. -/
def Shows (r : Report α) : Sign → Prop
  | .notice n => n ∈ r.notices
  | .fault f => r.outcome = .error f

/-- A mere value shows nothing. -/
@[simp] theorem not_shows_pure (a : α) (sign : Sign) : ¬ (pure a : Report α).Shows sign := by
  cases sign <;> simp [Shows]

/-- Two reports show what the first one does, and behind a value the second. -/
theorem shows_bind {r : Report α} {next : α → Report β} {sign : Sign} :
    (r >>= next).Shows sign ↔
      r.Shows sign ∨ ∃ a, r.outcome = .ok a ∧ (next a).Shows sign := by
  obtain ⟨notices, outcome⟩ := r
  cases outcome with
  | ok a => cases sign <;> simp [Shows]
  | error f => cases sign <;> simp [Shows]

/-- A report fails with its first part, or behind a value of that with the second. -/
theorem outcome_bind_eq_error {r : Report α} {next : α → Report β} {f : Fault} :
    (r >>= next).outcome = .error f ↔
      r.outcome = .error f ∨ ∃ a, r.outcome = .ok a ∧ (next a).outcome = .error f :=
  @shows_bind _ _ r next (.fault f)

/-- A report comes to a value unless it shows a fault. -/
theorem exists_outcome_iff {r : Report α} :
    (∃ a, r.outcome = .ok a) ↔ ∀ f, ¬ r.Shows (.fault f) := by
  obtain ⟨notices, outcome⟩ := r
  cases outcome with
  | ok a => simp [Shows]
  | error f => simp [Shows]

/-- A report without notices shows none. -/
theorem notices_eq_nil_iff {r : Report α} : r.notices = [] ↔ ∀ n, ¬ r.Shows (.notice n) :=
  List.eq_nil_iff_forall_not_mem

/-- A report without notices. -/
def Silent (r : Report α) : Prop := r.notices = []

/-- A value or a fault is silent. -/
theorem silent_ofExcept (r : Except Fault α) : (ofExcept r).Silent := rfl

/-- Two reports are silent together if the first one is, and what follows from its
value. -/
theorem Silent.bind {r : Report α} {next : α → Report β} (hr : r.Silent)
    (hnext : ∀ a, r.outcome = .ok a → (next a).Silent) : (r >>= next).Silent := by
  obtain ⟨notices, outcome⟩ := r
  cases outcome with
  | error f => exact hr
  | ok a =>
    have hnotices : notices = [] := hr
    rw [bind_ok, hnotices]
    exact hnext a rfl

end Report

end Loyalty
