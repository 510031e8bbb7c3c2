import Loyalty.Proofs.Report

/-!
# Results of actions and what they preserve

The result of an action is what it comes to and the state that it leaves, its
notices put aside. A property of the state is preserved by an action if it holds
after it whenever it held before, whatever the action comes to: actions that only
read, and actions on another part of the state, preserve everything, and a
sequence preserves what its parts do.
-/

namespace Loyalty

/-- The second step gets the value of the first. -/
theorem ok_bind {ε α β : Type} (a : α) (next : α → Except ε β) :
    (Except.ok a >>= next) = next a := rfl

/-- There is a value unless there is a fault. -/
theorem exists_ok_iff {ε α : Type} {r : Except ε α} :
    (∃ a, r = .ok a) ↔ ¬ ∃ e, r = .error e := by
  cases r with
  | ok a => simp
  | error e => simp

/-- What comes to a value is that value. -/
theorem eq_ok_of_toOption {ε α : Type} {r : Except ε α} {a : α} (h : r.toOption = some a) :
    r = .ok a := by
  cases r with
  | ok b => rw [Option.some.inj h]
  | error e => cases h

/-- A value comes of two steps through a value of the first. -/
theorem bind_eq_ok {ε α β : Type} {r : Except ε α} {next : α → Except ε β} {b : β} :
    (r >>= next) = .ok b ↔ ∃ a, r = .ok a ∧ next a = .ok b := by
  constructor
  · intro h
    cases r with
    | ok a => exact ⟨a, rfl, h⟩
    | error e => cases h
  · rintro ⟨a, hr, hnext⟩
    rw [hr]
    exact hnext

/-- Two steps fail with the first or with the second. -/
theorem bind_eq_error {ε α β : Type} {r : Except ε α} {next : α → Except ε β} {e : ε} :
    (r >>= next) = .error e ↔ r = .error e ∨ ∃ a, r = .ok a ∧ next a = .error e := by
  cases r with
  | ok a => simp [ok_bind]
  | error e' => simp [bind, Except.bind]

/-- What is read off a value is there if the value is. -/
theorem map_eq_ok {ε α β : Type} {r : Except ε α} {g : α → β} {b : β} :
    r.map g = .ok b ↔ ∃ a, r = .ok a ∧ g a = b := by
  cases r with
  | error e => simp [Except.map]
  | ok a => simp [Except.map]

/-- Reading off a value fails if there is none. -/
theorem map_eq_error {ε α β : Type} {r : Except ε α} {g : α → β} {e : ε} :
    r.map g = .error e ↔ r = .error e := by
  cases r with
  | error e' => simp [Except.map]
  | ok a => simp [Except.map]

/-- Two steps come to no value if the first does not, or if the second does not
whatever the first comes to. -/
theorem exists_error_bind {ε α β : Type} {P : Prop} {r : Except ε α} {next : α → Except ε β}
    (h : ∀ a, (∃ e, next a = .error e) ↔ P) :
    (∃ e, r >>= next = .error e) ↔ (∃ e, r = .error e) ∨ P := by
  cases r with
  | error e => simp [bind, Except.bind]
  | ok a => simp [bind, Except.bind, h a]

/-- What is read off a value comes to nothing if the value does not. -/
theorem exists_error_map {ε α β : Type} {r : Except ε α} {g : α → β} :
    (∃ e, r.map g = .error e) ↔ ∃ e, r = .error e := by
  cases r with
  | error e => simp [Except.map]
  | ok a => simp [Except.map]

/-- A mere value is no fault. -/
theorem not_exists_error_pure {ε α : Type} (a : α) :
    (∃ e, (pure a : Except ε α) = .error e) ↔ False := by
  simp [pure, Except.pure]

namespace Action

variable {σ τ α β : Type} {P : σ → Prop}

/-- What an action comes to and the state that it leaves. -/
def result (action : Action σ α) (s : σ) : Except Fault α × σ :=
  ((action s).1.outcome, (action s).2)

/-- An action with a value in its result comes to it, whatever it tells. -/
theorem exists_apply_eq_of_result {action : Action σ α} {s s' : σ} {a : α}
    (h : action.result s = (.ok a, s')) : ∃ notices, action s = (⟨notices, .ok a⟩, s') := by
  match hrun : action s with
  | (⟨notices, outcome⟩, t) =>
    simp only [result, hrun] at h
    cases h
    exact ⟨notices, rfl⟩

/-- What follows a value runs on the state that it left. -/
theorem result_bind_of_ok {action : Action σ α} {s s' : σ} {a : α}
    (h : action.result s = (.ok a, s')) (next : α → Action σ β) :
    (action >>= next).result s = (next a).result s' := by
  match hrun : action s with
  | (⟨notices, .ok a'⟩, s'') =>
    simp only [result, hrun] at h
    cases h
    rw [result, bind_of_ok hrun]
    rfl
  | (⟨notices, .error f⟩, s'') =>
    simp only [result, hrun] at h
    cases h

/-- Nothing follows a fault. -/
theorem result_bind_of_error {action : Action σ α} {s s' : σ} {f : Fault}
    (h : action.result s = (.error f, s')) (next : α → Action σ β) :
    (action >>= next).result s = (.error f, s') := by
  match hrun : action s with
  | (⟨notices, .ok a'⟩, s'') =>
    simp only [result, hrun] at h
    cases h
  | (⟨notices, .error f'⟩, s'') =>
    simp only [result, hrun] at h
    cases h
    rw [result, bind_of_error hrun]

/-- An action comes to a value through a value of its first part. -/
theorem result_bind_eq_ok {action : Action σ α} {next : α → Action σ β} {s s'' : σ} {b : β} :
    (action >>= next).result s = (.ok b, s'') ↔
      ∃ a s', action.result s = (.ok a, s') ∧ (next a).result s' = (.ok b, s'') := by
  match hrun : action.result s with
  | (.ok a, s') =>
    rw [result_bind_of_ok hrun]
    constructor
    · intro h
      exact ⟨a, s', rfl, h⟩
    · rintro ⟨_, _, h, hnext⟩
      cases h
      exact hnext
  | (.error f, s') =>
    rw [result_bind_of_error hrun]
    constructor
    · intro h
      cases h
    · rintro ⟨_, _, h, -⟩
      cases h

/-- An action comes to a value through a value of its first part, and tells what both parts
tell. -/
theorem bind_apply_eq_ok {action : Action σ α} {next : α → Action σ β} {s s'' : σ}
    {notices : List Notice} {b : β} :
    (action >>= next) s = (⟨notices, .ok b⟩, s'') ↔
      ∃ first a s' more, action s = (⟨first, .ok a⟩, s') ∧ next a s' = (⟨more, .ok b⟩, s'') ∧
        notices = first ++ more := by
  match hrun : action s with
  | (⟨first, .ok a⟩, s') =>
    match hnext : next a s' with
    | (⟨more, outcome⟩, t) =>
      rw [bind_of_ok hrun, hnext]
      constructor
      · intro h
        cases h
        exact ⟨first, a, s', more, rfl, hnext, rfl⟩
      · rintro ⟨_, _, _, _, h, h', rfl⟩
        cases h
        rw [hnext] at h'
        cases h'
        rfl
  | (⟨first, .error f⟩, s') =>
    rw [bind_of_error hrun]
    constructor
    · intro h
      cases h
    · rintro ⟨_, _, _, _, h, -⟩
      cases h

/-- What is told comes of a value behind an outcome that is given. -/
theorem ofExcept_bind_apply_eq_ok {r : Except Fault α} {next : α → Action σ β} {s s' : σ}
    {notices : List Notice} {b : β} :
    (ofExcept r >>= next) s = (⟨notices, .ok b⟩, s') ↔
      ∃ a, r = .ok a ∧ next a s = (⟨notices, .ok b⟩, s') := by
  cases r with
  | ok a =>
    have hbind : (ofExcept (.ok a) >>= next) s = next a s := bind_of_ok rfl next
    simp [hbind]
  | error f =>
    have hbind : (ofExcept (.error f) >>= next) s = (⟨[], .error f⟩, s) := bind_of_error rfl next
    simp [hbind]

/-- What follows a notice is told after it. -/
theorem note_bind_apply (n : Notice) (next : Unit → Action σ β) (s : σ) :
    (note n >>= next) s =
      (⟨n :: (next () s).1.notices, (next () s).1.outcome⟩, (next () s).2) :=
  bind_of_ok rfl next

/-- A notice is told first. -/
theorem note_bind_apply_eq_ok {n : Notice} {next : Unit → Action σ β} {s s' : σ}
    {notices : List Notice} {b : β} :
    (note n >>= next) s = (⟨notices, .ok b⟩, s') ↔
      ∃ more, next () s = (⟨more, .ok b⟩, s') ∧ notices = n :: more := by
  rw [bind_apply_eq_ok]
  constructor
  · rintro ⟨_, _, _, more, hnote, hnext, rfl⟩
    cases hnote
    exact ⟨more, hnext, rfl⟩
  · rintro ⟨more, hnext, rfl⟩
    exact ⟨[n], (), s, more, rfl, hnext, rfl⟩

@[simp] theorem result_pure (a : α) (s : σ) : (pure a : Action σ α).result s = (.ok a, s) := rfl

@[simp] theorem result_lift (r : Report α) (s : σ) :
    (lift r : Action σ α).result s = (r.outcome, s) := rfl

@[simp] theorem result_ofExcept (r : Except Fault α) (s : σ) :
    (ofExcept r : Action σ α).result s = (r, s) := rfl

@[simp] theorem result_fail (f : Fault) (s : σ) :
    (fail f : Action σ α).result s = (.error f, s) := rfl

/-- A look at the state gives it to what follows. -/
@[simp] theorem result_get_bind (next : σ → Action σ β) (s : σ) :
    (get >>= next).result s = (next s).result s := result_bind_of_ok rfl next

/-- A change is seen by what follows. -/
@[simp] theorem result_modify_bind (f : σ → σ) (next : Unit → Action σ β) (s : σ) :
    (modify f >>= next).result s = (next ()).result (f s) := result_bind_of_ok rfl next

/-- A notice is not seen by what follows. -/
@[simp] theorem result_note_bind (n : Notice) (next : Unit → Action σ β) (s : σ) :
    (note n >>= next).result s = (next ()).result s := result_bind_of_ok rfl next

/-- What comes of a value. -/
@[simp] theorem result_ofExcept_ok_bind (a : α) (next : α → Action σ β) (s : σ) :
    (ofExcept (.ok a) >>= next).result s = (next a).result s := result_bind_of_ok rfl next

/-- What comes of a fault. -/
@[simp] theorem result_ofExcept_error_bind (f : Fault) (next : α → Action σ β) (s : σ) :
    (ofExcept (.error f) >>= next).result s = (.error f, s) := result_bind_of_error rfl next

/-- What follows an outcome that is given is not done, or runs on the same state. -/
theorem result_ofExcept_bind_cases (r : Except Fault α) (next : α → Action σ β) (s : σ) :
    (∃ f, r = .error f ∧ (ofExcept r >>= next).result s = (.error f, s)) ∨
      ∃ a, r = .ok a ∧ (ofExcept r >>= next).result s = (next a).result s := by
  cases r with
  | ok a => exact .inr ⟨a, rfl, result_ofExcept_ok_bind a next s⟩
  | error f => exact .inl ⟨f, rfl, result_ofExcept_error_bind f next s⟩

/-- Outcomes that are given one after the other are given together. -/
theorem ofExcept_bind_bind {γ : Type} (r : Except Fault α) (f : α → Except Fault β)
    (next : β → Action σ γ) :
    (ofExcept (r >>= f) >>= next) = (ofExcept r >>= fun a => ofExcept (f a) >>= next) := by
  cases r with
  | ok a => rfl
  | error _ => rfl

/-- The result on a part of the state, put back. -/
theorem result_on (part : σ → τ) (put : τ → σ → σ) (action : Action τ α) (s : σ) :
    (on part put action).result s =
      ((action.result (part s)).1, put (action.result (part s)).2 s) := rfl

/-- An action looked at leaves its notices and its state, and comes to a value. -/
theorem attempt_apply (action : Action σ α) (s : σ) :
    action.attempt s = (⟨(action s).1.notices, .ok (action s).1.outcome⟩, (action s).2) := rfl

/-- A fault looked at is a value. -/
theorem result_attempt (action : Action σ α) (s : σ) :
    action.attempt.result s = (.ok (action.result s).1, (action.result s).2) := rfl

/-- A property of the state that holds after an action if it held before. -/
def Preserves (P : σ → Prop) (action : Action σ α) : Prop := ∀ s, P s → P (action s).2

/-- A report does not touch the state. -/
theorem preserves_lift (r : Report α) : Preserves P (lift r) := fun _ h => h

/-- A value leaves the state alone. -/
theorem preserves_pure (a : α) : Preserves P (pure a : Action σ α) := fun _ h => h

/-- A look at the state leaves it alone. -/
theorem preserves_get : Preserves P (get : Action σ σ) := fun _ h => h

/-- What two actions preserve, one after the other preserves. -/
theorem Preserves.bind {action : Action σ α} {next : α → Action σ β} (haction : Preserves P action)
    (hnext : ∀ a, Preserves P (next a)) : Preserves P (action >>= next) := by
  intro s hs
  have hfirst := haction s hs
  match hrun : action s with
  | (⟨notices, .ok a⟩, s') =>
    rw [hrun] at hfirst
    rw [bind_of_ok hrun]
    exact hnext a s' hfirst
  | (⟨notices, .error f⟩, s') =>
    rw [hrun] at hfirst
    rw [bind_of_error hrun]
    exact hfirst

/-- What follows an action leaves the state that the action left. -/
theorem snd_result_bind {action : Action σ α} {next : α → Action σ β} {s : σ}
    (hnext : ∀ a, Preserves (· = (action.result s).2) (next a)) :
    ((action >>= next).result s).2 = (action.result s).2 := by
  match hrun : action.result s with
  | (.ok a, s') =>
    rw [hrun] at hnext
    rw [result_bind_of_ok hrun]
    exact hnext a s' rfl
  | (.error f, s') => rw [result_bind_of_error hrun]

/-- Two actions fail on a state that the first one leaves alone if the second one does. -/
theorem exists_result_bind {action : Action σ α} {next : α → Action σ β} {s : σ}
    (haction : (action.result s).2 = s) (hnext : ∀ a, ∃ f, (next a).result s = (.error f, s)) :
    ∃ f, (action >>= next).result s = (.error f, s) := by
  match hrun : action.result s with
  | (.ok a, s') =>
    rw [hrun] at haction
    obtain rfl : s' = s := haction
    rw [result_bind_of_ok hrun]
    exact hnext a
  | (.error f, s') =>
    rw [hrun] at haction
    obtain rfl : s' = s := haction
    exact ⟨f, result_bind_of_error hrun next⟩

/-- An action that gives no notices, whatever state it runs on. -/
def Silent (action : Action σ α) : Prop := ∀ s, (action s).1.Silent

/-- A silent report is a silent action. -/
theorem silent_lift {r : Report α} (h : r.Silent) : Silent (lift r : Action σ α) := fun _ => h

/-- A value is silent. -/
theorem silent_pure (a : α) : Silent (pure a : Action σ α) := fun _ => rfl

/-- A value or a fault is silent. -/
theorem silent_ofExcept (r : Except Fault α) : Silent (ofExcept r : Action σ α) := fun _ => rfl

/-- Two actions are silent together on a state if the first one is, and what follows
from any value on any state. -/
theorem silent_bind {action : Action σ α} {next : α → Action σ β} {s : σ}
    (haction : (action s).1.Silent) (hnext : ∀ a, Silent (next a)) :
    ((action >>= next) s).1.Silent := by
  match hrun : action s with
  | (⟨notices, .ok a⟩, s') =>
    rw [hrun] at haction
    have hnotices : notices = [] := haction
    rw [bind_of_ok hrun, hnotices]
    exact hnext a s'
  | (⟨notices, .error f⟩, s') =>
    rw [hrun] at haction
    rw [bind_of_error hrun]
    exact haction

/-- Two actions are silent together if the first one is, and what follows from any
value. -/
theorem Silent.bind {action : Action σ α} {next : α → Action σ β} (haction : Silent action)
    (hnext : ∀ a, Silent (next a)) : Silent (action >>= next) :=
  fun s => silent_bind (haction s) hnext

/-- A look at the state gives no notices of its own. -/
theorem silent_get_bind {next : σ → Action σ β} {s : σ} (h : Silent (next s)) :
    ((get >>= next) s).1.Silent := by
  have hget : (get : Action σ σ) s = (⟨[], .ok s⟩, s) := rfl
  rw [bind_of_ok hget]
  exact h s

/-- An action on a part preserves what putting that part back does. -/
theorem preserves_on {part : σ → τ} {put : τ → σ → σ} {action : Action τ α}
    (h : ∀ s, P s → P (put (action (part s)).2 s)) : Preserves P (on part put action) := h

end Action

end Loyalty
