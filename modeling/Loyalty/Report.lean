import Loyalty.Notice

/-!
# Reports and actions

A report is what an operation comes to, a value or a fault, together with the
notices it gave on the way; those given before a fault are kept. An action also
reads and changes a state, and what it changed before a fault stays changed.
-/

namespace Loyalty

/-- The notices of an operation and what it came to. -/
structure Report (α : Type) where
  notices : List Notice
  outcome : Except Fault α

/-- What comes to a value has one. -/
theorem exists_ok_of_isOk {ε α : Type} {r : Except ε α} (h : r.isOk = true) :
    ∃ a, r = .ok a := by
  cases r with
  | ok a => exact ⟨a, rfl⟩
  | error e => cases h

namespace Report

/-- A value without notices. -/
def of {α : Type} (a : α) : Report α := ⟨[], .ok a⟩

/-- A fault without notices. -/
def fail {α : Type} (f : Fault) : Report α := ⟨[], .error f⟩

/-- One notice. -/
def note (n : Notice) : Report Unit := ⟨[n], .ok ()⟩

/-- A value or a fault without notices. -/
def ofExcept {α : Type} (r : Except Fault α) : Report α := ⟨[], r⟩

/-- The first report and, unless it ends in a fault, the one that follows from
its value. -/
def andThen {α β : Type} (r : Report α) (next : α → Report β) : Report β :=
  match r.outcome with
  | .ok a => ⟨r.notices ++ (next a).notices, (next a).outcome⟩
  | .error f => ⟨r.notices, .error f⟩

instance : Monad Report where
  pure := of
  bind := andThen

@[simp] theorem pure_eq {α : Type} (a : α) : (pure a : Report α) = ⟨[], .ok a⟩ := rfl

@[simp] theorem bind_ok {α β : Type} (notices : List Notice) (a : α) (next : α → Report β) :
    (⟨notices, .ok a⟩ : Report α) >>= next =
      ⟨notices ++ (next a).notices, (next a).outcome⟩ := rfl

@[simp] theorem bind_error {α β : Type} (notices : List Notice) (f : Fault)
    (next : α → Report β) :
    (⟨notices, .error f⟩ : Report α) >>= next = ⟨notices, .error f⟩ := rfl

/-- A report comes to a value through a value of its first part. -/
theorem outcome_bind_eq_ok {α β : Type} {r : Report α} {next : α → Report β} {b : β} :
    (r >>= next).outcome = .ok b ↔ ∃ a, r.outcome = .ok a ∧ (next a).outcome = .ok b := by
  obtain ⟨notices, outcome⟩ := r
  cases outcome with
  | ok a => simp
  | error f => simp

@[simp] theorem outcome_ofExcept {α : Type} (r : Except Fault α) : (ofExcept r).outcome = r := rfl

end Report

/-- An operation on a state. -/
def Action (σ α : Type) := σ → Report α × σ

namespace Action

/-- A report that does not touch the state. -/
def lift {σ α : Type} (r : Report α) : Action σ α := fun s => (r, s)

/-- The first action and, unless it ends in a fault, the one that follows from
its value. -/
def andThen {σ α β : Type} (action : Action σ α) (next : α → Action σ β) : Action σ β := fun s =>
  match action s with
  | (⟨notices, .ok a⟩, s') =>
    match next a s' with
    | (⟨more, outcome⟩, s'') => (⟨notices ++ more, outcome⟩, s'')
  | (⟨notices, .error f⟩, s') => (⟨notices, .error f⟩, s')

instance {σ : Type} : Monad (Action σ) where
  pure a := fun s => (.of a, s)
  bind := andThen

/-- A value leaves the state alone. -/
@[simp] theorem pure_apply {σ α : Type} (a : α) (s : σ) :
    (pure a : Action σ α) s = (.of a, s) := rfl

/-- What follows a value runs on the state that it left, after its notices. -/
theorem bind_of_ok {σ α β : Type} {action : Action σ α} {s s' : σ} {notices : List Notice}
    {a : α} (h : action s = (⟨notices, .ok a⟩, s')) (next : α → Action σ β) :
    (action >>= next) s =
      (⟨notices ++ (next a s').1.notices, (next a s').1.outcome⟩, (next a s').2) := by
  change andThen action next s = _
  simp only [andThen, h]

/-- Nothing follows a fault. -/
theorem bind_of_error {σ α β : Type} {action : Action σ α} {s s' : σ} {notices : List Notice}
    {f : Fault} (h : action s = (⟨notices, .error f⟩, s')) (next : α → Action σ β) :
    (action >>= next) s = (⟨notices, .error f⟩, s') := by
  change andThen action next s = _
  simp only [andThen, h]

/-- The state. -/
def get {σ : Type} : Action σ σ := fun s => (.of s, s)

/-- A change of the state. -/
def modify {σ : Type} (f : σ → σ) : Action σ Unit := fun s => (.of (), f s)

/-- One notice. -/
def note {σ : Type} (n : Notice) : Action σ Unit := lift (.note n)

/-- A fault. -/
def fail {σ α : Type} (f : Fault) : Action σ α := lift (.fail f)

/-- A value or a fault without notices. -/
def ofExcept {σ α : Type} (r : Except Fault α) : Action σ α := lift (.ofExcept r)

/-- An action on a part of the state. -/
def on {σ τ α : Type} (part : σ → τ) (put : τ → σ → σ) (action : Action τ α) : Action σ α :=
  fun s =>
    match action (part s) with
    | (r, t) => (r, put t s)

/-- The outcome of an action as a value, so that what follows can act on a
fault; the notices and the state are kept. -/
def attempt {σ α : Type} (action : Action σ α) : Action σ (Except Fault α) := fun s =>
  match action s with
  | (⟨notices, outcome⟩, s') => (⟨notices, .ok outcome⟩, s')

end Action

end Loyalty
