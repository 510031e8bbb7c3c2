import Loyalty.Proofs.Service.Requests

/-!
# Requests step by step

Requests are served beside each other, and what they share changes between their
steps. A step is one access to the cache, to the store or to the engine; where a
request stands, and what it has read by then, is its phase. The steps of a request
that is left alone are the request. A race is two requests that take turns.
-/

namespace Loyalty.Service

open Loyalty.Action

/-- A request under way: where it stands, or what it came to. -/
inductive Progress (π α : Type) where
  | at (phase : π)
  | ended (outcome : Except Fault α)

section Steps

variable {π α : Type}

/-- The next step of a request, if it has one. A fault ends the request. -/
def Progress.advance (step : π → Action Service (Progress π α)) :
    Progress π α × Service → Progress π α × Service
  | (.at phase, s) =>
    match (step phase).result s with
    | (.ok progress, s') => (progress, s')
    | (.error f, s') => (.ended (.error f), s')
  | (.ended outcome, s) => (.ended outcome, s)

variable {step : π → Action Service (Progress π α)} {phase : π} {s s' : Service}

/-- A step that goes through. -/
theorem advance_of_ok {progress : Progress π α} (h : (step phase).result s = (.ok progress, s')) :
    Progress.advance step (.at phase, s) = (progress, s') := by
  simp only [Progress.advance, h]

/-- A step that ends in a fault. -/
theorem advance_of_error {f : Fault} (h : (step phase).result s = (.error f, s')) :
    Progress.advance step (.at phase, s) = (.ended (.error f), s') := by
  simp only [Progress.advance, h]

end Steps

/-- Where a request for the rules stands. -/
inductive GetPhase where
  /-- It is about to look into the cache. -/
  | look
  /-- It found nothing there, and is about to read the stored document. -/
  | fetch
  /-- It has read a document, and is about to put it into the cache. -/
  | keep (document : Value)

/-- The steps of a request for the rules. -/
def GetPhase.step : GetPhase → Action Service (Progress GetPhase Response)
  | .look => do
    match ← cachedDocument with
    | some document => return .ended (.ok (documentFrom "cache" document))
    | none => return .at .fetch
  | .fetch => do
    match (← Action.get).store.document? (some ruleSet) with
    | none => return .ended (Response.because 404 ("Rule set '" ++ ruleSet ++ "' not found"))
    | some document => return .at (.keep document)
  | .keep document => do
    onCache (Cache.keep (← Action.get).now ruleSet document)
    return .ended (.ok (documentFrom "db" document))

/-- Where an update that passed the check of its rules stands. -/
inductive UpdatePhase where
  /-- It is about to save the rules. -/
  | save
  /-- It has saved them, and is about to drop the cached document. -/
  | drop
  /-- It is about to give them to the engine. -/
  | load
  /-- It is about to read the stored document for its answer. -/
  | answer
  deriving DecidableEq

/-- The steps of an update with some rules. -/
def UpdatePhase.step (rules : List Value) (nan : Identity) :
    UpdatePhase → Action Service (Progress UpdatePhase Response)
  | .save => do
    let s ← Action.get
    let _ ← onStore (Store.save s.now (postedRequest rules nan))
    return .at .drop
  | .drop => do
    onCache (Cache.invalidate ruleSet)
    return .at .load
  | .load => do
    match (← Action.get).engine with
    | none => return .at .answer
    | some engine =>
      let _ ← loadRules (.list rules) nan engine
      return .at .answer
  | .answer => do
    return .ended (.ok (accepted rules (← Action.get).store))

/-- Where a reload stands. -/
inductive ReloadPhase where
  /-- It is about to read the stored row. -/
  | read
  /-- It has read a row, and is about to bring the engine to its rules. -/
  | compare (row : Row)

/-- The steps of a reload. -/
def ReloadPhase.step (name : RuleSetName) :
    ReloadPhase → Action Service (Progress ReloadPhase Bool)
  | .read => do
    match (← Action.get).store.find? name with
    | none =>
      Action.note (.nothingStored name)
      return .ended (.ok false)
    | some row => return .at (.compare row)
  | .compare row => do
    let changed ← guarded name (do reloadFrom row name (← Action.get).engine)
    return .ended (.ok changed)

section Alone

variable {s : Service}

/-- A look into the cache leaves everything as it is. -/
theorem exists_result_cachedDocument (s : Service) :
    ∃ found, cachedDocument.result s = (found, s) := by
  have hstate : (cachedDocument.result s).2 = s := preserves_cachedDocument (P := (· = s)) s rfl
  exact ⟨_, Prod.ext rfl hstate⟩

/-- A look into the cache sends the request to the store or ends it. -/
theorem advance_look (s : Service) :
    Progress.advance GetPhase.step (.at .look, s) =
      (match (cachedDocument.result s).1 with
        | .ok (some document) => .ended (.ok (documentFrom "cache" document))
        | .ok none => .at .fetch
        | .error f => .ended (.error f), s) := by
  obtain ⟨found, hcached⟩ := exists_result_cachedDocument s
  rw [hcached]
  cases found with
  | error f => exact advance_of_error (result_bind_of_error hcached _)
  | ok found =>
    have hlook := result_bind_of_ok hcached fun found => match found with
      | some document => (pure (.ended (.ok (documentFrom "cache" document))) :
          Action Service (Progress GetPhase Response))
      | none => pure (.at .fetch)
    cases found with
    | none => exact advance_of_ok hlook
    | some document => exact advance_of_ok hlook

/-- The stored document is read, if there is one. -/
theorem advance_fetch (s : Service) :
    Progress.advance GetPhase.step (.at .fetch, s) =
      (match s.store.document? (some ruleSet) with
        | none =>
          .ended (Response.because 404 ("Rule set '" ++ ruleSet ++ "' not found"))
        | some document => .at (.keep document), s) := by
  refine advance_of_ok ?_
  rw [GetPhase.step, result_get_bind]
  split
  · rfl
  · rfl

/-- A document whose text can be written is put into the cache, and shown. -/
theorem advance_keep {document : Value} {text : List Char}
    (htext : Json.written document = .ok text) (s : Service) :
    Progress.advance GetPhase.step (.at (.keep document), s) =
      (.ended (.ok (documentFrom "db" document)),
        { s with cache := s.cache.put (Cache.documentEntry s.now ruleSet text) }) := by
  refine advance_of_ok ?_
  rw [GetPhase.step, result_get_bind]
  exact result_bind_of_ok (result_keep htext s.now s) _

/-- The steps of a request for the rules are the request. -/
theorem getRules_in_steps (s : Service) :
    (Progress.advance GetPhase.step)^[3] (.at .look, s) =
      (.ended (getRules.result s).1, (getRules.result s).2) := by
  change Progress.advance _ (Progress.advance _ (Progress.advance _ _)) = _
  obtain ⟨found, hcached⟩ := exists_result_cachedDocument s
  rw [advance_look, hcached]
  cases found with
  | error f =>
    have hrules : getRules.result s = (.error f, s) := result_bind_of_error hcached _
    rw [hrules]
    rfl
  | ok found =>
    rw [getRules, result_bind_of_ok hcached]
    cases found with
    | some document => rfl
    | none =>
      simp only [advance_fetch, result_get_bind]
      cases s.store.document? (some ruleSet) with
      | none => rfl
      | some document =>
        simp only
        cases hkept : (onCache (Cache.keep s.now ruleSet document)).result s with
        | mk kept s' =>
          cases kept with
          | ok kept =>
            rw [result_bind_of_ok hkept]
            refine advance_of_ok ?_
            rw [GetPhase.step, result_get_bind]
            exact result_bind_of_ok hkept _
          | error f =>
            rw [result_bind_of_error hkept]
            refine advance_of_error ?_
            rw [GetPhase.step, result_get_bind]
            exact result_bind_of_error hkept _

variable {rules : List Value} {nan : Identity}

/-- Rules that the store takes are saved. -/
theorem advance_save {row : Row} {store : Store}
    (h : (Store.save s.now (postedRequest rules nan)).result s.store = (.ok row, store)) :
    Progress.advance (UpdatePhase.step rules nan) (.at .save, s) =
      (.at .drop, { s with store := store }) := by
  refine advance_of_ok ?_
  rw [UpdatePhase.step, result_get_bind]
  exact result_bind_of_ok (result_onStore h) _

/-- The cached document is dropped. -/
theorem advance_drop (s : Service) :
    Progress.advance (UpdatePhase.step rules nan) (.at .drop, s) =
      (.at .load, { s with cache := s.cache.erase (Cache.documentKey ruleSet) }) := rfl

/-- The engine gets the rules if they are valid and there is one. -/
theorem advance_load (hvalid : AllValid rules) (s : Service) :
    Progress.advance (UpdatePhase.step rules nan) (.at .load, s) =
      (.at .answer,
        { s with engine := s.engine.map fun engine => { engine with rules, nan } }) := by
  refine advance_of_ok ?_
  obtain ⟨engine, store, cache, scheduler, now⟩ := s
  rw [UpdatePhase.step, result_get_bind]
  cases engine with
  | none => rfl
  | some engine =>
    obtain ⟨complaints, -, hload⟩ :=
      result_loadRules (Engine.tellable_of_allValid hvalid) nan engine
        ⟨some engine, store, cache, scheduler, now⟩
    simp only
    rw [result_bind_of_ok hload]
    rfl

/-- The answer tells the document that is stored then. -/
theorem advance_answer (s : Service) :
    Progress.advance (UpdatePhase.step rules nan) (.at .answer, s) =
      (.ended (.ok (accepted rules s.store)), s) := rfl

/-- The steps of an update with valid rules are the update. -/
theorem updateRules_in_steps {payload : Fields} (hvalid : PostedRules.of payload = .valid rules)
    (s : Service) :
    (Progress.advance (UpdatePhase.step rules nan))^[4] (.at .save, s) =
      (.ended ((updateRules payload nan).result s).1, ((updateRules payload nan).result s).2) := by
  change Progress.advance _ (Progress.advance _ (Progress.advance _ (Progress.advance _ _))) = _
  have hupdate : updateRules payload nan = acceptRules rules nan := by
    rw [updateRules, hvalid]
  rw [hupdate]
  cases hsave : (Store.save s.now (postedRequest rules nan)).result s.store with
  | mk outcome store =>
    cases outcome with
    | ok row =>
      have hallValid := PostedRules.allValid_of_eq hvalid
      rw [acceptRules_of_saved hallValid hsave, advance_save hsave, advance_drop,
        advance_load hallValid, advance_answer]
      rfl
    | error f =>
      have hstep : (UpdatePhase.step rules nan .save).result s =
          (.error f, { s with store := store }) := by
        rw [UpdatePhase.step, result_get_bind]
        exact result_bind_of_error (result_onStore hsave) _
      rw [acceptRules_of_refused hsave, advance_of_error hstep]
      rfl

variable {name : RuleSetName}

/-- The stored row is read, if there is one. -/
theorem advance_read (s : Service) :
    Progress.advance (ReloadPhase.step name) (.at .read, s) =
      (match s.store.find? name with
        | none => .ended (.ok false)
        | some row => .at (.compare row), s) := by
  refine advance_of_ok ?_
  rw [ReloadPhase.step, result_get_bind]
  split
  · rw [result_note_bind]
    rfl
  · rfl

/-- The engine is brought to the rules that were read. -/
theorem advance_compare (row : Row) (s : Service) :
    ∃ changed, Progress.advance (ReloadPhase.step name) (.at (.compare row), s) =
      (.ended (.ok changed), ((reloadFrom row name s.engine).result s).2) := by
  have hguarded := result_guarded name (do reloadFrom row name (← Action.get).engine) s
  rw [result_get_bind] at hguarded
  exact ⟨_, advance_of_ok (result_bind_of_ok hguarded _)⟩

/-- The steps of a reload are the reload. -/
theorem reload_in_steps (s : Service) :
    (Progress.advance (ReloadPhase.step name))^[2] (.at .read, s) =
      (.ended ((reload name none).result s).1, ((reload name none).result s).2) := by
  change Progress.advance _ (Progress.advance _ _) = _
  rw [advance_read, reload]
  cases hrow : s.store.find? name with
  | none =>
    have hstored : (reloadStored name).result s = (.ok false, s) := by
      rw [reloadStored, result_get_bind, hrow]
      rfl
    rw [result_guarded, hstored]
    rfl
  | some row =>
    have hstored : (reloadStored name).result s =
        (do reloadFrom row name (← Action.get).engine : Action Service Bool).result s := by
      rw [reloadStored, result_get_bind, result_get_bind, hrow]
    rw [result_guarded, hstored]
    exact advance_of_ok (result_bind_of_ok (result_guarded _ _ s) _)

end Alone

/-- Two requests under way, and the service that they share. -/
structure Race (π α ρ β : Type) where
  one : Progress π α
  other : Progress ρ β
  service : Service

/-- Whose step is next. -/
inductive Turn where
  | one
  | other
  deriving DecidableEq

namespace Race

variable {π α ρ β : Type} (step : π → Action Service (Progress π α))
  (step' : ρ → Action Service (Progress ρ β))

/-- The race after one more step. -/
def turn (r : Race π α ρ β) : Turn → Race π α ρ β
  | .one =>
    { r with
      one := (Progress.advance step (r.one, r.service)).1
      service := (Progress.advance step (r.one, r.service)).2 }
  | .other =>
    { r with
      other := (Progress.advance step' (r.other, r.service)).1
      service := (Progress.advance step' (r.other, r.service)).2 }

/-- The race after some steps. -/
def run (r : Race π α ρ β) (turns : List Turn) : Race π α ρ β := turns.foldl (turn step step') r

/-- Both requests have ended. -/
def IsOver (r : Race π α ρ β) : Prop :=
  (∃ outcome, r.one = .ended outcome) ∧ ∃ outcome, r.other = .ended outcome

variable {step step'}

/-- What every step keeps, the whole race keeps. -/
theorem run_induction {P : Race π α ρ β → Prop}
    (hturn : ∀ r t, P r → P (r.turn step step' t)) {r : Race π α ρ β} (h : P r)
    (turns : List Turn) : P (r.run step step' turns) := by
  induction turns generalizing r with
  | nil => exact h
  | cons t turns ih => exact ih (hturn r t h)

end Race

end Loyalty.Service
