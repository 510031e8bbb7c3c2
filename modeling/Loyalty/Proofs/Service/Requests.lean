import Loyalty.Proofs.Cache
import Loyalty.Proofs.Engine.Loading
import Loyalty.Proofs.Store.Saving
import Loyalty.Service.About
import Loyalty.Service.Booking
import Loyalty.Service.Reload
import Loyalty.Service.RuleSet
import Loyalty.Service.Startup

/-!
# What requests do to the service

The requests that only ask change nothing, and reloads leave the store and the
cache alone. An update that is answered with success has saved the posted rules,
dropped the cached document and put the rules into the engine; any other update
changes nothing.
-/

namespace Loyalty

namespace Service

open Loyalty.Action

section Reading

variable {P : Service → Prop}

/-- A check of posted rules changes nothing. -/
theorem preserves_validate (payload : Fields) : Preserves P (validate payload) := by
  unfold validate
  split
  · exact preserves_lift _
  · exact (preserves_lift _).bind fun _ => preserves_lift _
  · exact preserves_pure _

private theorem preserves_calculateBooking (engine : Engine) (tier : String) (amount : Double)
    (bookingDate : Value) (now : Moment) :
    Preserves P (calculateBooking engine tier amount bookingDate now) := by
  have hrest : ∀ date : Value, Preserves P (do
      let day ← Action.ofExcept date.dayName
      let c ← Action.lift (engine.apply (bookingRecord tier amount date day))
      return calculated (bookingRecord tier amount date day) c) := fun date =>
    (preserves_lift _).bind fun _ => (preserves_lift _).bind fun _ => preserves_pure _
  unfold calculateBooking
  simp only
  split
  · exact (preserves_pure _).bind hrest
  · exact (preserves_lift _).bind hrest

/-- A calculation changes nothing. -/
theorem preserves_calculate (payload : Fields) (now : Moment) :
    Preserves P (calculate payload now) := by
  refine preserves_get.bind fun s => ?_
  split
  · exact preserves_lift _
  · split
    · exact preserves_lift _
    · exact preserves_lift _
    · split
      · exact preserves_lift _
      · refine (preserves_lift _).bind fun amount => ?_
        split
        · exact preserves_lift _
        · split
          · exact preserves_lift _
          · split
            · exact preserves_lift _
            · exact preserves_calculateBooking _ _ _ _ _

/-- A look into the cache changes nothing. -/
theorem preserves_cachedDocument : Preserves P cachedDocument := by
  have hdocument : ∀ now, Preserves P (onCache (Cache.document now ruleSet)) := by
    refine fun now => preserves_on fun s hs => ?_
    have hcache : (Cache.document now ruleSet s.cache).2 = s.cache :=
      Cache.preserves_document (P := (· = s.cache)) s.cache rfl
    rw [hcache]
    exact hs
  refine preserves_get.bind fun s => (hdocument s.now).bind fun found => ?_
  split
  · exact preserves_pure _
  · exact preserves_pure _

/-- A look at the health changes nothing. -/
theorem preserves_health : Preserves P health := preserves_get.bind fun _ => preserves_pure _

end Reading

/-- An action on the store leaves the rest of the service alone. -/
theorem result_onStore {α : Type} {action : Action Store α} {s : Service}
    {outcome : Except Fault α} {store : Store} (h : action.result s.store = (outcome, store)) :
    (onStore action).result s = (outcome, { s with store := store }) := by
  rw [onStore, result_on, h]

/-- What filling the store from the rule file comes to at a start, and the store
that it leaves; without a file there is nothing to do. -/
def filled (file : RuleFile) (s : Service) : Except Fault Unit × Store :=
  match file.contents with
  | none => (.ok (), s.store)
  | some _ =>
    (((Store.seed s.now (some ruleSet) file).result s.store).1.map fun _ => (),
      ((Store.seed s.now (some ruleSet) file).result s.store).2)

/-- What can come of a start. -/
inductive Started (file : RuleFile) (reloadSeconds : Value) (s : Service) :
    Except Fault Unit × Service → Prop
  /-- The store could not be filled. -/
  | notFilled {f : Fault} {store : Store} (h : filled file s = (.error f, store)) :
    Started file reloadSeconds s (.error f, { s with store := store })
  /-- The stored rules cannot be gone through. -/
  | noRules {f : Fault} {store : Store} (h : filled file s = (.ok (), store))
    (hrules : store.rules (some ruleSet) = .error f) :
    Started file reloadSeconds s (.error f, { s with store := store })
  /-- The stored rules are in use; it remains to start reloads. -/
  | ready {store : Store} {rules : List Value} {outcome : Except Fault Unit}
    {scheduler : Scheduler} (h : filled file s = (.ok (), store))
    (hrules : store.rules (some ruleSet) = .ok rules)
    (hreloads : (startReloads s.now reloadSeconds).result s.scheduler = (outcome, scheduler)) :
    Started file reloadSeconds s (outcome,
      { s with
        store := store
        engine := some ⟨Engine.defaultAmountField, rules, .shared⟩
        scheduler := scheduler })

/-- The rules of a row can be told of. -/
theorem tellable_of_row {row : Row} {items : List Value} (h : row.rules.elements = .ok items) :
    Engine.Tellable items :=
  Engine.tellable_of_hasFewDigits (row.fewDigits.of_mem_elements h)

/-- Stored rules can be told of. -/
theorem tellable_of_stored {store : Store} {name : RuleSetName} {rules : List Value}
    (h : store.rules name = .ok rules) : Engine.Tellable rules := by
  unfold Store.rules at h
  split at h
  · exact tellable_of_row h
  · cases h
    exact fun _ hrule => absurd hrule List.not_mem_nil

/-- A new engine with the items of a list is taken into use. -/
theorem result_renewEngine {rules : List Value} (htellable : Engine.Tellable rules)
    (nan : Identity) (amountField : Value) (s : Service) :
    (renewEngine (.list rules) nan amountField).result s =
      (.ok (), { s with engine := some ⟨amountField, rules, nan⟩ }) := by
  have hcreate : (lift (Engine.create (.list rules) nan amountField) :
      Action Service Engine).result s = (.ok ⟨amountField, rules, nan⟩, s) := by
    rw [result_lift, Engine.create_list htellable]
  rw [renewEngine, result_bind_of_ok hcreate]
  rfl

/-- A start that has filled the store takes the stored rules into use and starts reloads, up
to the first of these that fails. -/
private theorem started_of_filled {file : RuleFile} {reloadSeconds : Value} {s : Service}
    {store : Store} (hfilled : filled file s = (.ok (), store)) :
    Started file reloadSeconds s (Action.result (do
      let rules ← Action.ofExcept ((← Action.get).store.rules (some ruleSet))
      renewEngine (.list rules) .shared Engine.defaultAmountField
      Action.note (.engineReady rules.length)
      onScheduler (startReloads s.now reloadSeconds)) { s with store := store }) := by
  rw [result_get_bind]
  simp only
  cases hrules : store.rules (some ruleSet) with
  | error f => exact .noRules hfilled hrules
  | ok rules =>
    rw [result_ofExcept_ok_bind,
      result_bind_of_ok (result_renewEngine (tellable_of_stored hrules) ..), result_note_bind,
      onScheduler, result_on]
    exact .ready hfilled hrules rfl

/-- A start fills the store, takes the stored rules into use and starts reloads, up
to the first of these that fails. -/
theorem startup_cases (file : RuleFile) (reloadSeconds : Value) (s : Service) :
    Started file reloadSeconds s ((startup file reloadSeconds).result s) := by
  rw [startup, result_get_bind]
  cases hcontents : file.contents with
  | none =>
    have hfilled : filled file s = (.ok (), s.store) := by
      rw [filled, hcontents]
    exact started_of_filled hfilled
  | some bytes =>
    cases hseed : (Store.seed s.now (some ruleSet) file).result s.store with
    | mk outcome store =>
      have hfilled : filled file s = (outcome.map fun _ => (), store) := by
        rw [filled, hcontents, hseed]
      have honStore := result_onStore hseed
      simp only [Option.isSome_some, if_true]
      cases outcome with
      | error f =>
        rw [result_bind_of_error honStore]
        exact .notFilled hfilled
      | ok row =>
        rw [result_bind_of_ok honStore]
        exact started_of_filled hfilled

/-- The elements of a sequence become the rules of the engine. -/
theorem result_loadRules_of_elements {rules : Value} {items : List Value}
    (h : rules.elements = .ok items) (htellable : Engine.Tellable items) (nan : Identity)
    (engine : Engine) (s : Service) :
    ∃ complaints, Complaint.list items = .ok complaints ∧
      (loadRules rules nan engine).result s =
        (.ok complaints, { s with engine := some { engine with rules := items, nan } }) := by
  obtain ⟨complaints, hlist, hload⟩ :=
    Engine.outcome_load_of_tellable (Engine.rulesOf_of_elements h) htellable nan engine
  have hlift : (lift (engine.load rules nan) : Action Service _).result s =
      (.ok ({ engine with rules := items, nan }, complaints), s) := by
    rw [result_lift, hload]
  refine ⟨complaints, hlist, ?_⟩
  rw [loadRules, result_bind_of_ok hlift]
  rfl

/-- A list becomes the rules of the engine if it can be told of. -/
theorem result_loadRules {rules : List Value} (htellable : Engine.Tellable rules)
    (nan : Identity) (engine : Engine) (s : Service) :
    ∃ complaints, Complaint.list rules = .ok complaints ∧
      (loadRules (.list rules) nan engine).result s =
        (.ok complaints, { s with engine := some { engine with rules, nan } }) :=
  result_loadRules_of_elements rfl htellable nan engine s

/-- A guarded reload answers what the reload answers, and false for a fault. It leaves
the state that the reload leaves. -/
theorem result_guarded (name : RuleSetName) (action : Action Service Bool) (s : Service) :
    (guarded name action).result s =
      (.ok ((action.result s).1.toOption.getD false), (action.result s).2) := by
  have hattempt := result_attempt action s
  rw [guarded, result_bind_of_ok hattempt]
  cases (action.result s).1 with
  | ok changed => rfl
  | error f => rfl

/-- The engine after a reload from stored items. -/
def reloaded (items : List Value) (engine : Engine) : Engine :=
  if upToDate items engine then engine else { engine with rules := items, nan := .shared }

/-- An engine is brought to the elements of a row, which tells whether it changed. -/
theorem result_reloadFrom {s : Service} {name : RuleSetName} {row : Row} {items : List Value}
    {engine : Engine} (helements : row.rules.elements = .ok items)
    (hengine : s.engine = some engine) :
    (reloadFrom row name s.engine).result s =
      (.ok (!upToDate items engine), { s with engine := some (reloaded items engine) }) := by
  rw [reloadFrom, helements, hengine, result_ofExcept_ok_bind]
  simp only
  cases hequal : upToDate items engine with
  | true =>
    rw [if_pos rfl, result_pure, reloaded, if_pos hequal, ← hengine]
    rfl
  | false =>
    obtain ⟨complaints, -, hload⟩ :=
      result_loadRules_of_elements helements (tellable_of_row helements) .shared engine s
    rw [if_neg (by simp), reloaded, if_neg (by simp [hequal]), result_bind_of_ok hload,
      result_note_bind]
    rfl

/-- A reload from a stored sequence changes the engine alone, and tells whether it did. -/
theorem result_reload_of_elements {s : Service} {name : RuleSetName} {row : Row}
    {items : List Value} {engine : Engine} (hrow : s.store.find? name = some row)
    (helements : row.rules.elements = .ok items) (hengine : s.engine = some engine) :
    (reload name none).result s =
      (.ok (!upToDate items engine), { s with engine := some (reloaded items engine) }) := by
  have hstored : (reloadStored name).result s =
      (.ok (!upToDate items engine), { s with engine := some (reloaded items engine) }) := by
    rw [reloadStored, result_get_bind, hrow]
    exact result_reloadFrom helements hengine
  rw [reload, result_guarded, hstored]
  rfl

/-- Stored items that a reload brings to an engine: it can read them, and the engine has
others. -/
structure Brings (name : RuleSetName) (outOfOrder : Option String) (s : Service)
    (items : List Value) (engine : Engine) : Prop where
  inOrder : outOfOrder = none
  stored : ∃ row, s.store.find? name = some row ∧ row.rules.elements = .ok items
  inUse : s.engine = some engine
  differs : (Value.list items).looseEq engine.nan .shared (.list engine.rules) = false

/-- An engine is up to date if its list of rules equals the stored one. -/
theorem upToDate_eq (items : List Value) (engine : Engine) :
    upToDate items engine = (Value.list items).looseEq engine.nan .shared (.list engine.rules) := by
  simp [upToDate, Value.list, Value.looseEq]

section Reload

variable {name : RuleSetName} {outOfOrder : Option String} {s : Service}

/-- A reload that brings items to an engine says so, and changes nothing else. -/
theorem Brings.result {items : List Value} {engine : Engine}
    (h : Brings name outOfOrder s items engine) : (reload name outOfOrder).result s =
      (.ok true, { s with engine := some { engine with rules := items, nan := .shared } }) := by
  obtain ⟨rfl, ⟨row, hrow, helements⟩, hengine, hdiffers⟩ := h
  rw [← upToDate_eq] at hdiffers
  rw [result_reload_of_elements hrow helements hengine, reloaded, hdiffers]
  rfl

/-- A reload that brings nothing says so, and changes nothing. -/
theorem result_reload_of_not_brings (h : ∀ items engine, ¬ Brings name outOfOrder s items engine) :
    (reload name outOfOrder).result s = (.ok false, s) := by
  cases outOfOrder with
  | some text =>
    rw [reload, result_guarded]
    rfl
  | none =>
    cases hrow : s.store.find? name with
    | none =>
      rw [reload, result_guarded, reloadStored, result_get_bind, hrow]
      rfl
    | some row =>
      cases helements : row.rules.elements with
      | error f =>
        rw [reload, result_guarded, reloadStored, result_get_bind, hrow]
        simp only
        rw [reloadFrom, helements]
        rfl
      | ok items =>
        cases hengine : s.engine with
        | none =>
          rw [reload, result_guarded, reloadStored, result_get_bind, hrow, hengine]
          simp only
          rw [reloadFrom, helements]
          rfl
        | some engine =>
          rw [result_reload_of_elements hrow helements hengine]
          have hequal : upToDate items engine = true := by
            rw [upToDate_eq]
            by_contra hdiffers
            exact h items engine ⟨rfl, ⟨row, hrow, helements⟩, hengine, by simpa using hdiffers⟩
          rw [reloaded, if_pos hequal, hequal, ← hengine]
          rfl

end Reload

/-- A reload brings stored items to the engine, or changes nothing. -/
theorem reload_cases (name : RuleSetName) (outOfOrder : Option String) (s : Service) :
    (reload name outOfOrder).result s = (.ok false, s) ∨
      ∃ items engine, Brings name outOfOrder s items engine ∧ (reload name outOfOrder).result s =
        (.ok true, { s with engine := some { engine with rules := items, nan := .shared } }) := by
  by_cases h : ∃ items engine, Brings name outOfOrder s items engine
  · obtain ⟨items, engine, hbrings⟩ := h
    exact .inr ⟨items, engine, hbrings, hbrings.result⟩
  · exact .inl (result_reload_of_not_brings fun items engine hbrings =>
      h ⟨items, engine, hbrings⟩)

section Frames

variable {P : Store → Cache → Prop}

/-- A reload leaves store and cache alone. -/
theorem preserves_reload (name : RuleSetName) (outOfOrder : Option String) :
    Preserves (fun s => P s.store s.cache) (reload name outOfOrder) := by
  intro s hs
  change P ((reload name outOfOrder).result s).2.store ((reload name outOfOrder).result s).2.cache
  rcases reload_cases name outOfOrder s with h | ⟨_, _, -, h⟩
  · rwa [h]
  · rwa [h]

/-- A start leaves the cache alone, and changes the store only by filling it from
the rule file. -/
theorem preserves_startup {file : RuleFile}
    (hseed : ∀ now store cache, P store cache →
      P ((Store.seed now (some ruleSet) file).result store).2 cache) (reloadSeconds : Value) :
    Preserves (fun s => P s.store s.cache) (startup file reloadSeconds) := by
  intro s hs
  have hfilled : P (filled file s).2 s.cache := by
    unfold filled
    split
    · exact hs
    · exact hseed s.now s.store s.cache hs
  change P ((startup file reloadSeconds).result s).2.store
    ((startup file reloadSeconds).result s).2.cache
  have hstarted := startup_cases file reloadSeconds s
  generalize (startup file reloadSeconds).result s = result at hstarted
  cases hstarted with
  | notFilled h => rwa [h] at hfilled
  | noRules h => rwa [h] at hfilled
  | ready h => rwa [h] at hfilled

end Frames

/-- Showing the rules changes nothing but the cache. -/
theorem preserves_getRules {P : Store → Option Engine → Prop} :
    Preserves (fun s => P s.store s.engine) getRules := by
  refine preserves_cachedDocument.bind fun document => ?_
  split
  · exact preserves_pure _
  · refine preserves_get.bind fun s => ?_
    split
    · exact preserves_lift _
    · exact (preserves_on fun _ h => h).bind fun _ => preserves_pure _

/-- A document with a text is kept in the cache. -/
theorem result_keep {document : Value} {text : List Char}
    (htext : Json.written document = .ok text) (now : Instant) (s : Service) :
    (onCache (Cache.keep now ruleSet document)).result s = (.ok (),
      { s with cache := s.cache.put (Cache.documentEntry now ruleSet text) }) := by
  rw [onCache, result_on, result, Cache.keep_of_written htext]

/-- A service with some stored rules, and with others in use. -/
def holding (stored inUse : List Value)
    (fewDigits : (Value.list stored).HasFewDigits := by decide) : Service :=
  { fresh .first with
    engine := some ⟨Engine.defaultAmountField, inUse, .shared⟩
    store := ⟨[⟨0, ruleSet, none, none, .list stored, .first, fewDigits⟩]⟩ }

/-- What is saved of posted rules. -/
def postedRequest (rules : List Value) (nan : Identity) : SaveRequest :=
  { SaveRequest.ofRules (some ruleSet) (.list rules) with nan := nan }

/-- The service after posted rules were saved: the store is the one that the save
left, the cached document is gone, and the engine has the rules. -/
def updated (rules : List Value) (nan : Identity) (store : Store) (s : Service) : Service :=
  { s with
    store := store
    cache := s.cache.erase (Cache.documentKey ruleSet)
    engine := s.engine.map fun engine => { engine with rules := rules, nan := nan } }

/-- The answer to posted rules that were accepted. -/
def accepted (rules : List Value) (store : Store) : Response :=
  .ok (.object [("success", .bool true), ("message", .text "Rules updated successfully"),
    ("rulesCount", .nat rules.length), ("data", (store.document? (some ruleSet)).getD .null)])

/-- Valid rules that were saved are accepted. -/
theorem acceptRules_of_saved {rules : List Value} (hvalid : AllValid rules) {nan : Identity}
    {s : Service} {row : Row} {store : Store}
    (h : (Store.save s.now (postedRequest rules nan)).result s.store = (.ok row, store)) :
    (acceptRules rules nan).result s = (.ok (accepted rules store), updated rules nan store s) := by
  have hsave := result_onStore h
  have hcache : (onCache (Cache.invalidate ruleSet)).result { s with store := store } =
      (.ok (), { s with store := store, cache := s.cache.erase (Cache.documentKey ruleSet) }) :=
    rfl
  rw [acceptRules, result_get_bind]
  refine (result_bind_of_ok hsave _).trans ?_
  rw [result_bind_of_ok hcache]
  obtain ⟨engine, _, _, _, _⟩ := s
  cases engine with
  | none => rfl
  | some engine =>
    obtain ⟨complaints, -, hload⟩ :=
      result_loadRules (Engine.tellable_of_allValid hvalid) nan engine _
    exact result_bind_of_ok hload _

/-- Rules that the store refuses are not accepted. -/
theorem acceptRules_of_refused {rules : List Value} {nan : Identity} {s : Service} {f : Fault}
    {store : Store} (h : (Store.save s.now (postedRequest rules nan)).result s.store =
      (.error f, store)) :
    (acceptRules rules nan).result s = (.error f, { s with store := store }) := by
  rw [acceptRules, result_get_bind]
  exact result_bind_of_error (result_onStore h) _

/-- Rules are accepted with the answer of success and the service updated, or
refused by the store, and then nothing changes. -/
theorem acceptRules_cases {rules : List Value} (hvalid : AllValid rules) (nan : Identity)
    (s : Service) :
    (∃ f, (acceptRules rules nan).result s = (.error f, s)) ∨
      ∃ row store, Store.Saved s.now (postedRequest rules nan) s.store (.ok row, store) ∧
        (acceptRules rules nan).result s =
          (.ok (accepted rules store), updated rules nan store s) := by
  have hsaved := Store.save_cases s.now (postedRequest rules nan) s.store
  cases hresult : (Store.save s.now (postedRequest rules nan)).result s.store with
  | mk outcome store =>
    rw [hresult] at hsaved
    cases outcome with
    | ok row => exact .inr ⟨row, store, hsaved, acceptRules_of_saved hvalid hresult⟩
    | error f =>
      left
      refine ⟨f, ?_⟩
      have hcount : (postedRequest rules nan).rules.count = .ok rules.length := rfl
      have hstore : store = s.store := hsaved.eq_of_error hcount
      subst hstore
      exact acceptRules_of_refused hresult

/-- A refusal has the status that it was given. -/
theorem status_of_refusal {status : Nat} {body : Value} {response : Response}
    (h : Response.refusal status body = .ok response) : response.status = status := by
  unfold Response.refusal at h
  split at h
  · cases h
  · cases h
    rfl

/-- Valid posted rules are the list that was posted. -/
theorem PostedRules.of_eq_valid {payload : Fields} {rules : List Value}
    (h : PostedRules.of payload = .valid rules) : payload.get "rules" = .list rules := by
  unfold PostedRules.of at h
  split at h
  · rename_i heq
    split at h
    · cases h
      exact heq
    · cases h
  · cases h

/-- Valid posted rules are all valid. -/
theorem PostedRules.allValid_of_eq {payload : Fields} {rules : List Value}
    (h : PostedRules.of payload = .valid rules) : AllValid rules := by
  unfold PostedRules.of at h
  split at h
  · split at h
    · rename_i hlist
      cases h
      exact (Problem.isReport_list rules).eq_nil_iff.mp hlist
    · cases h
  · cases h

/-- Valid rules of an update with an answer have been saved. -/
theorem updateRules_eq_ok {payload : Fields} {rules : List Value} {nan : Identity}
    {s s' : Service} {response : Response} (hvalid : PostedRules.of payload = .valid rules)
    (h : (updateRules payload nan).result s = (.ok response, s')) :
    ∃ row store, (Store.save s.now (postedRequest rules nan)).result s.store = (.ok row, store) ∧
      s' = updated rules nan store s := by
  have hupdate : updateRules payload nan = acceptRules rules nan := by
    rw [updateRules, hvalid]
  rw [hupdate] at h
  cases hsave : (Store.save s.now (postedRequest rules nan)).result s.store with
  | mk outcome store =>
    cases outcome with
    | ok row =>
      rw [acceptRules_of_saved (PostedRules.allValid_of_eq hvalid) hsave] at h
      cases h
      exact ⟨row, store, rfl, rfl⟩
    | error f =>
      rw [acceptRules_of_refused hsave] at h
      cases h

/-- An update with success has accepted the posted rules; after any other the
service is as before. -/
theorem updateRules_cases (payload : Fields) (nan : Identity) (s : Service) :
    (((updateRules payload nan).result s).2 = s ∧
        ∀ response, ((updateRules payload nan).result s).1 = .ok response →
          response.status = 400) ∨
      ∃ rules row store, payload.get "rules" = .list rules ∧
        Store.Saved s.now (postedRequest rules nan) s.store (.ok row, store) ∧
        (updateRules payload nan).result s =
          (.ok (accepted rules store), updated rules nan store s) := by
  unfold updateRules
  split
  · refine .inl ⟨rfl, ?_⟩
    intro response h
    simp only [result_ofExcept, rulesNotList, Response.because] at h
    exact status_of_refusal h
  · rename_i problems _
    rcases result_ofExcept_bind_cases (details problems) (fun details =>
        ofExcept (Response.refusal 400 (.object [failedValidation, details]))) s with
      ⟨f, -, hf⟩ | ⟨reported, -, hreported⟩
    · rw [hf]
      exact .inl ⟨rfl, fun _ h => by cases h⟩
    · rw [hreported]
      exact .inl ⟨rfl, fun _ h => status_of_refusal h⟩
  · rename_i rules hvalid
    rcases acceptRules_cases (PostedRules.allValid_of_eq hvalid) nan s with
      ⟨f, hf⟩ | ⟨row, store, hsaved, hresult⟩
    · left
      rw [hf]
      exact ⟨rfl, fun _ h => by cases h⟩
    · exact .inr ⟨rules, row, store, PostedRules.of_eq_valid hvalid, hsaved, hresult⟩

end Service

end Loyalty
