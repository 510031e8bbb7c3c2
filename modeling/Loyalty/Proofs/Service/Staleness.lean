import Loyalty.Proofs.Service.Agreement
import Loyalty.Proofs.Service.Coherence
import Loyalty.Proofs.Service.Steps

/-!
# A request for the rules beside an update

An update drops the cached document after it has saved, but it cannot drop what
another request is about to put into the cache. There is one order in which that
matters: the request reads the document, the update saves and drops, and then the
request fills the cache. In every other order the cache is coherent once both have
ended.
-/

namespace Loyalty.Service

open Loyalty.Action

/-- A request for the rules and an update beside it. -/
abbrev CacheRace := Race GetPhase Response UpdatePhase Response

/-- A request for the rules and an update with some rules after some turns. -/
def cacheRace (rules : List Value) (nan : Identity) (s : Service) (turns : List Turn) :
    CacheRace :=
  Race.run GetPhase.step (UpdatePhase.step rules nan) ⟨.at .look, .at .save, s⟩ turns

/-- The request looks into the cache and reads the document, then the update saves
and drops; what is left to the request is to fill the cache. -/
def fillLast : List Turn := [.one, .one, .other, .other]

/-- No other document than the given one is on its way into the cache. -/
def HoldsOnly (document : Value) (get : Progress GetPhase Response) : Prop :=
  ∀ held, get = .at (.keep held) → held = document

/-- The update has dropped the cached document. -/
def HasDropped (update : Progress UpdatePhase Response) : Prop :=
  update ≠ .at .save ∧ update ≠ .at .drop

section Turns

variable {service : Service} {after : Store} {saved : Row}

/-- Beside a store that stays as it is, a request for the rules holds nothing but
the stored document, and keeps a coherent cache coherent. -/
theorem advance_get {get : Progress GetPhase Response} (hstore : service.store = after)
    (hrow : after.find? (some ruleSet) = some saved) (hstorable : saved.rules.Storable)
    (hget : HoldsOnly saved.document get) :
    HoldsOnly saved.document (Progress.advance GetPhase.step (get, service)).1 ∧
      (Progress.advance GetPhase.step (get, service)).2.store = after ∧
      (Coherent after service.cache →
        Coherent after (Progress.advance GetPhase.step (get, service)).2.cache) := by
  subst hstore
  have hdocument : service.store.document? (some ruleSet) = some saved.document :=
    Store.document?_of_find? hrow
  cases get with
  | ended outcome => exact ⟨hget, rfl, id⟩
  | «at» phase =>
    cases phase with
    | look =>
      rw [advance_look]
      refine ⟨?_, rfl, id⟩
      intro held hheld
      simp only at hheld
      split at hheld <;> cases hheld
    | fetch =>
      rw [advance_fetch, hdocument]
      refine ⟨?_, rfl, id⟩
      rintro held ⟨⟩
      rfl
    | keep held =>
      have hheld : held = saved.document := hget held rfl
      subst hheld
      obtain ⟨text, htext⟩ := (Row.storable_document hstorable).exists_written
      rw [advance_keep htext]
      refine ⟨?_, rfl, fun hcoherent => hcoherent.put hrow htext _⟩
      rintro held ⟨⟩

/-- Behind the drop an update changes nothing but the engine. -/
theorem advance_update {rules : List Value} (hvalid : AllValid rules) (nan : Identity)
    (service : Service) {update : Progress UpdatePhase Response} (hdropped : HasDropped update) :
    HasDropped (Progress.advance (UpdatePhase.step rules nan) (update, service)).1 ∧
      ∃ engine, (Progress.advance (UpdatePhase.step rules nan) (update, service)).2 =
        { service with engine := engine } := by
  cases update with
  | ended outcome => exact ⟨hdropped, service.engine, rfl⟩
  | «at» phase =>
    cases phase with
    | save => exact absurd rfl hdropped.1
    | drop => exact absurd rfl hdropped.2
    | load =>
      rw [advance_load hvalid]
      exact ⟨⟨by simp, by simp⟩, _, rfl⟩
    | answer =>
      rw [advance_answer]
      exact ⟨⟨by simp, by simp⟩, service.engine, rfl⟩

end Turns

/-- Only the new document can get into the cache from here on. -/
inductive Settled (before : Service) (after : Store) (document : Value) : CacheRace → Prop
  /-- The request has ended, and the update has not begun. -/
  | unsaved {outcome : Except Fault Response} {service : Service}
    (hstore : service.store = before.store) (hnow : service.now = before.now) :
    Settled before after document ⟨.ended outcome, .at .save, service⟩
  /-- The rules are saved, and whatever is cached is about to be dropped. -/
  | saved {get : Progress GetPhase Response} {service : Service}
    (hget : HoldsOnly document get) (hstore : service.store = after) :
    Settled before after document ⟨get, .at .drop, service⟩
  /-- What was cached is dropped. -/
  | dropped {get : Progress GetPhase Response} {update : Progress UpdatePhase Response}
    {service : Service} (hget : HoldsOnly document get) (hdropped : HasDropped update)
    (hstore : service.store = after) (hcoherent : Coherent after service.cache) :
    Settled before after document ⟨get, update, service⟩

/-- A document is cached at an instant: there is an entry of the rule set, which has its text
whenever it is found. -/
structure Caches (now : Instant) (cache : Cache) (document : Value) : Prop where
  warm : isWarm now cache = true
  hasText : ∀ now entry, cache.find? now (Cache.documentKey ruleSet) = some entry →
    ∃ text, Json.written document = .ok text ∧ entry.text = String.ofList text

/-- A document that was put into the cache is cached. -/
theorem caches_put {document : Value} {text : List Char}
    (htext : Json.written document = .ok text) (now : Instant) (cache : Cache) :
    Caches now (cache.put (Cache.documentEntry now ruleSet text)) document := by
  refine ⟨(isWarm_put now now text cache).trans (Cache.Lifetime.reaches_start now _),
    fun now' entry hentry => ⟨text, htext, ?_⟩⟩
  have hput := @Cache.find?_put_self now' (Cache.documentEntry now ruleSet text) cache
  have hsame := hput.symm.trans hentry
  split at hsame
  · cases hsame
    rfl
  · cases hsame

/-- The old document is on its way into the cache, or in it, behind the drop. -/
inductive Lagging (before : Service) (after : Store) (document : Value) : CacheRace → Prop
  /-- The request holds the old document. -/
  | held {update : Progress UpdatePhase Response} {service : Service}
    (hdropped : HasDropped update) (hstore : service.store = after)
    (hnow : service.now = before.now) :
    Lagging before after document ⟨.at (.keep document), update, service⟩
  /-- The old document is cached. -/
  | kept {outcome : Except Fault Response} {update : Progress UpdatePhase Response}
    {service : Service} (hdropped : HasDropped update) (hstore : service.store = after)
    (hcaches : Caches before.now service.cache document) :
    Lagging before after document ⟨.ended outcome, update, service⟩

section Races

variable {before : Service} {after : Store} {saved : Row} {document : Value}
  {rules : List Value} {nan : Identity}

/-- Every turn keeps a race settled. -/
theorem settled_turn (hvalid : AllValid rules)
    (hsave : (Store.save before.now (postedRequest rules nan)).result before.store =
      (.ok saved, after))
    (hrow : after.find? (some ruleSet) = some saved)
    (hstorable : ∀ row ∈ after.rows, row.rules.Storable) {r : CacheRace} (t : Turn)
    (h : Settled before after saved.document r) :
    Settled before after saved.document
      (r.turn GetPhase.step (UpdatePhase.step rules nan) t) := by
  have hsaved : saved.rules.Storable := hstorable saved (Store.mem_of_find? hrow)
  cases h with
  | unsaved hstore hnow =>
    cases t with
    | one => exact .unsaved hstore hnow
    | other =>
      rename_i outcome service
      rw [← hstore, ← hnow] at hsave
      rw [Race.turn, advance_save hsave]
      exact .saved (by rintro held ⟨⟩) rfl
  | saved hget hstore =>
    cases t with
    | one =>
      obtain ⟨hget', hstore', -⟩ := advance_get hstore hrow hsaved hget
      exact .saved hget' hstore'
    | other =>
      rename_i service
      rw [Race.turn, advance_drop]
      exact .dropped hget ⟨by simp, by simp⟩ hstore
        (coherent_of_cold (fun now => isWarm_erase now service.cache) hstorable)
  | dropped hget hdropped hstore hcoherent =>
    cases t with
    | one =>
      obtain ⟨hget', hstore', hcoherent'⟩ := advance_get hstore hrow hsaved hget
      exact .dropped hget' hdropped hstore' (hcoherent' hcoherent)
    | other =>
      rename_i get update service
      obtain ⟨hdropped', engine, hservice⟩ := advance_update hvalid nan service hdropped
      refine .dropped hget hdropped' ?_ ?_
      · rw [hservice]
        exact hstore
      · rw [hservice]
        exact hcoherent

/-- A settled race ends with a coherent cache. -/
theorem coherent_of_settled {r : CacheRace} (h : Settled before after document r)
    (hover : r.IsOver) : Coherent r.service.store r.service.cache := by
  obtain ⟨-, outcome, hended⟩ := hover
  cases h with
  | unsaved => cases hended
  | saved => cases hended
  | dropped hget hdropped hstore hcoherent => exact hstore ▸ hcoherent

/-- Every turn keeps a race lagging. -/
theorem lagging_turn (hvalid : AllValid rules) {text : List Char}
    (htext : Json.written document = .ok text) {r : CacheRace} (t : Turn)
    (h : Lagging before after document r) :
    Lagging before after document (r.turn GetPhase.step (UpdatePhase.step rules nan) t) := by
  cases h with
  | held hdropped hstore hnow =>
    rename_i update service
    cases t with
    | one =>
      rw [Race.turn, advance_keep htext, hnow]
      exact .kept hdropped hstore (caches_put htext before.now service.cache)
    | other =>
      obtain ⟨hdropped', engine, hservice⟩ := advance_update hvalid nan service hdropped
      rw [Race.turn, hservice]
      exact .held hdropped' hstore hnow
  | kept hdropped hstore hcaches =>
    rename_i outcome update service
    cases t with
    | one => exact .kept hdropped hstore hcaches
    | other =>
      obtain ⟨hdropped', engine, hservice⟩ := advance_update hvalid nan service hdropped
      rw [Race.turn, hservice]
      exact .kept hdropped' hstore hcaches

/-- A lagging race ends with the old document in the cache. -/
theorem caches_of_lagging {r : CacheRace} (h : Lagging before after document r)
    (hover : r.IsOver) : r.service.store = after ∧ Caches before.now r.service.cache document := by
  obtain ⟨⟨outcome, hended⟩, -⟩ := hover
  cases h with
  | held => cases hended
  | kept hdropped hstore hcaches => exact ⟨hstore, hcaches⟩

/-- A cache with the old document goes with the store exactly if the update did not change
the document. -/
theorem coherent_iff_of_caches {cache : Cache} {now : Instant}
    (hrow : after.find? (some ruleSet) = some saved)
    (hstorable : ∀ row ∈ after.rows, row.rules.Storable) (hdocument : document.Storable)
    (hcaches : Caches now cache document) :
    Coherent after cache ↔ saved.document = document := by
  have hsaved : saved.document.Storable :=
    Row.storable_document (hstorable saved (Store.mem_of_find? hrow))
  constructor
  · intro hcoherent
    obtain ⟨entry, hentry⟩ := Option.isSome_iff_exists.mp hcaches.warm
    obtain ⟨text, htext, hentry_text⟩ := hcaches.hasText now entry hentry
    obtain ⟨row, text', hrow', htext', hentry_text'⟩ := hcoherent.cached now entry hentry
    cases hrow.symm.trans hrow'
    -- Both documents are read from the one text in the cache.
    have hread := hdocument.read_written htext
    rw [← hentry_text, hentry_text', hsaved.read_written htext'] at hread
    exact Except.ok.inj hread
  · rintro rfl
    refine ⟨hstorable, fun now' entry hentry => ?_⟩
    obtain ⟨text, htext, hentry_text⟩ := hcaches.hasText now' entry hentry
    exact ⟨saved, text, hrow, htext, hentry_text⟩

end Races

section Beginnings

variable {s : Service} {row : Row} {update : Progress UpdatePhase Response}
  {rules : List Value} {nan : Identity} {after : Store} {saved : Row}

/-- With a warm cache the request ends at once. -/
private theorem turn_look_of_warm (hs : Coherent s.store s.cache)
    (hfind : s.store.find? (some ruleSet) = some row) (hwarm : isWarm s.now s.cache = true) :
    Race.turn GetPhase.step (UpdatePhase.step rules nan) ⟨.at .look, update, s⟩ .one =
      ⟨.ended (.ok (documentFrom "cache" row.document)), update, s⟩ := by
  rw [Race.turn, advance_look, result_cachedDocument hs, if_pos hwarm,
    Store.document?_of_find? hfind]
  rfl

/-- With a cold cache the request goes on to the store. -/
private theorem turn_look_of_cold (hs : Coherent s.store s.cache)
    (hcold : isWarm s.now s.cache = false) :
    Race.turn GetPhase.step (UpdatePhase.step rules nan) ⟨.at .look, update, s⟩ .one =
      ⟨.at .fetch, update, s⟩ := by
  rw [Race.turn, advance_look, result_cachedDocument hs, hcold]
  rfl

/-- The request reads the stored document. -/
private theorem turn_fetch (hfind : s.store.find? (some ruleSet) = some row) :
    Race.turn GetPhase.step (UpdatePhase.step rules nan) ⟨.at .fetch, update, s⟩ .one =
      ⟨.at (.keep row.document), update, s⟩ := by
  rw [Race.turn, advance_fetch, Store.document?_of_find? hfind]
  rfl

/-- The update saves its rules. -/
private theorem turn_save {get : Progress GetPhase Response}
    (hsave : (Store.save s.now (postedRequest rules nan)).result s.store = (.ok saved, after)) :
    Race.turn GetPhase.step (UpdatePhase.step rules nan) ⟨get, .at .save, s⟩ .other =
      ⟨get, .at .drop, { s with store := after }⟩ := by
  rw [Race.turn, advance_save hsave]

/-- A race in which a cold cache is filled last lags. -/
theorem lagging_of_fillLast (hvalid : AllValid rules) (hs : Coherent s.store s.cache)
    (hfind : s.store.find? (some ruleSet) = some row)
    (hsave : (Store.save s.now (postedRequest rules nan)).result s.store = (.ok saved, after))
    (hcold : isWarm s.now s.cache = false) (turns : List Turn) :
    Lagging s after row.document (cacheRace rules nan s (fillLast ++ turns)) := by
  have hdocument := Row.storable_document (hs.storable row (Store.mem_of_find? hfind))
  obtain ⟨text, htext⟩ := hdocument.exists_written
  refine Race.run_induction (fun r t => lagging_turn hvalid htext t) ?_ turns
  rw [turn_look_of_cold hs hcold, turn_fetch hfind, turn_save hsave, Race.turn, advance_drop]
  exact .held ⟨by simp, by simp⟩ rfl rfl

/-- A race that goes on from a settled one is settled. -/
private theorem settled_run (hvalid : AllValid rules)
    (hsave : (Store.save s.now (postedRequest rules nan)).result s.store = (.ok saved, after))
    (hrow : after.find? (some ruleSet) = some saved)
    (hstorable : ∀ row ∈ after.rows, row.rules.Storable) {r : CacheRace}
    (hr : Settled s after saved.document r) (turns : List Turn) :
    Settled s after saved.document
      (r.run GetPhase.step (UpdatePhase.step rules nan) turns) :=
  Race.run_induction (fun _ t => settled_turn hvalid hsave hrow hstorable t) hr turns

/-- A race in which the rules are saved next settles, unless the request has a document that it
is going to keep. -/
private theorem settled_of_save (hvalid : AllValid rules)
    (hsave : (Store.save s.now (postedRequest rules nan)).result s.store = (.ok saved, after))
    (hrow : after.find? (some ruleSet) = some saved)
    (hafter : ∀ row ∈ after.rows, row.rules.Storable) {get : Progress GetPhase Response}
    (hget : ∀ document, get ≠ .at (.keep document)) (turns : List Turn) :
    Settled s after saved.document (Race.run GetPhase.step (UpdatePhase.step rules nan)
      ⟨get, .at .save, s⟩ (.other :: turns)) := by
  refine settled_run hvalid hsave hrow hafter ?_ turns
  rw [turn_save hsave]
  exact .saved (fun document hheld => absurd hheld (hget document)) rfl

/-- A race is not over before the update has begun. -/
private theorem not_isOver_unsaved {get : Progress GetPhase Response} :
    ¬ Race.IsOver (⟨get, .at .save, s⟩ : CacheRace) := by
  rintro ⟨-, _, ⟨⟩⟩

/-- A race in which the old document was read settles once the cache is filled
before the drop. -/
private theorem settled_of_keep (hvalid : AllValid rules)
    (hstorable : ∀ row ∈ s.store.rows, row.rules.Storable)
    (hfind : s.store.find? (some ruleSet) = some row)
    (hsave : (Store.save s.now (postedRequest rules nan)).result s.store = (.ok saved, after))
    (hrow : after.find? (some ruleSet) = some saved)
    (hafter : ∀ row ∈ after.rows, row.rules.Storable) {turns : List Turn}
    (hover : (Race.run GetPhase.step (UpdatePhase.step rules nan)
      ⟨.at (.keep row.document), .at .save, s⟩ turns).IsOver)
    (hother : ¬ [.other, .other] <+: turns) :
    Settled s after saved.document (Race.run GetPhase.step (UpdatePhase.step rules nan)
      ⟨.at (.keep row.document), .at .save, s⟩ turns) := by
  have hdocument := Row.storable_document (hstorable row (Store.mem_of_find? hfind))
  obtain ⟨text, htext⟩ := hdocument.exists_written
  match turns with
  | [] => exact absurd hover not_isOver_unsaved
  | .one :: turns =>
    refine settled_run hvalid hsave hrow hafter ?_ turns
    rw [Race.turn, advance_keep htext]
    exact .unsaved rfl rfl
  | [.other] =>
    obtain ⟨⟨_, hended⟩, -⟩ := hover
    cases hended
  | .other :: .other :: turns => exact absurd ⟨turns, rfl⟩ hother
  | .other :: .one :: turns =>
    refine settled_run hvalid hsave hrow hafter ?_ turns
    rw [turn_save hsave, Race.turn, advance_keep htext]
    exact .saved (by rintro held ⟨⟩) rfl

/-- Every other race settles, if it comes to its end. -/
theorem settled_of_isOver (hvalid : AllValid rules) (hs : Coherent s.store s.cache)
    (hfind : s.store.find? (some ruleSet) = some row)
    (hsave : (Store.save s.now (postedRequest rules nan)).result s.store = (.ok saved, after))
    (hrow : after.find? (some ruleSet) = some saved)
    (hafter : ∀ row ∈ after.rows, row.rules.Storable) {turns : List Turn}
    (hover : (cacheRace rules nan s turns).IsOver)
    (hother : isWarm s.now s.cache = true ∨ ¬ fillLast <+: turns) :
    Settled s after saved.document (cacheRace rules nan s turns) := by
  -- The cases follow the turns up to the first that settles the race.
  match turns with
  | [] => exact absurd hover not_isOver_unsaved
  | .other :: turns => exact settled_of_save hvalid hsave hrow hafter (by rintro document ⟨⟩) turns
  | .one :: turns =>
    cases hwarm : isWarm s.now s.cache with
    | true =>
      refine settled_run hvalid hsave hrow hafter ?_ turns
      rw [turn_look_of_warm hs hfind hwarm]
      exact .unsaved rfl rfl
    | false =>
      have hlast : ¬ fillLast <+: .one :: turns :=
        hother.resolve_left (by rw [hwarm]; exact Bool.false_ne_true)
      have hrun : cacheRace rules nan s (.one :: turns) =
          Race.run GetPhase.step (UpdatePhase.step rules nan) ⟨.at .fetch, .at .save, s⟩ turns := by
        rw [cacheRace, Race.run, List.foldl_cons, turn_look_of_cold hs hwarm]
        rfl
      rw [hrun] at hover ⊢
      match turns with
      | [] => exact absurd hover not_isOver_unsaved
      | .other :: turns =>
        exact settled_of_save hvalid hsave hrow hafter (by rintro document ⟨⟩) turns
      | .one :: turns =>
        rw [Race.run, List.foldl_cons, turn_fetch hfind] at hover ⊢
        refine settled_of_keep hvalid hs.storable hfind hsave hrow hafter hover
          fun hprefix => hlast ?_
        exact List.prefix_append_right_inj [.one, .one] |>.mpr hprefix

end Beginnings

/-- A request for the rules and an accepted update, in any order of their steps,
leave the cache with the stored document or without one, unless the request finds
the cache cold, reads the document before the save and fills the cache behind the
drop; then the cache holds the old document, which is the stored one only if the
update did not change it. -/
theorem coherent_cacheRace_iff {s s' : Service} {row : Row} {payload : Payload}
    {rules : List Value} {nan : Identity} {response : Response} {turns : List Turn}
    (hs : Coherent s.store s.cache) (hfind : s.store.find? (some ruleSet) = some row)
    (hvalid : PostedRules.of payload.fields = .valid rules)
    (haccepted : (updateRules payload.fields nan).result s = (.ok response, s'))
    (hover : (cacheRace rules nan s turns).IsOver) :
    (Coherent (cacheRace rules nan s turns).service.store
        (cacheRace rules nan s turns).service.cache ↔
      isWarm s.now s.cache = true ∨ ¬ fillLast <+: turns ∨
        s'.store.document? (some ruleSet) = some row.document) ∧
    (isWarm s.now s.cache = false → fillLast <+: turns →
      Caches s.now (cacheRace rules nan s turns).service.cache row.document) := by
  obtain ⟨saved, after, hsave, rfl⟩ := updateRules_eq_ok hvalid haccepted
  have hposted : (Value.list rules).WellFormed :=
    PostedRules.of_eq_valid hvalid ▸ payload.wellFormed_get "rules"
  have hsaved : Store.Saved s.now (postedRequest rules nan) s.store (.ok saved, after) :=
    hsave ▸ Store.save_cases s.now (postedRequest rules nan) s.store
  have hrow : after.find? (some ruleSet) = some saved := (hsaved.find? rfl).1
  have hafter : ∀ row ∈ after.rows, row.rules.Storable := hsaved.storable hposted hs.storable
  have hdocument : (updated rules nan after s).store.document? (some ruleSet) =
      some saved.document := Store.document?_of_find? hrow
  have hallValid := PostedRules.allValid_of_eq hvalid
  rw [hdocument, Option.some_inj]
  by_cases hother : isWarm s.now s.cache = true ∨ ¬ fillLast <+: turns
  · have hcoherent := coherent_of_settled
      (settled_of_isOver hallValid hs hfind hsave hrow hafter hover hother) hover
    refine ⟨iff_of_true hcoherent (or_assoc.mp (.inl hother)), fun hcold hlast => ?_⟩
    exact absurd hother (not_or.mpr ⟨by simp [hcold], not_not.mpr hlast⟩)
  · obtain ⟨hcold, hlast⟩ := not_or.mp hother
    obtain ⟨rest, rfl⟩ := not_not.mp hlast
    have hlagging := lagging_of_fillLast hallValid hs hfind hsave
      (Bool.eq_false_of_not_eq_true hcold) rest
    obtain ⟨hstore, hcaches⟩ := caches_of_lagging hlagging hover
    have hold := Row.storable_document (hs.storable row (Store.mem_of_find? hfind))
    rw [hstore, coherent_iff_of_caches hrow hafter hold hcaches, ← or_assoc, or_iff_right hother]
    exact ⟨Iff.rfl, fun _ _ => hcaches⟩

/-- A rule for gold with a truth value as its mark is storable. -/
private theorem storable_markedRule (stackable : Bool) :
    (Value.list [markedRule (.bool stackable)]).Storable := by
  refine ⟨?_, rfl, _, rfl⟩
  simp [markedRule, Value.list, Value.WellFormed, Value.WellFormedItems,
    Value.WellFormedFields, Value.int]

/-- A payload with such a rule. -/
def markedPayload (stackable : Bool) : Payload where
  fields := postedMarked (.bool stackable)
  wellFormed := by
    simp [postedMarked, markedRule, Value.list, Value.WellFormed, Value.WellFormedItems,
      Value.WellFormedFields, Value.int]

/-- A service whose stored rule for gold is not stackable, with a cold cache. -/
def coldService : Service := holding [markedRule (.bool false)] []

/-- The cold cache is coherent. -/
private theorem coherent_coldService : Coherent coldService.store coldService.cache := by
  refine coherent_of_cold (fun _ => rfl) fun row hrow => ?_
  rw [List.mem_singleton.mp hrow]
  exact storable_markedRule false

/-- The request fills the cache before the update drops what is in it. -/
theorem coherent_cacheRace_fillFirst :
    ∃ row response s', Coherent coldService.store coldService.cache ∧
      coldService.store.find? (some ruleSet) = some row ∧
      PostedRules.of (markedPayload true).fields = .valid [markedRule (.bool true)] ∧
      (updateRules (markedPayload true).fields .shared).result coldService = (.ok response, s') ∧
      (cacheRace [markedRule (.bool true)] .shared coldService
        [.one, .one, .other, .one, .other, .other, .other]).IsOver ∧
      (Coherent
          (cacheRace [markedRule (.bool true)] .shared coldService
            [.one, .one, .other, .one, .other, .other, .other]).service.store
          (cacheRace [markedRule (.bool true)] .shared coldService
            [.one, .one, .other, .one, .other, .other, .other]).service.cache ↔
        isWarm coldService.now coldService.cache = true ∨
          ¬ fillLast <+: [.one, .one, .other, .one, .other, .other, .other] ∨
          s'.store.document? (some ruleSet) = some row.document) := by
  have hover : (cacheRace [markedRule (.bool true)] .shared coldService
      [.one, .one, .other, .one, .other, .other, .other]).IsOver := ⟨⟨_, rfl⟩, ⟨_, rfl⟩⟩
  have hvalid : PostedRules.of (markedPayload true).fields = .valid [markedRule (.bool true)] := rfl
  exact ⟨_, _, _, coherent_coldService, rfl, hvalid, rfl, hover,
    (coherent_cacheRace_iff coherent_coldService rfl hvalid rfl hover).1⟩

/-- The update saves and drops between the reading of the old document and the
filling of the cache with it, and the cache does not go with the store then. -/
theorem not_coherent_cacheRace_fillLast :
    ∃ row response s', Coherent coldService.store coldService.cache ∧
      coldService.store.find? (some ruleSet) = some row ∧
      PostedRules.of (markedPayload true).fields = .valid [markedRule (.bool true)] ∧
      (updateRules (markedPayload true).fields .shared).result coldService = (.ok response, s') ∧
      (cacheRace [markedRule (.bool true)] .shared coldService
        (fillLast ++ [.one, .other, .other])).IsOver ∧
      ¬ Coherent
          (cacheRace [markedRule (.bool true)] .shared coldService
            (fillLast ++ [.one, .other, .other])).service.store
          (cacheRace [markedRule (.bool true)] .shared coldService
            (fillLast ++ [.one, .other, .other])).service.cache := by
  have hover : (cacheRace [markedRule (.bool true)] .shared coldService
      (fillLast ++ [.one, .other, .other])).IsOver := ⟨⟨_, rfl⟩, ⟨_, rfl⟩⟩
  have hvalid : PostedRules.of (markedPayload true).fields = .valid [markedRule (.bool true)] := rfl
  refine ⟨_, _, _, coherent_coldService, rfl, hvalid, rfl, hover, fun hcoherent => ?_⟩
  have hsaved := Store.save_cases coldService.now
    (postedRequest [markedRule (.bool true)] .shared) coldService.store
  have hafter := hsaved.storable (storable_markedRule true).wellFormed
    coherent_coldService.storable
  have hsave : (Store.save coldService.now
      (postedRequest [markedRule (.bool true)] .shared)).result coldService.store = (.ok _, _) :=
    rfl
  have hlagging := lagging_of_fillLast (PostedRules.allValid_of_eq hvalid) coherent_coldService rfl
    hsave rfl [.one, .other, .other]
  obtain ⟨hstore, hcaches⟩ := caches_of_lagging hlagging hover
  rw [hstore] at hcoherent
  have hsame := (coherent_iff_of_caches rfl hafter
    (Row.storable_document (coherent_coldService.storable _ List.mem_cons_self)) hcaches).mp
    hcoherent
  cases hsame

end Loyalty.Service
