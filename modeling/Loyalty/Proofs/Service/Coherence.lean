import Loyalty.Proofs.Cache
import Loyalty.Proofs.Service.History
import Loyalty.Proofs.Service.Requests
import Loyalty.Proofs.Store.Seeding

/-!
# Coherence of the cache

What the cache holds for the rule set is the text of the document that is stored
at that moment. Every request keeps this: a start fills only an empty store, an
update drops the cached document after it has written the row, and the other
requests write no row. So the rules shown are always the stored ones, and they come
from the cache as long as the document is kept that was put in there last, unless
an update came after it.
-/

namespace Loyalty

namespace Service

open Loyalty.Action

/-- The rules of all rows are storable, and a text that is cached for the rule set
is the text of its stored document. -/
structure Coherent (store : Store) (cache : Cache) : Prop where
  storable : ∀ row ∈ store.rows, row.rules.Storable
  cached : ∀ now entry, cache.find? now (Cache.documentKey ruleSet) = some entry →
    ∃ row text, store.find? (some ruleSet) = some row ∧
      Json.written row.document = .ok text ∧ entry.text = String.ofList text

/-- Nothing stored and nothing cached is coherent. -/
theorem coherent_empty : Coherent .empty .empty := by
  constructor
  · intro row hrow
    cases hrow
  · intro now entry hentry
    cases hentry

/-- Whether a document of the rule set is cached at an instant. -/
def isWarm (now : Instant) (cache : Cache) : Bool :=
  (cache.find? now (Cache.documentKey ruleSet)).isSome

/-- A cache without a document of the rule set goes with every store whose rules
are storable. -/
theorem coherent_of_cold {store : Store} {cache : Cache} (hcold : ∀ now, isWarm now cache = false)
    (hstore : ∀ row ∈ store.rows, row.rules.Storable) : Coherent store cache := by
  refine ⟨hstore, fun now entry hentry => ?_⟩
  have hwarm : isWarm now cache = true := by
    rw [isWarm, hentry]
    rfl
  cases (hcold now).symm.trans hwarm

/-- Right after it was put in, and for as long as it is kept, a document warms the cache. -/
theorem isWarm_put (start now : Instant) (text : List Char) (cache : Cache) :
    isWarm now (cache.put (Cache.documentEntry start ruleSet text)) =
      (Lifetime.mk start Cache.documentLifetime).reaches now := by
  have hput := @Cache.find?_put_self now (Cache.documentEntry start ruleSet text) cache
  have hlive : (Cache.documentEntry start ruleSet text).isLive now =
      (Lifetime.mk start Cache.documentLifetime).reaches now := rfl
  rw [isWarm]
  refine (congrArg Option.isSome hput).trans ?_
  rw [hlive]
  cases (Lifetime.mk start Cache.documentLifetime).reaches now with
  | true => rfl
  | false => rfl

/-- A dropped document does not warm the cache. -/
theorem isWarm_erase (now : Instant) (cache : Cache) :
    isWarm now (cache.erase (Cache.documentKey ruleSet)) = false := by
  rw [isWarm, Cache.find?_erase_self]
  rfl

/-- The text of the stored document may be put into the cache. -/
theorem Coherent.put {store : Store} {cache : Cache} (h : Coherent store cache) {row : Row}
    (hrow : store.find? (some ruleSet) = some row) {text : List Char}
    (htext : Json.written row.document = .ok text) (start : Instant) :
    Coherent store (cache.put (Cache.documentEntry start ruleSet text)) := by
  refine ⟨h.storable, fun now entry hentry => ?_⟩
  have hput := @Cache.find?_put_self now (Cache.documentEntry start ruleSet text) cache
  have hsame := hput.symm.trans hentry
  split at hsame
  · cases hsame
    exact ⟨row, text, hrow, htext, rfl⟩
  · cases hsame

/-- Where nothing is stored nothing is cached. -/
theorem Coherent.isWarm_of_find? {store : Store} {cache : Cache} (h : Coherent store cache)
    (hnone : store.find? (some ruleSet) = none) (now : Instant) :
    isWarm now cache = false := by
  cases hentry : cache.find? now (Cache.documentKey ruleSet) with
  | none =>
    rw [isWarm, hentry]
    rfl
  | some entry =>
    obtain ⟨row, _, hrow, -⟩ := h.cached now entry hentry
    rw [hrow] at hnone
    cases hnone

/-- Filling the store from a file keeps the cache coherent. -/
theorem coherent_seed {store : Store} {cache : Cache} (h : Coherent store cache) (now : Instant)
    (file : RuleFile) :
    Coherent ((Store.seed now (some ruleSet) file).result store).2 cache := by
  cases hfind : store.find? (some ruleSet) with
  | some row =>
    rw [Store.seed_of_find? hfind]
    exact h
  | none =>
    exact coherent_of_cold (h.isWarm_of_find? hfind)
      (Store.storable_seed h.storable now (some ruleSet) file)

/-- The cached document is the stored one if there is any. -/
private theorem result_document {store : Store} {cache : Cache} (h : Coherent store cache)
    (now : Instant) : (Cache.document now ruleSet).result cache =
      (.ok (if isWarm now cache then store.document? (some ruleSet) else none), cache) := by
  cases hentry : cache.find? now (Cache.documentKey ruleSet) with
  | none =>
    have hcold : isWarm now cache = false := by
      rw [isWarm, hentry]
      rfl
    rw [Cache.document, result_get_bind]
    simp only [hentry, result_note_bind, result_pure, hcold, Bool.false_eq_true, if_false]
  | some entry =>
    have hwarm : isWarm now cache = true := by
      rw [isWarm, hentry]
      rfl
    obtain ⟨row, text, hrow, htext, hentry_text⟩ := h.cached now entry hentry
    have hstorable := Row.storable_document (h.storable row (Store.mem_of_find? hrow))
    have hread : Json.read entry.text = .ok row.document := by
      rw [hentry_text]
      exact hstorable.read_written htext
    rw [result, Cache.document_of_read hentry hread, hwarm, Store.document?_of_find? hrow]
    rfl

/-- The answer that the rule set has no row. -/
def notFound : Response :=
  ⟨404, .object [("error", .text ("Rule set '" ++ ruleSet ++ "' not found"))]⟩

section GetRules

variable {s : Service}

/-- A look into the cache finds the stored document if the cache is warm. -/
theorem result_cachedDocument (h : Coherent s.store s.cache) :
    cachedDocument.result s =
      (.ok (if isWarm s.now s.cache then s.store.document? (some ruleSet) else none), s) := by
  have honCache : (onCache (Cache.document s.now ruleSet)).result s =
      (.ok (if isWarm s.now s.cache then s.store.document? (some ruleSet) else none), s) := by
    rw [onCache, result_on, result_document h]
  have hnull : ∀ document, s.store.document? (some ruleSet) = some document →
      document ≠ .null := by
    intro document hdocument
    obtain ⟨row, _, rfl⟩ := Option.map_eq_some_iff.mp hdocument
    exact fun h => by cases h
  rw [cachedDocument, result_get_bind, result_bind_of_ok honCache]
  split
  · rename_i hsome
    split at hsome
    · exact absurd rfl (hnull _ hsome)
    · cases hsome
  · rfl

/-- Where nothing is stored, that is the answer. -/
theorem getRules_of_none (h : Coherent s.store s.cache)
    (hfind : s.store.find? (some ruleSet) = none) : getRules.result s = (.ok notFound, s) := by
  have hdocument : s.store.document? (some ruleSet) = none :=
    Store.document?_of_find? hfind
  have hcached := result_cachedDocument h
  rw [h.isWarm_of_find? hfind, if_neg (by decide)] at hcached
  rw [getRules, result_bind_of_ok hcached]
  simp only [result_get_bind, hdocument]
  rfl

/-- A cached document is shown from the cache; it is the stored one. -/
theorem getRules_of_warm (h : Coherent s.store s.cache) {row : Row}
    (hfind : s.store.find? (some ruleSet) = some row) (hwarm : isWarm s.now s.cache = true) :
    getRules.result s = (.ok (documentFrom "cache" row.document), s) := by
  have hdocument : s.store.document? (some ruleSet) = some row.document :=
    Store.document?_of_find? hfind
  have hcached := result_cachedDocument h
  rw [hwarm, if_pos rfl, hdocument] at hcached
  rw [getRules, result_bind_of_ok hcached]
  rfl

/-- A document that is not cached is shown from the store, and its text cached. -/
theorem getRules_of_cold (h : Coherent s.store s.cache) {row : Row}
    (hfind : s.store.find? (some ruleSet) = some row) (hcold : isWarm s.now s.cache = false) :
    ∃ text, Json.written row.document = .ok text ∧
      getRules.result s = (.ok (documentFrom "db" row.document),
        { s with cache := s.cache.put (Cache.documentEntry s.now ruleSet text) }) := by
  have hdocument : s.store.document? (some ruleSet) = some row.document :=
    Store.document?_of_find? hfind
  have hcached := result_cachedDocument h
  rw [hcold, if_neg (by decide)] at hcached
  have hstorable := Row.storable_document (h.storable row (Store.mem_of_find? hfind))
  obtain ⟨text, htext⟩ := hstorable.exists_written
  refine ⟨text, htext, ?_⟩
  rw [getRules, result_bind_of_ok hcached]
  simp only [result_get_bind, hdocument]
  rw [result_bind_of_ok (result_keep htext s.now s)]
  rfl

end GetRules

/-- When the cache is warm after an event: as long as what it was filled with then is kept, or,
unless that or an update was the event, when it was warm before. -/
def WarmAfter (warm : Instant → Prop) (e : Served) (now : Instant) : Prop :=
  (e.FilledCache ∧ (Lifetime.mk e.instant Cache.documentLifetime).reaches now = true) ∨
    (¬ e.FilledCache ∧ e.updatedRules = false ∧ warm now)

/-- A coherent cache that is warm at certain instants. -/
private def WarmAt (warm : Instant → Prop) (store : Store) (cache : Cache) : Prop :=
  Coherent store cache ∧ ∀ now, isWarm now cache = true ↔ warm now

/-- A coherent cache that is as warm as another one. -/
private def StillWarm (before : Cache) (store : Store) (cache : Cache) : Prop :=
  Coherent store cache ∧ ∀ now, isWarm now cache = isWarm now before

/-- A cache that an event leaves as it is stays as warm as it was. -/
private theorem warmAt_of_stillWarm {store : Store} {before cache : Cache} {e : Served}
    (h : StillWarm before store cache) (hfilled : ¬ e.FilledCache)
    (hupdated : e.updatedRules = false) :
    WarmAt (WarmAfter (fun now => isWarm now before = true) e) store cache := by
  refine ⟨h.1, fun now => ?_⟩
  simp [WarmAfter, hfilled, hupdated, h.2 now]

private theorem warmAt_of_preserves {α : Type} {action : Action Service α} {s : Service}
    (hs : Coherent s.store s.cache) {e : Served} (hrequest : e.request ≠ .getRules)
    (hupdated : e.updatedRules = false)
    (h : Preserves (fun s' => StillWarm s.cache s'.store s'.cache) action) :
    WarmAt (WarmAfter (fun now => isWarm now s.cache = true) e) (action.result s).2.store
      (action.result s).2.cache :=
  warmAt_of_stillWarm (h s ⟨hs, fun _ => rfl⟩) (fun hfilled => hrequest hfilled.1) hupdated

private theorem warmAt_updateRules {s : Service} (hs : Coherent s.store s.cache)
    (payload : Payload) (nan : Identity) :
    WarmAt (WarmAfter (fun now => isWarm now s.cache = true) ⟨s.now, .updateRules payload nan,
        ((Request.updateRules payload nan).run.result s).1⟩)
      ((Request.updateRules payload nan).run.result s).2.store
      ((Request.updateRules payload nan).run.result s).2.cache := by
  have hrun : ∀ outcome s', (updateRules payload.fields nan).result s = (outcome, s') →
      (Request.updateRules payload nan).run.result s = (outcome.map some, s') := by
    rintro (f | response) s' h
    · exact result_bind_of_error h _
    · exact result_bind_of_ok h _
  have hnot : ∀ outcome, ¬ Served.FilledCache ⟨s.now, .updateRules payload nan, outcome⟩ := by
    rintro outcome ⟨⟨⟩, -⟩
  rcases updateRules_cases payload.fields nan s with
    ⟨hstate, hstatus⟩ | ⟨rules, row, store, hrules, hsaved, hresult⟩
  · cases hresult : (updateRules payload.fields nan).result s with
    | mk outcome s' =>
      rw [hresult] at hstate hstatus
      have hstate : s' = s := hstate
      subst hstate
      rw [hrun _ _ hresult]
      refine warmAt_of_stillWarm ⟨hs, fun _ => rfl⟩ (hnot _) ?_
      cases outcome with
      | error f => rfl
      | ok response =>
        have hstatus := hstatus response rfl
        simp only [Served.updatedRules, Served.succeeded, Except.map, hstatus]
        rfl
  · rw [hrun _ _ hresult]
    have hposted : (Value.list rules).WellFormed := hrules ▸ payload.wellFormed_get "rules"
    have hcold := fun now => isWarm_erase now s.cache
    refine ⟨coherent_of_cold hcold (hsaved.storable hposted hs.storable), fun now => ?_⟩
    refine iff_of_false (by simp [updated, hcold now]) ?_
    rintro (⟨hfilled, -⟩ | ⟨-, hupdated, -⟩)
    · exact hnot _ hfilled
    · cases hupdated

private theorem warmAt_getRules {s : Service} (hs : Coherent s.store s.cache) :
    WarmAt (WarmAfter (fun now => isWarm now s.cache = true)
        ⟨s.now, .getRules, (Request.getRules.run.result s).1⟩)
      (Request.getRules.run.result s).2.store (Request.getRules.run.result s).2.cache := by
  have hrun : ∀ response s', getRules.result s = (.ok response, s') →
      Request.getRules.run.result s = (.ok (some response), s') :=
    fun _ _ h => result_bind_of_ok h _
  cases hfind : s.store.find? (some ruleSet) with
  | none =>
    rw [hrun _ _ (getRules_of_none hs hfind)]
    refine warmAt_of_stillWarm ⟨hs, fun _ => rfl⟩ ?_ rfl
    rintro ⟨-, document, ⟨⟩⟩
  | some row =>
    cases hwarm : isWarm s.now s.cache with
    | true =>
      rw [hrun _ _ (getRules_of_warm hs hfind hwarm)]
      refine warmAt_of_stillWarm ⟨hs, fun _ => rfl⟩ ?_ rfl
      rintro ⟨-, document, h⟩
      simp [documentFrom, Response.ok] at h
    | false =>
      obtain ⟨text, htext, hresult⟩ := getRules_of_cold hs hfind hwarm
      rw [hrun _ _ hresult]
      have hfilled : Served.FilledCache
          ⟨s.now, .getRules, .ok (some (documentFrom "db" row.document))⟩ := ⟨rfl, _, rfl⟩
      refine ⟨hs.put hfind htext s.now, fun now => ?_⟩
      simp [WarmAfter, hfilled, isWarm_put]

private theorem warmAt_run {s : Service} (hs : Coherent s.store s.cache) (request : Request) :
    WarmAt (WarmAfter (fun now => isWarm now s.cache = true)
        ⟨s.now, request, (request.run.result s).1⟩)
      (request.run.result s).2.store (request.run.result s).2.cache := by
  cases request with
  | startup file reloadSeconds =>
    refine warmAt_of_preserves hs nofun rfl (Preserves.bind (preserves_startup ?_ _) fun _ =>
      preserves_pure _)
    rintro now store cache ⟨hcoherent, hwarm⟩
    exact ⟨coherent_seed hcoherent now file, hwarm⟩
  | updateRules payload nan => exact warmAt_updateRules hs payload nan
  | validate payload =>
    exact warmAt_of_preserves hs nofun rfl
      (Preserves.bind (preserves_validate _) fun _ => preserves_pure _)
  | calculate payload now =>
    exact warmAt_of_preserves hs nofun rfl
      (Preserves.bind (preserves_calculate _ _) fun _ => preserves_pure _)
  | health =>
    exact warmAt_of_preserves hs nofun rfl
      (Preserves.bind preserves_health fun _ => preserves_pure _)
  | getRules => exact warmAt_getRules hs
  | reload name outOfOrder =>
    exact warmAt_of_preserves hs nofun rfl
      (Preserves.bind (preserves_reload _ _) fun _ => preserves_pure _)

/-- Every call keeps the cache coherent, and its event tells when the cache is warm
after it. -/
theorem coherent_serve {s : Service} (hs : Coherent s.store s.cache) (call : Call) :
    Coherent (call.serve s).2.store (call.serve s).2.cache ∧
      ∀ now, isWarm now (call.serve s).2.cache = true ↔
        WarmAfter (fun now => isWarm now s.cache = true)
          ⟨call.instant, call.request, (call.serve s).1⟩ now :=
  @warmAt_run { s with now := call.instant } hs call.request

/-- After every history the cache is coherent, and warm exactly while the document is kept
that it was last filled with, unless there was an update since. -/
theorem coherent_history (start : Instant) (calls : List Call) :
    Coherent (History.of start calls).state.store (History.of start calls).state.cache ∧
      ∀ now, isWarm now (History.of start calls).state.cache = true ↔
        KeptSinceUpdate now (History.of start calls).events := by
  refine History.induction (P := fun h => Coherent h.state.store h.state.cache ∧
    ∀ now, isWarm now h.state.cache = true ↔ KeptSinceUpdate now h.events) ?_ ?_ calls
  · exact ⟨coherent_empty, fun now => iff_of_false Bool.false_ne_true not_keptSinceUpdate_nil⟩
  · rintro h call ⟨hcoherent, hwarm⟩
    obtain ⟨hkept, hafter⟩ := coherent_serve hcoherent call
    refine ⟨hkept, fun now => ?_⟩
    rw [History.extend, hafter, WarmAfter, keptSinceUpdate_append, hwarm]

/-- What a request for the rules is answered by a service that has a history: that there are
none, or the stored document, from the cache if it is warm at that moment. -/
theorem serve_getRules (start : Instant) (calls : List Call) (now : Instant) :
    (Call.serve ⟨now, .getRules⟩ (History.of start calls).state).1 =
      .ok (some (match (History.of start calls).state.store.document? (some ruleSet) with
        | none => notFound
        | some document =>
          documentFrom (if isWarm now (History.of start calls).state.cache then "cache" else "db")
            document)) := by
  obtain ⟨hcoherent, -⟩ := coherent_history start calls
  generalize History.of start calls = h at hcoherent ⊢
  have hrun : ∀ response s', getRules.result { h.state with now := now } = (.ok response, s') →
      (Call.serve ⟨now, .getRules⟩ h.state).1 = .ok (some response) := by
    intro response s' hresult
    exact congrArg Prod.fst (result_bind_of_ok hresult fun response => pure (some response))
  have hcoherent : Coherent { h.state with now := now }.store { h.state with now := now }.cache :=
    hcoherent
  cases hfind : h.state.store.find? (some ruleSet) with
  | none =>
    rw [Store.document?_of_find? hfind]
    exact hrun _ _ (getRules_of_none hcoherent hfind)
  | some row =>
    rw [Store.document?_of_find? hfind]
    cases hwarm : isWarm now h.state.cache with
    | true => exact hrun _ _ (getRules_of_warm hcoherent hfind hwarm)
    | false =>
      obtain ⟨text, -, hresult⟩ := getRules_of_cold hcoherent hfind hwarm
      exact hrun _ _ hresult

/-- Whatever a fresh service was asked before, in any order and at any time, it shows that
there are no rules if none are stored, and otherwise the document that is stored at that
moment, from the cache or from the store. It comes from the cache exactly while that which
was last shown from the store is kept, if there was no update since. -/
theorem getRules_shows_stored (start : Instant) (calls : List Call) (now : Instant) :
    match (History.of start calls).state.store.document? (some ruleSet) with
    | none => (Call.serve ⟨now, .getRules⟩ (History.of start calls).state).1 = .ok (some notFound)
    | some document => ∃ source,
        (Call.serve ⟨now, .getRules⟩ (History.of start calls).state).1 =
          .ok (some (documentFrom source document)) ∧
        (source = "cache" ∨ source = "db") ∧
        (source = "cache" ↔ KeptSinceUpdate now (History.of start calls).events) := by
  have hserve := serve_getRules start calls now
  have hwarm := (coherent_history start calls).2 now
  cases hdocument : (History.of start calls).state.store.document? (some ruleSet) with
  | none => rwa [hdocument] at hserve
  | some document =>
    rw [hdocument] at hserve
    refine ⟨_, hserve, ?_⟩
    rw [← hwarm]
    cases isWarm now (History.of start calls).state.cache with
    | true => simp
    | false => simp

/-- A fresh service that is given no rules, and shows them at the same instant. -/
def shownOnce : List Call :=
  [⟨.first, .updateRules ⟨[("rules", .list [])], by
      simp [Value.WellFormed, Value.WellFormedFields, Value.WellFormedItems, Value.list]⟩ .shared⟩,
    ⟨.first, .getRules⟩]

/-- A second after the lifetime of what was shown, the rules are shown from the store again. -/
theorem not_fromCache_late :
    ShownSinceUpdate (History.of .first shownOnce).events ∧
      ∃ document, (Call.serve ⟨⟨301000000, by decide⟩, .getRules⟩
        (History.of .first shownOnce).state).1 = .ok (some (documentFrom "db" document)) :=
  ⟨⟨[_], _, [], rfl, rfl, List.forall_mem_nil _⟩, _, rfl⟩

end Service

end Loyalty
