import Loyalty.Proofs.Service.Requests
import Loyalty.Proofs.Store.Seeding
import Loyalty.Proofs.Store.Taking

/-!
# Writes that fail

A save, a filling from a file and a start that fail leave the rows as they were,
unless they tear: the store takes what they ask for, and the rules cannot be counted
then. A list of rules never tears. The row that a torn start leaves cannot be gone
through, and no file is read again because of it, so no later start succeeds. What a
start has filled also stays when it fails behind that, because its reloads cannot be
scheduled or started.
-/

namespace Loyalty

/-- A file that asks for a request which tears where there is no row. -/
def RuleFile.Tears (file : RuleFile) (name : RuleSetName) : Prop :=
  ∃ request, file.asked name = .ok request ∧ request.Tears none

namespace Store

/-- What a write leaves that has failed: the rows as they were, or, if it tore, the row
of its name, stamped with its time, with rules that cannot be gone through. -/
structure Leaves (now : Instant) (name : RuleSetName) (tears : Prop) (store store' : Store) :
    Prop where
  unchanged : ¬ tears → store' = store
  written : tears → ∃ row, store'.find? name = some row ∧ row.updatedAt = now ∧
    ¬ row.rules.IsCountable

variable {now : Instant} {request : SaveRequest} {store store' : Store} {f : Fault}

private theorem leaves_saveOver {found : Option Row}
    (hfound : found = store.find? request.name ∨ found = none)
    (h : (saveOver now request found).result store = (.error f, store')) :
    Leaves now request.name (request.Tears found) store store' := by
  by_cases htaken : request.IsTaken found
  · obtain ⟨row, written, hresult, hfind, hstamp, hcountable⟩ :=
      @result_saveOver_of_isTaken now _ _ _ hfound htaken
    rw [hresult] at h
    obtain ⟨houtcome, rfl⟩ := Prod.mk.inj h
    have huncountable : ¬ request.rules.IsCountable := by
      rintro ⟨n, hcount⟩
      rw [hcount] at houtcome
      cases houtcome
    exact ⟨fun htears => absurd ⟨htaken, huncountable⟩ htears,
      fun _ => ⟨row, hfind, hstamp, fun hrow => huncountable (hcountable.mp hrow)⟩⟩
  · obtain ⟨f', hresult⟩ := @result_saveOver_of_not_isTaken now _ _ _ hfound htaken
    rw [hresult] at h
    cases h
    exact ⟨fun _ => rfl, fun htears => absurd htears.isTaken htaken⟩

/-- What a save leaves that has failed. -/
theorem leaves_save (h : (save now request).result store = (.error f, store')) :
    Leaves now request.name (request.Tears (store.find? request.name)) store store' := by
  rw [save, Action.result_get_bind] at h
  exact leaves_saveOver (.inl rfl) h

/-- What a save leaves that has lost a race and failed. -/
theorem leaves_saveAfterLostRace
    (h : (saveAfterLostRace now request).result store = (.error f, store')) :
    Leaves now request.name (request.Tears none) store store' := leaves_saveOver (.inr rfl) h

/-- What a filling from a file leaves that has failed. -/
theorem leaves_seed {name : RuleSetName} {file : RuleFile}
    (h : (seed now name file).result store = (.error f, store')) :
    Leaves now name (store.find? name = none ∧ file.Tears name) store store' := by
  cases hfind : store.find? name with
  | some row =>
    rw [seed_of_find? hfind] at h
    cases h
  | none =>
    rw [seed_of_find?_eq_none hfind] at h
    cases hasked : file.asked name with
    | error f =>
      rw [hasked] at h
      cases h
      refine ⟨fun _ => rfl, ?_⟩
      rintro ⟨-, request, hrequest, -⟩
      cases hasked.symm.trans hrequest
    | ok request =>
      rw [hasked] at h
      obtain ⟨hunchanged, hwritten⟩ := leaves_save h
      rw [RuleFile.name_of_asked hasked, hfind] at hunchanged hwritten
      refine ⟨fun htears => hunchanged fun htorn => htears ⟨rfl, request, hasked, htorn⟩, ?_⟩
      rintro ⟨-, request', hrequest, htorn⟩
      cases hasked.symm.trans hrequest
      exact hwritten htorn

end Store

namespace Service

variable {file : RuleFile} {seconds : Value} {s s' : Service} {f : Fault} {store : Store}

/-- Where the rule set is stored there is nothing to fill. -/
theorem filled_of_find? (file : RuleFile) {row : Row}
    (h : s.store.find? (some ruleSet) = some row) : filled file s = (.ok (), s.store) := by
  unfold filled
  split
  · rfl
  · rw [Store.seed_of_find? h]
    rfl

/-- Where the rule set is not stored, what the file asks for is saved. -/
theorem filled_of_asked {request : SaveRequest} (h : s.store.find? (some ruleSet) = none)
    (hasked : file.asked (some ruleSet) = .ok request) :
    filled file s = (((Store.save s.now request).result s.store).1.map fun _ => (),
      ((Store.save s.now request).result s.store).2) := by
  have hseed := @Store.seed_of_find?_eq_none _ s.now _ file h
  rw [hasked] at hseed
  unfold filled
  split
  · rename_i hcontents
    rw [RuleFile.asked, RuleFile.bytes, hcontents] at hasked
    cases hasked
  · rw [hseed]

/-- The rules of a store that was filled just now can be gone through. -/
theorem rules_of_filled (hnone : s.store.find? (some ruleSet) = none)
    (h : filled file s = (.ok (), store)) : ∃ rules, store.rules (some ruleSet) = .ok rules := by
  cases hasked : file.asked (some ruleSet) with
  | error f =>
    unfold filled at h
    split at h
    · cases h
      exact ⟨[], by rw [Store.rules, hnone]⟩
    · rw [Store.seed_of_find?_eq_none hnone, hasked] at h
      cases h
  | ok request =>
    rw [filled_of_asked hnone hasked] at h
    have hname := RuleFile.name_of_asked hasked
    have hsaved := Store.save_cases s.now request s.store
    cases hsave : (Store.save s.now request).result s.store with
    | mk outcome written =>
      rw [hsave] at hsaved h
      cases outcome with
      | error f => cases h
      | ok row =>
        cases h
        obtain ⟨hfind, ⟨old, hold, -⟩ | ⟨-, hstored⟩⟩ := hsaved.find? hname
        · rw [hnone] at hold
          cases hold
        · have hrow := (Value.isCountable_of_stored hstored).mpr hsaved.isCountable
          obtain ⟨items, hitems⟩ := Value.isCountable_iff.mp hrow
          exact ⟨items, by rw [Store.rules, hfind]; exact hitems⟩

/-- A service on which a start comes as far as to its reloads can start them. -/
def CanReload (s : Service) (seconds : Value) : Prop :=
  ((startReloads s.now seconds).result s.scheduler).1 = .ok ()

/-- A start fails because the store cannot be filled, because the stored rules cannot be
gone through, or because reloads cannot be started. -/
theorem startup_eq_error (h : (startup file seconds).result s = (.error f, s')) :
    filled file s = (.error f, s'.store) ∨
      filled file s = (.ok (), s'.store) ∧
        (s'.store.rules (some ruleSet) = .error f ∨ ¬ s.CanReload seconds) := by
  have hstarted := startup_cases file seconds s
  rw [h] at hstarted
  generalize hr : ((.error f, s') : Except Fault Unit × Service) = r at hstarted
  cases hstarted with
  | notFilled hfilled =>
    cases hr
    exact .inl hfilled
  | noRules hfilled hrules =>
    cases hr
    exact .inr ⟨hfilled, .inl hrules⟩
  | ready hfilled hrules hreloads =>
    cases hr
    refine .inr ⟨hfilled, .inr fun hcan => ?_⟩
    rw [CanReload, hreloads] at hcan
    cases hcan

/-- A start whose store cannot be filled ends with that fault. -/
theorem startup_of_filled_error (h : filled file s = (.error f, store)) :
    (startup file seconds).result s = (.error f, { s with store := store }) := by
  have hstarted := startup_cases file seconds s
  generalize (startup file seconds).result s = result at hstarted
  cases hstarted with
  | notFilled hfilled =>
    cases h.symm.trans hfilled
    rfl
  | noRules hfilled => cases h.symm.trans hfilled
  | ready hfilled => cases h.symm.trans hfilled

/-- A start succeeds if the store is filled, its rules can be gone through and reloads can
be started, and only then. -/
theorem exists_startup_iff : (∃ s', (startup file seconds).result s = (.ok (), s')) ↔
    (∃ store rules, filled file s = (.ok (), store) ∧ store.rules (some ruleSet) = .ok rules) ∧
      s.CanReload seconds := by
  have hstarted := startup_cases file seconds s
  generalize (startup file seconds).result s = result at hstarted
  cases hstarted with
  | notFilled hfilled => simp [hfilled]
  | noRules hfilled hrules => simp [hfilled, hrules]
  | ready hfilled hrules hreloads =>
    have hparts : ∃ store rules, filled file s = (.ok (), store) ∧
        store.rules (some ruleSet) = .ok rules := ⟨_, _, hfilled, hrules⟩
    rw [and_iff_right hparts, CanReload, hreloads]
    constructor
    · rintro ⟨s', hs'⟩
      exact (Prod.mk.inj hs').1
    · rintro rfl
      exact ⟨_, rfl⟩

/-- A store that cannot be filled cannot be filled from the file. -/
private theorem seed_of_filled (h : filled file s = (.error f, store)) :
    (Store.seed s.now (some ruleSet) file).result s.store = (.error f, store) := by
  unfold filled at h
  split at h
  · cases h
  · cases hseed : (Store.seed s.now (some ruleSet) file).result s.store with
    | mk outcome written =>
      rw [hseed] at h
      cases outcome with
      | error f =>
        cases h
        rfl
      | ok row => cases h

/-- What a start leaves that has failed: what a filling leaves that has failed, or, where
reloads cannot be started, a filled store. -/
theorem leaves_startup (h : (startup file seconds).result s = (.error f, s')) :
    Store.Leaves s.now (some ruleSet)
        (s.store.find? (some ruleSet) = none ∧ file.Tears (some ruleSet)) s.store s'.store ∨
      filled file s = (.ok (), s'.store) ∧ ¬ s.CanReload seconds := by
  rcases startup_eq_error h with hnot | ⟨hfilled, hrules | hreloads⟩
  · exact .inl (Store.leaves_seed (seed_of_filled hnot))
  -- The rules cannot be gone through only over a row that was there before.
  · left
    cases hfind : s.store.find? (some ruleSet) with
    | some row =>
      rw [filled_of_find? file hfind] at hfilled
      exact ⟨fun _ => (Prod.mk.inj hfilled).2.symm, fun ⟨hnone, _⟩ => by cases hnone⟩
    | none =>
      obtain ⟨rules, hrules'⟩ := rules_of_filled hfind hfilled
      rw [hrules] at hrules'
      cases hrules'
  · exact .inr ⟨hfilled, hreloads⟩

/-- A store that was filled where the rule set has no row was not torn. -/
theorem not_tears_of_filled (hnone : s.store.find? (some ruleSet) = none)
    (h : filled file s = (.ok (), store)) : ¬ file.Tears (some ruleSet) := by
  rintro ⟨request, hasked, htears⟩
  rw [filled_of_asked hnone hasked] at h
  have hname := RuleFile.name_of_asked hasked
  cases hsave : (Store.save s.now request).result s.store with
  | mk outcome written =>
    rw [hsave] at h
    cases outcome with
    | error f => cases h
    | ok row =>
      have hsaved := Store.save_cases s.now request s.store
      rw [hsave] at hsaved
      exact htears.2 hsaved.isCountable

/-- Where the rule set has no row, a start with a file that asks for a list and for
texts that fit succeeds if reloads can be started. -/
theorem exists_startup_of_list (hnone : s.store.find? (some ruleSet) = none)
    {request : SaveRequest} (hasked : file.asked (some ruleSet) = .ok request)
    {rules : List Value} (hrules : request.rules = .list rules)
    (hdescription : request.description.FitsColumn) (hversion : request.version.FitsColumn)
    (hreloads : s.CanReload seconds) :
    ∃ s', (startup file seconds).result s = (.ok (), s') := by
  have hname := RuleFile.name_of_asked hasked
  have hstored : ∃ v, request.rules.stored = .ok v :=
    Value.exists_stored_iff.mpr (RuleFile.isWritable_of_asked hasked)
  have htaken : request.IsTaken (s.store.find? request.name) :=
    ⟨by rw [hname]; exact Option.some_ne_none _, .inl hstored, hdescription, hversion⟩
  obtain ⟨row, store, hresult, -⟩ :=
    @Store.result_saveOver_of_isTaken s.now _ _ _ (.inl rfl) htaken
  have hsave : (Store.save s.now request).result s.store = (.ok row, store) := by
    rw [Store.save, Action.result_get_bind, hresult, hrules]
    rfl
  have hfilled : filled file s = (.ok (), store) := by
    rw [filled_of_asked hnone hasked, hsave]
    rfl
  obtain ⟨items, hitems⟩ := rules_of_filled hnone hfilled
  exact exists_startup_iff.mpr ⟨⟨store, items, hfilled, hitems⟩, hreloads⟩

/-- Where the rule set has a row that cannot be gone through, no start succeeds. -/
theorem not_exists_startup {row : Row} (hfind : s.store.find? (some ruleSet) = some row)
    (hrow : ¬ row.rules.IsCountable) :
    ¬ ∃ s', (startup file seconds).result s = (.ok (), s') := by
  rw [exists_startup_iff, filled_of_find? file hfind]
  rintro ⟨⟨_, rules, ⟨⟩, hrules⟩, -⟩
  rw [Store.rules, hfind] at hrules
  exact hrow (Value.isCountable_iff.mpr ⟨rules, hrules⟩)

/-- A rule file with a text. -/
def fileWith (text : String) : RuleFile := ⟨"rules.json", some text.toUTF8⟩

/-- What a file asks for whose text was written from an object. -/
theorem asked_fileWith {text : String} {fields : Fields}
    (hfields : (Value.object fields).WellFormed)
    (h : Json.written (.object fields) = .ok text.toList) :
    (fileWith text).asked (some ruleSet) =
      RuleFile.request (some ruleSet) (Json.reread (.object fields)) := by
  rw [RuleFile.asked, fileWith, RuleFile.bytes, ok_bind, RuleFile.document_toUTF8 hfields h]
  rfl

/-- A write that has failed, be it a save, with or without a lost race, a filling from
a file or a start, has left the rows as they were unless it tore, and a row that cannot
be gone through if it did; only a start that failed because of its reloads can have left
a store that is filled as its file asks. After a start without a row that has failed, a
start with a good file, which asks for a list and for texts that fit, succeeds exactly if
the first one did not tear and reloads can be started. -/
theorem leaves_of_failed_write (s : Service) :
    (∀ request store' f,
      (Store.save s.now request).result s.store = (.error f, store') →
        Store.Leaves s.now request.name (request.Tears (s.store.find? request.name)) s.store
          store') ∧
    (∀ request store' f,
      (Store.saveAfterLostRace s.now request).result s.store = (.error f, store') →
        Store.Leaves s.now request.name (request.Tears none) s.store store') ∧
    (∀ name file store' f,
      (Store.seed s.now name file).result s.store = (.error f, store') →
        Store.Leaves s.now name (s.store.find? name = none ∧ file.Tears name) s.store store') ∧
    (∀ file seconds s' f,
      (startup file seconds).result s = (.error f, s') →
        Store.Leaves s.now (some ruleSet)
            (s.store.find? (some ruleSet) = none ∧ file.Tears (some ruleSet)) s.store s'.store ∨
          filled file s = (.ok (), s'.store) ∧ ¬ s.CanReload seconds) ∧
    ∀ (bad good : RuleFile) (seconds seconds' : Value) (now : Instant) s' f request rules,
      s.store.find? (some ruleSet) = none →
      (startup bad seconds).result s = (.error f, s') →
      good.asked (some ruleSet) = .ok request → request.rules = .list rules →
      request.description.FitsColumn → request.version.FitsColumn →
        ((∃ s'', (startup good seconds').result { s' with now := now } = (.ok (), s'')) ↔
          ¬ bad.Tears (some ruleSet) ∧ CanReload { s' with now := now } seconds') := by
  refine ⟨fun _ _ _ => Store.leaves_save, fun _ _ _ => Store.leaves_saveAfterLostRace,
    fun _ _ _ _ => Store.leaves_seed, fun _ _ _ _ => leaves_startup, ?_⟩
  intro bad good seconds seconds' now s' f request rules hnone hfailed hasked hrules hdescription
    hversion
  have hrestarts : s'.store.find? (some ruleSet) = none →
      CanReload { s' with now := now } seconds' →
        ∃ s'', (startup good seconds').result { s' with now := now } = (.ok (), s'') :=
    fun hfind hreloads => @exists_startup_of_list _ _ { s' with now := now } hfind _ hasked _
      hrules hdescription hversion hreloads
  rcases leaves_startup hfailed with ⟨hunchanged, hwritten⟩ | ⟨hfilled, -⟩
  · constructor
    · intro hstarts
      refine ⟨fun htorn => ?_, (exists_startup_iff.mp hstarts).2⟩
      obtain ⟨row, hrow, -, huncountable⟩ := hwritten ⟨hnone, htorn⟩
      exact @not_exists_startup _ _ { s' with now := now } _ hrow huncountable hstarts
    · rintro ⟨htears, hreloads⟩
      refine hrestarts ?_ hreloads
      rw [hunchanged fun htorn => htears htorn.2, hnone]
  · -- The store was filled, and nothing is filled again.
    rw [and_iff_right (not_tears_of_filled hnone hfilled)]
    constructor
    · exact fun hstarts => (exists_startup_iff.mp hstarts).2
    · intro hreloads
      cases hfind : s'.store.find? (some ruleSet) with
      | none => exact hrestarts hfind hreloads
      | some row =>
        obtain ⟨items, hitems⟩ := rules_of_filled hnone hfilled
        exact exists_startup_iff.mpr
          ⟨⟨_, items, @filled_of_find? { s' with now := now } good row hfind, hitems⟩, hreloads⟩

/-- A rule file with an empty list of rules. -/
def emptyRules : RuleFile := fileWith "\x7b\"rules\": []\x7d"

/-- What this file asks for. -/
theorem asked_emptyRules : emptyRules.asked (some ruleSet) =
    .ok { SaveRequest.ofRules (some ruleSet) (.list []) with nan := .shared } :=
  @asked_fileWith _ [("rules", .list [])]
    (by simp [Value.list, Value.WellFormed, Value.WellFormedItems, Value.WellFormedFields]) rfl

/-- A rule file with a list in the place of its description. -/
def listedDescription : RuleFile := fileWith "\x7b\"description\": [], \"rules\": []\x7d"

/-- A first start with a description that the column refuses fails; then a start with a
good file succeeds. -/
theorem leaves_of_failed_write_listedDescription :
    ∃ s' s'', (startup listedDescription (.int 0)).result (fresh .first) =
        (.error (.notStorable .list), s') ∧
      (startup emptyRules (.int 0)).result { s' with now := ⟨1, by decide⟩ } = (.ok (), s'') := by
  have hbad : listedDescription.asked (some ruleSet) =
      .ok ⟨some ruleSet, .list [], .list [], .text SaveRequest.defaultVersion, .shared⟩ :=
    @asked_fileWith _ [("description", .list []), ("rules", .list [])]
      (by simp [Value.list, Value.WellFormed, Value.WellFormedItems, Value.WellFormedFields]) rfl
  have hfilled : filled listedDescription (fresh .first) =
      (.error (.notStorable .list), .empty) := by
    rw [filled_of_asked rfl hbad]
    rfl
  have hfailed := @startup_of_filled_error _ (.int 0) _ _ _ hfilled
  have htears : ¬ listedDescription.Tears (some ruleSet) := by
    rintro ⟨request, hasked, -, huncountable⟩
    cases hbad.symm.trans hasked
    exact huncountable ⟨0, rfl⟩
  obtain ⟨s'', hstarts⟩ := ((leaves_of_failed_write (fresh .first)).2.2.2.2
    listedDescription emptyRules (.int 0) (.int 0) ⟨1, by decide⟩ _ _ _ [] rfl hfailed
    asked_emptyRules rfl ⟨_, rfl⟩ ⟨_, rfl⟩).mpr ⟨htears, rfl⟩
  exact ⟨_, s'', hfailed, hstarts⟩

/-- A rule file with null in the place of its rules. -/
def nullRules : RuleFile := fileWith "\x7b\"rules\": null\x7d"

/-- What this file asks for. -/
theorem asked_nullRules : nullRules.asked (some ruleSet) =
    .ok { SaveRequest.ofRules (some ruleSet) .null with nan := .shared } :=
  @asked_fileWith _ [("rules", .null)] (by simp [Value.WellFormed, Value.WellFormedFields]) rfl

/-- A first start with this file leaves a row though it fails, and no later start
succeeds, whenever it is and whatever file it has. -/
theorem not_recovers_nullRules :
    ∃ s', (startup nullRules (.int 0)).result (fresh .first) =
        (.error (.noLength .null), s') ∧ s'.store ≠ (fresh .first).store ∧
      ∀ good seconds (now : Instant),
        ¬ ∃ s'', (startup good seconds).result { s' with now := now } = (.ok (), s'') := by
  have hsave : ∃ row, (Store.save .first
      { SaveRequest.ofRules (some ruleSet) .null with nan := .shared }).result .empty =
        (.error (.noLength .null), ⟨[row]⟩) ∧ row.name = ruleSet ∧ row.rules = .null :=
    ⟨_, rfl, rfl, rfl⟩
  obtain ⟨row, hsave, hname, hnull⟩ := hsave
  have hfilled : filled nullRules (fresh .first) = (.error (.noLength .null), ⟨[row]⟩) := by
    have hasked := @filled_of_asked nullRules (fresh .first) _ rfl asked_nullRules
    exact hasked.trans (by rw [fresh, hsave]; rfl)
  refine ⟨_, startup_of_filled_error hfilled, ?_, fun good seconds now => ?_⟩
  · intro hsame
    cases congrArg Store.rows hsame
  · have hfind : Store.find? ⟨[row]⟩ (some ruleSet) = some row := by
      simp [Store.find?, hname]
    refine not_exists_startup hfind ?_
    rw [hnull]
    rintro ⟨n, hcount⟩
    cases hcount

end Service

end Loyalty
