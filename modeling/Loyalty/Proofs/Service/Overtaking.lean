import Loyalty.Proofs.Service.Coherence
import Loyalty.Proofs.Service.Convergence
import Loyalty.Proofs.Service.Steps

/-!
# A reload beside an update

A reload reads the stored row in one step and brings the engine to it in another.
If the update gives its rules to the engine in between, the reload brings the
engine to the row that it read before: the engine keeps the posted rules only if
that row does not overturn them. In every other order the engine ends with the
posted rules, since the row is compared before they are loaded.
-/

namespace Loyalty

/-- A row overturns posted rules if a reload from it takes them off the engine: its
rules are other ones, and not loosely equal to them. -/
def Row.Overturns (row : Row) (rules : List Value) (nan : Identity) : Prop :=
  ∃ items, row.rules.elements = .ok items ∧ Value.looseEqItems nan .shared items rules = false ∧
    items ≠ rules

namespace Service

open Loyalty.Action

/-- A reload and an update beside it. -/
abbrev ReloadRace := Race ReloadPhase Bool UpdatePhase Response

/-- A reload and an update with some rules after some turns. -/
def reloadRace (rules : List Value) (nan : Identity) (s : Service) (turns : List Turn) :
    ReloadRace :=
  Race.run (ReloadPhase.step (some ruleSet)) (UpdatePhase.step rules nan)
    ⟨.at .read, .at .save, s⟩ turns

/-- Whether the other party makes its next `n` steps before the one makes its next
`m` steps. -/
def outruns : Nat → Nat → List Turn → Bool
  | 0, _, _ => true
  | _ + 1, 0, _ => false
  | _ + 1, _ + 1, [] => false
  | n + 1, m + 1, .other :: turns => outruns n (m + 1) turns
  | n + 1, m + 1, .one :: turns => outruns (n + 1) m turns

/-- The engine after it was brought to the rules of a row. -/
def broughtTo (row : Row) (engine : Engine) : Engine :=
  match row.rules.elements with
  | .ok items => reloaded items engine
  | .error _ => engine

/-- A reload from a row changes the engine alone. -/
theorem reloadFrom_state {row : Row} {name : RuleSetName} {s : Service} {engine : Engine}
    (hengine : s.engine = some engine) :
    ((reloadFrom row name s.engine).result s).2 =
      { s with engine := some (broughtTo row engine) } := by
  rw [broughtTo]
  cases helements : row.rules.elements with
  | error f =>
    rw [reloadFrom, helements, ← hengine]
    rfl
  | ok items => rw [result_reloadFrom helements hengine]

/-- An engine keeps its rules unless the row overturns them. -/
theorem rules_broughtTo_iff {row : Row} {engine : Engine} :
    (broughtTo row engine).rules = engine.rules ↔ ¬ row.Overturns engine.rules engine.nan := by
  cases helements : row.rules.elements with
  | error f =>
    rw [broughtTo, helements]
    refine iff_of_true rfl ?_
    rintro ⟨items, hitems, -⟩
    cases helements.symm.trans hitems
  | ok items =>
    rw [broughtTo, helements]
    simp only [reloaded]
    have hoverturns : row.Overturns engine.rules engine.nan ↔
        upToDate items engine = false ∧ items ≠ engine.rules := by
      constructor
      · rintro ⟨items', hitems', h⟩
        cases helements.symm.trans hitems'
        exact h
      · exact fun h => ⟨items, helements, h⟩
    rw [hoverturns]
    cases upToDate items engine with
    | true => simp
    | false => simp

/-- The service has an engine with some rules. -/
def HasRules (rules : List Value) (nan : Identity) (s : Service) : Prop :=
  ∃ engine, s.engine = some engine ∧ engine.rules = rules ∧ engine.nan = nan

/-- How many steps an update has to make until it has loaded its rules. -/
def toLoad : Progress UpdatePhase Response → Nat
  | .at .save => 3
  | .at .drop => 2
  | .at .load => 1
  | .at .answer => 0
  | .ended _ => 0

/-- What holds of a service where the update stands, as long as no reload changes
the engine behind the load. -/
def Stands (before : Service) (after : Store) (rules : List Value) (nan : Identity)
    (s : Service) : Progress UpdatePhase Response → Prop
  | .at .save => s.store = before.store ∧ s.now = before.now ∧ ∃ engine, s.engine = some engine
  | .at .drop => s.store = after ∧ ∃ engine, s.engine = some engine
  | .at .load => s.store = after ∧ ∃ engine, s.engine = some engine
  | .at .answer => s.store = after ∧ HasRules rules nan s
  | .ended _ => s.store = after ∧ HasRules rules nan s

section Races

variable {before s : Service} {after : Store} {saved row : Row} {rules : List Value}
  {nan : Identity} {update : Progress UpdatePhase Response}

/-- This holds where an update begins. -/
theorem stands_start {engine : Engine} (hengine : s.engine = some engine) :
    Stands s after rules nan s (.at .save) := ⟨rfl, rfl, engine, hengine⟩

/-- There is an engine wherever the update stands. -/
theorem Stands.exists_engine (h : Stands before after rules nan s update) :
    ∃ engine, s.engine = some engine := by
  match update, h with
  | .at .save, h => exact h.2.2
  | .at .drop, h => exact h.2
  | .at .load, h => exact h.2
  | .at .answer, ⟨_, engine, hengine, _⟩ => exact ⟨engine, hengine⟩
  | .ended _, ⟨_, engine, hengine, _⟩ => exact ⟨engine, hengine⟩

/-- The store is the new one after the save. -/
theorem Stands.store_eq (h : Stands before after rules nan s update)
    (hupdate : update ≠ .at .save) : s.store = after := by
  match update, h with
  | .at .save, _ => exact absurd rfl hupdate
  | .at .drop, h => exact h.1
  | .at .load, h => exact h.1
  | .at .answer, h => exact h.1
  | .ended _, h => exact h.1

/-- The engine has the posted rules after the load. -/
theorem Stands.hasRules (h : Stands before after rules nan s update)
    (hupdate : toLoad update = 0) : HasRules rules nan s := by
  match update, h with
  | .at .answer, h => exact h.2
  | .ended _, h => exact h.2

/-- Before the load it does not matter which engine there is. -/
theorem Stands.change_engine (h : Stands before after rules nan s update)
    (hupdate : toLoad update ≠ 0) (engine : Engine) :
    Stands before after rules nan { s with engine := some engine } update := by
  match update, h with
  | .at .save, h => exact ⟨h.1, h.2.1, engine, rfl⟩
  | .at .drop, h => exact ⟨h.1, engine, rfl⟩
  | .at .load, h => exact ⟨h.1, engine, rfl⟩
  | .at .answer, _ => exact absurd rfl hupdate
  | .ended _, _ => exact absurd rfl hupdate

/-- A step of the update brings it nearer to the load. -/
theorem Stands.advance (hvalid : AllValid rules)
    (hsave : (Store.save before.now (postedRequest rules nan)).result before.store =
      (.ok saved, after)) (h : Stands before after rules nan s update) :
    Stands before after rules nan (Progress.advance (UpdatePhase.step rules nan) (update, s)).2
        (Progress.advance (UpdatePhase.step rules nan) (update, s)).1 ∧
      toLoad (Progress.advance (UpdatePhase.step rules nan) (update, s)).1 = toLoad update - 1 := by
  match update, h with
  | .at .save, ⟨hstore, hnow, hengine⟩ =>
    rw [← hstore, ← hnow] at hsave
    rw [advance_save hsave]
    exact ⟨⟨rfl, hengine⟩, rfl⟩
  | .at .drop, h =>
    rw [advance_drop]
    exact ⟨h, rfl⟩
  | .at .load, ⟨hstore, engine, hengine⟩ =>
    rw [advance_load hvalid, hengine]
    exact ⟨⟨hstore, { engine with rules, nan }, rfl, rfl, rfl⟩, rfl⟩
  | .at .answer, h =>
    rw [advance_answer]
    exact ⟨h, rfl⟩
  | .ended _, h => exact ⟨h, rfl⟩

/-- Behind the load the update changes nothing any more. -/
theorem advance_loaded (hupdate : toLoad update = 0) :
    (Progress.advance (UpdatePhase.step rules nan) (update, s)).2 = s ∧
      toLoad (Progress.advance (UpdatePhase.step rules nan) (update, s)).1 = 0 := by
  match update, hupdate with
  | .at .answer, _ =>
    rw [advance_answer]
    exact ⟨rfl, rfl⟩
  | .ended _, _ => exact ⟨rfl, rfl⟩

/-- The reload has ended before the load, and has no part in what comes. -/
def Undisturbed (before : Service) (after : Store) (rules : List Value) (nan : Identity)
    (r : ReloadRace) : Prop :=
  (∃ outcome, r.one = .ended outcome) ∧ Stands before after rules nan r.service r.other

/-- The reload compares some row with the engine behind the load. -/
inductive Late (after : Store) (rules : List Value) (nan : Identity) (row : Row) :
    ReloadRace → Prop
  /-- The row is stored, and about to be read. -/
  | unread {update : Progress UpdatePhase Response} {s : Service}
    (hrow : after.find? (some ruleSet) = some row) (hstore : s.store = after)
    (hupdate : toLoad update = 0) (hrules : HasRules rules nan s) :
    Late after rules nan row ⟨.at .read, update, s⟩
  /-- The row is about to be compared. -/
  | unbrought {update : Progress UpdatePhase Response} {s : Service}
    (hupdate : toLoad update = 0) (hrules : HasRules rules nan s) :
    Late after rules nan row ⟨.at (.compare row), update, s⟩
  /-- The engine with the posted rules has been brought to the row. -/
  | brought {outcome : Except Fault Bool} {update : Progress UpdatePhase Response} {s : Service}
    {engine : Engine} (hupdate : toLoad update = 0)
    (hengine : s.engine = some (broughtTo row engine)) (hrules : engine.rules = rules)
    (hnan : engine.nan = nan) : Late after rules nan row ⟨.ended outcome, update, s⟩

/-- A reload that has ended leaves the rest of the race undisturbed. -/
theorem undisturbed_run (hvalid : AllValid rules)
    (hsave : (Store.save before.now (postedRequest rules nan)).result before.store =
      (.ok saved, after)) {r : ReloadRace} (h : Undisturbed before after rules nan r)
    (turns : List Turn) :
    Undisturbed before after rules nan
      (r.run (ReloadPhase.step (some ruleSet)) (UpdatePhase.step rules nan) turns) := by
  refine Race.run_induction (fun r t h => ?_) h turns
  obtain ⟨one, other, service⟩ := r
  obtain ⟨⟨outcome, rfl⟩, hstands⟩ := h
  cases t with
  | one => exact ⟨⟨outcome, rfl⟩, hstands⟩
  | other => exact ⟨⟨outcome, rfl⟩, (hstands.advance hvalid hsave).1⟩

/-- A reload that is late stays late. -/
theorem late_run {r : ReloadRace} (h : Late after rules nan row r) (turns : List Turn) :
    Late after rules nan row
      (r.run (ReloadPhase.step (some ruleSet)) (UpdatePhase.step rules nan) turns) := by
  refine Race.run_induction (fun r t h => ?_) h turns
  cases h with
  | unread hrow hstore hupdate hrules =>
    rename_i update s
    cases t with
    | one =>
      rw [Race.turn, advance_read, hstore, hrow]
      exact .unbrought hupdate hrules
    | other =>
      obtain ⟨hservice, hupdate'⟩ := @advance_loaded s rules nan update hupdate
      rw [Race.turn, hservice]
      exact .unread hrow hstore hupdate' hrules
  | unbrought hupdate hrules =>
    rename_i update s
    cases t with
    | one =>
      obtain ⟨engine, hengine, hrules, hnan⟩ := hrules
      obtain ⟨changed, hchanged⟩ := @advance_compare (some ruleSet) row s
      rw [Race.turn, hchanged, reloadFrom_state hengine]
      exact .brought hupdate rfl hrules hnan
    | other =>
      obtain ⟨hservice, hupdate'⟩ := @advance_loaded s rules nan update hupdate
      rw [Race.turn, hservice]
      exact .unbrought hupdate' hrules
  | brought hupdate hengine hrules hnan =>
    rename_i outcome update s engine
    cases t with
    | one => exact .brought hupdate hengine hrules hnan
    | other =>
      obtain ⟨hservice, hupdate'⟩ := @advance_loaded s rules nan update hupdate
      rw [Race.turn, hservice]
      exact .brought hupdate' hengine hrules hnan

/-- A reload that has read a row is late exactly if the update outruns its
comparison. -/
theorem comparing_run (hvalid : AllValid rules)
    (hsave : (Store.save before.now (postedRequest rules nan)).result before.store =
      (.ok saved, after)) (turns : List Turn) (h : Stands before after rules nan s update)
    (hover : (Race.run (ReloadPhase.step (some ruleSet)) (UpdatePhase.step rules nan)
      ⟨.at (.compare row), update, s⟩ turns).IsOver) :
    if outruns (toLoad update) 1 turns
    then Late after rules nan row (Race.run (ReloadPhase.step (some ruleSet))
      (UpdatePhase.step rules nan) ⟨.at (.compare row), update, s⟩ turns)
    else Undisturbed before after rules nan (Race.run (ReloadPhase.step (some ruleSet))
      (UpdatePhase.step rules nan) ⟨.at (.compare row), update, s⟩ turns) := by
  induction turns generalizing update s with
  | nil =>
    obtain ⟨⟨_, hended⟩, -⟩ := hover
    cases hended
  | cons t turns ih =>
    cases hcount : toLoad update with
    | zero => exact late_run (.unbrought hcount (h.hasRules hcount)) (t :: turns)
    | succ n =>
      cases t with
      | one =>
        obtain ⟨engine, hengine⟩ := h.exists_engine
        obtain ⟨changed, hchanged⟩ := @advance_compare (some ruleSet) row s
        rw [if_neg (by simp [outruns])]
        refine undisturbed_run hvalid hsave ?_ turns
        rw [Race.turn, hchanged, reloadFrom_state hengine]
        exact ⟨⟨_, rfl⟩, h.change_engine (by simp [hcount]) _⟩
      | other =>
        obtain ⟨hstands, hnext⟩ := h.advance hvalid hsave
        have hrest := ih hstands hover
        rw [hnext, hcount] at hrest
        exact hrest

/-- A reload that has not read a row before the save is late exactly if the update
outruns its comparison, and then it compares the row of the save. -/
theorem reading_run (hvalid : AllValid rules)
    (hsave : (Store.save before.now (postedRequest rules nan)).result before.store =
      (.ok saved, after)) (hrow : after.find? (some ruleSet) = some saved) (turns : List Turn)
    (h : Stands before after rules nan s update) (hupdate : toLoad update < 3)
    (hover : (Race.run (ReloadPhase.step (some ruleSet)) (UpdatePhase.step rules nan)
      ⟨.at .read, update, s⟩ turns).IsOver) :
    if outruns (toLoad update) 2 turns
    then Late after rules nan saved (Race.run (ReloadPhase.step (some ruleSet))
      (UpdatePhase.step rules nan) ⟨.at .read, update, s⟩ turns)
    else Undisturbed before after rules nan (Race.run (ReloadPhase.step (some ruleSet))
      (UpdatePhase.step rules nan) ⟨.at .read, update, s⟩ turns) := by
  have hstore : s.store = after := h.store_eq (by rintro rfl; exact absurd hupdate (by decide))
  induction turns generalizing update s with
  | nil =>
    obtain ⟨⟨_, hended⟩, -⟩ := hover
    cases hended
  | cons t turns ih =>
    cases hcount : toLoad update with
    | zero => exact late_run (.unread hrow hstore hcount (h.hasRules hcount)) (t :: turns)
    | succ n =>
      cases t with
      | one =>
        have hread : Race.turn (ReloadPhase.step (some ruleSet)) (UpdatePhase.step rules nan)
            ⟨.at .read, update, s⟩ .one = ⟨.at (.compare saved), update, s⟩ := by
          rw [Race.turn, advance_read, hstore, hrow]
        rw [Race.run, List.foldl_cons, hread] at hover ⊢
        have hrest := comparing_run hvalid hsave turns h hover
        rw [hcount] at hrest
        exact hrest
      | other =>
        obtain ⟨hstands, hnext⟩ := h.advance hvalid hsave
        have hrest := ih hstands (by omega) hover (hstands.store_eq ?_)
        · rw [hnext, hcount] at hrest
          exact hrest
        · intro hnone
          rw [hnone, toLoad] at hnext
          omega

end Races

/-- The row of an accepted update does not overturn it where rows and posted rules
are what was read from a text. -/
theorem not_overturns_saved {now : Instant} {rules : List Value} {nan : Identity}
    {store after : Store} {saved : Row}
    (hsaved : Store.Saved now (postedRequest rules nan) store (.ok saved, after))
    (hrow : ∀ row ∈ store.rows, row.rules.Storable) (hrules : (Value.list rules).Storable) :
    ¬ saved.Overturns rules nan := by
  rintro ⟨items, hitems, hdiffer, hother⟩
  rcases (hsaved.find? rfl).2 with ⟨old, hold, hequal, hkept⟩ | ⟨-, hstored⟩
  · have holdrules := hrow old (Store.mem_of_find? hold)
    have hsymm := Value.looseEq_symm hrules.wellFormed holdrules.wellFormed hequal
    rw [hkept] at hitems
    cases hvalue : old.rules with
    | array kind vs =>
      rw [hvalue] at hitems hsymm
      cases hitems
      have hitems : Value.looseEqItems nan .shared items rules = true := by
        rw [Value.list, Value.looseEq, Bool.and_eq_true] at hsymm
        exact hsymm.2
      rw [hdiffer] at hitems
      cases hitems
    | _ =>
      rw [hvalue] at hsymm
      simp [Value.looseEq, Value.list, Value.number?] at hsymm
  · have hreread : saved.rules = Json.reread (.list rules) := Value.stored_list hstored
    rw [hreread, hrules.reread_eq] at hitems
    cases hitems
    exact hother rfl

section Ends

variable {before : Service} {after : Store} {row : Row} {rules : List Value} {nan : Identity}
  {r : ReloadRace}

/-- A late reload ends with the posted rules exactly if its row does not overturn
them. -/
theorem hasRules_iff_of_late (h : Late after rules nan row r) (hover : r.IsOver) :
    (∃ engine, r.service.engine = some engine ∧ engine.rules = rules) ↔
      ¬ row.Overturns rules nan := by
  obtain ⟨⟨_, hended⟩, -⟩ := hover
  cases h with
  | unread => cases hended
  | unbrought => cases hended
  | brought hupdate hengine hrules hnan =>
    subst hrules hnan
    rw [← rules_broughtTo_iff]
    constructor
    · rintro ⟨engine, hengine', hrules⟩
      cases hengine.symm.trans hengine'
      exact hrules
    · exact fun hrules => ⟨_, hengine, hrules⟩

/-- A race that the reload did not disturb ends with the posted rules. -/
theorem hasRules_of_undisturbed (h : Undisturbed before after rules nan r) (hover : r.IsOver) :
    ∃ engine, r.service.engine = some engine ∧ engine.rules = rules := by
  obtain ⟨-, _, hended⟩ := hover
  have hstands := h.2
  rw [hended] at hstands
  obtain ⟨-, engine, hengine, hrules, -⟩ := hstands
  exact ⟨engine, hengine, hrules⟩

/-- A race whose reload is late or not ends with the posted rules unless it is late
and its row overturns them. -/
theorem hasRules_iff {late : Bool}
    (h : if late then Late after rules nan row r else Undisturbed before after rules nan r)
    (hover : r.IsOver) :
    (∃ engine, r.service.engine = some engine ∧ engine.rules = rules) ↔
      (late = true → ¬ row.Overturns rules nan) := by
  cases late with
  | true =>
    rw [hasRules_iff_of_late h hover]
    exact ⟨fun h _ => h, fun h => h rfl⟩
  | false => exact iff_of_true (hasRules_of_undisturbed h hover) fun hlate => by cases hlate

end Ends

section Beginnings

variable {s : Service} {engine : Engine} {after : Store} {saved : Row} {rules : List Value}
  {nan : Identity} {turns : List Turn}

/-- A reload that reads before the save compares what was stored then, if anything was. -/
theorem hasRules_iff_of_read (hengine : s.engine = some engine) (hvalid : AllValid rules)
    (hsave : (Store.save s.now (postedRequest rules nan)).result s.store = (.ok saved, after))
    (hover : (reloadRace rules nan s (.one :: turns)).IsOver) :
    (∃ final, (reloadRace rules nan s (.one :: turns)).service.engine = some final ∧
        final.rules = rules) ↔
      (outruns 3 2 (.one :: turns) = true → ∀ row, s.store.find? (some ruleSet) = some row →
        ¬ row.Overturns rules nan) := by
  have hstart : Stands s after rules nan s (.at .save) := stands_start hengine
  have hread := @advance_read (some ruleSet) s
  cases hfind : s.store.find? (some ruleSet) with
  | none =>
    rw [hfind] at hread
    have hundisturbed : Undisturbed s after rules nan
        (reloadRace rules nan s (.one :: turns)) := by
      refine undisturbed_run hvalid hsave ?_ turns
      rw [Race.turn, hread]
      exact ⟨⟨_, rfl⟩, hstart⟩
    exact iff_of_true (hasRules_of_undisturbed hundisturbed hover) fun _ _ hrow => by cases hrow
  | some old =>
    rw [hfind] at hread
    have hrun : reloadRace rules nan s (.one :: turns) =
        Race.run (ReloadPhase.step (some ruleSet)) (UpdatePhase.step rules nan)
          ⟨.at (.compare old), .at .save, s⟩ turns := by
      rw [reloadRace, Race.run, List.foldl_cons, Race.turn, hread]
      rfl
    rw [hrun] at hover ⊢
    rw [hasRules_iff (comparing_run hvalid hsave turns hstart hover) hover]
    simp only [Option.some_inj, forall_eq']
    rfl

/-- A reload that reads behind the save compares the row of the save. -/
theorem hasRules_iff_of_save (hengine : s.engine = some engine) (hvalid : AllValid rules)
    (hsave : (Store.save s.now (postedRequest rules nan)).result s.store = (.ok saved, after))
    (hrow : after.find? (some ruleSet) = some saved)
    (hover : (reloadRace rules nan s (.other :: turns)).IsOver) :
    (∃ final, (reloadRace rules nan s (.other :: turns)).service.engine = some final ∧
        final.rules = rules) ↔
      (outruns 3 2 (.other :: turns) = true → ¬ saved.Overturns rules nan) := by
  have hstart : Stands s after rules nan s (.at .save) := stands_start hengine
  obtain ⟨hstands, hcount⟩ := hstart.advance hvalid hsave
  have hrun := reading_run hvalid hsave hrow turns hstands (by rw [hcount]; decide) hover
  rw [hcount] at hrun
  exact hasRules_iff hrun hover

end Beginnings

/-- An accepted update and a reload of one engine, in any order of their steps,
leave the engine with the posted rules, unless the reload compares a row behind the
load that overturns them. This is the row that was stored before the update if the
reload had read it before the save. The row of the update itself never overturns
rules that were read from a text. -/
theorem rules_reloadRace_iff {s s' : Service} {engine : Engine} {payload : Fields}
    {rules : List Value} {nan : Identity} {response : Response} {turns : List Turn}
    (hengine : s.engine = some engine) (hvalid : PostedRules.of payload = .valid rules)
    (haccepted : (updateRules payload nan).result s = (.ok response, s'))
    (hover : (reloadRace rules nan s turns).IsOver) :
    ((∃ final, (reloadRace rules nan s turns).service.engine = some final ∧
        final.rules = rules) ↔
      (outruns 3 2 turns = true → ∀ row,
        (if turns.head? = some .one then s.store else s'.store).find? (some ruleSet) = some row →
          ¬ row.Overturns rules nan)) ∧
    ((∀ row ∈ s.store.rows, row.rules.Storable) → (Value.list rules).Storable →
      ∀ row, s'.store.find? (some ruleSet) = some row → ¬ row.Overturns rules nan) := by
  obtain ⟨saved, after, hsave, rfl⟩ := updateRules_eq_ok hvalid haccepted
  have hallValid := PostedRules.allValid_of_eq hvalid
  have hsaved : Store.Saved s.now (postedRequest rules nan) s.store (.ok saved, after) :=
    hsave ▸ Store.save_cases s.now (postedRequest rules nan) s.store
  have hrow : after.find? (some ruleSet) = some saved := (hsaved.find? rfl).1
  have hfound : ∀ row, (updated rules nan after s).store.find? (some ruleSet) = some row ↔
      row = saved := fun row => by
    rw [updated, hrow, Option.some_inj, eq_comm]
  refine ⟨?_, fun hstore hrules row hsome => ?_⟩
  · cases turns with
    | nil =>
      obtain ⟨⟨_, hended⟩, -⟩ := hover
      cases hended
    | cons turn turns =>
      cases turn with
      | one =>
        rw [hasRules_iff_of_read hengine hallValid hsave hover, List.head?_cons, if_pos rfl]
      | other =>
        rw [hasRules_iff_of_save hengine hallValid hsave hrow hover, List.head?_cons,
          if_neg (by simp)]
        simp only [hfound, forall_eq]
  · rw [(hfound row).mp hsome]
    exact not_overturns_saved hsaved hstore hrules

/-- A payload with a rule for gold. -/
def postedGold (discount : Value) : Fields := [("rules", .list [goldRule discount])]

/-- The update saves between the reading and the comparison of the old row, which
are both done before it loads its rules. -/
theorem rules_reloadRace_inTime :
    ∃ engine response s', (goldWorker []).engine = some engine ∧
      PostedRules.of (postedGold (.int 10)) = .valid [goldRule (.int 10)] ∧
      (updateRules (postedGold (.int 10)) .shared).result (goldWorker []) =
        (.ok response, s') ∧
      (reloadRace [goldRule (.int 10)] .shared (goldWorker [])
        [.one, .other, .one, .other, .other, .other]).IsOver ∧
      (((∃ final, (reloadRace [goldRule (.int 10)] .shared (goldWorker [])
          [.one, .other, .one, .other, .other, .other]).service.engine = some final ∧
          final.rules = [goldRule (.int 10)]) ↔
        (outruns 3 2 [.one, .other, .one, .other, .other, .other] = true → ∀ row,
          (if [Turn.one, .other, .one, .other, .other, .other].head? = some .one
            then (goldWorker []).store else s'.store).find? (some ruleSet) = some row →
            ¬ row.Overturns [goldRule (.int 10)] .shared)) ∧
      ((∀ row ∈ (goldWorker []).store.rows, row.rules.Storable) →
        (Value.list [goldRule (.int 10)]).Storable →
        ∀ row, s'.store.find? (some ruleSet) = some row →
          ¬ row.Overturns [goldRule (.int 10)] .shared)) := by
  have hvalid : PostedRules.of (postedGold (.int 10)) = .valid [goldRule (.int 10)] := rfl
  have hover : (reloadRace [goldRule (.int 10)] .shared (goldWorker [])
      [.one, .other, .one, .other, .other, .other]).IsOver := ⟨⟨_, rfl⟩, ⟨_, rfl⟩⟩
  exact ⟨_, _, _, rfl, hvalid, rfl, hover, rules_reloadRace_iff rfl hvalid rfl hover⟩

/-- The update saves and loads ten percent between the reading and the comparison
of the old row, and the reload takes the engine back to one percent. -/
theorem not_rules_reloadRace_overtaken :
    ∃ response s', PostedRules.of (postedGold (.int 10)) = .valid [goldRule (.int 10)] ∧
      (updateRules (postedGold (.int 10)) .shared).result (goldWorker []) =
        (.ok response, s') ∧
      (reloadRace [goldRule (.int 10)] .shared (goldWorker [])
        [.one, .other, .other, .other, .one, .other]).IsOver ∧
      ¬ ∃ final, (reloadRace [goldRule (.int 10)] .shared (goldWorker [])
          [.one, .other, .other, .other, .one, .other]).service.engine = some final ∧
          final.rules = [goldRule (.int 10)] := by
  have hover : (reloadRace [goldRule (.int 10)] .shared (goldWorker [])
      [.one, .other, .other, .other, .one, .other]).IsOver := ⟨⟨_, rfl⟩, ⟨_, rfl⟩⟩
  have hvalid : PostedRules.of (postedGold (.int 10)) = .valid [goldRule (.int 10)] := rfl
  refine ⟨_, _, hvalid, rfl, hover, fun hposted => ?_⟩
  have hread : reloadRace [goldRule (.int 10)] .shared (goldWorker [])
      [.one, .other, .other, .other, .one, .other] =
        Race.run (ReloadPhase.step (some ruleSet)) (UpdatePhase.step [goldRule (.int 10)] .shared)
          ⟨.at (.compare ⟨0, ruleSet, none, none, .list [goldRule (.int 1)], .first,
            by decide⟩), .at .save, goldWorker []⟩ [.other, .other, .other, .one, .other] := rfl
  have hsave : (Store.save (goldWorker []).now
      (postedRequest [goldRule (.int 10)] .shared)).result (goldWorker []).store = (.ok _, _) :=
    rfl
  rw [hread] at hover hposted
  have hlate := comparing_run (PostedRules.allValid_of_eq hvalid) hsave
    [.other, .other, .other, .one, .other] (stands_start rfl) hover
  refine (hasRules_iff hlate hover).mp hposted rfl ⟨_, rfl, by decide +kernel, ?_⟩
  rintro ⟨⟩

end Service

end Loyalty
