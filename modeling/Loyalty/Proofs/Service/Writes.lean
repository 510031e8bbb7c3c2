import Loyalty.Proofs.Service.Requests
import Loyalty.Proofs.Store.Lasting

/-!
# Runs of writes

The store is written by saves, which may have lost a race for the row that they meant
to create, by fillings from a rule file, by updates and by starts. However they follow
on each other, and whichever of them fail, no name has two rows, and a row that is
there once stays with its identity and its name. A write leaves the rows of all names
but its own alone.
-/

namespace Loyalty

/-- What writes to the store. -/
inductive Write where
  /-- A save. -/
  | save (request : SaveRequest)
  /-- A save that another one has overtaken before it created its row. -/
  | saveAfterLostRace (request : SaveRequest)
  /-- A filling of a rule set from a rule file. -/
  | seed (name : RuleSetName) (file : RuleFile)
  /-- An update with posted rules. -/
  | update (payload : Fields) (nan : Identity)
  /-- A start, with a rule file and the seconds between reloads. -/
  | startup (file : RuleFile) (reloadSeconds : Value)

namespace Write

/-- The name that a write works with. -/
def name : Write → RuleSetName
  | .save request | .saveAfterLostRace request => request.name
  | .seed name _ => name
  | .update .. | .startup .. => some Service.ruleSet

/-- The service after a write, be it carried out or stopped by a fault. -/
def after (write : Write) (now : Instant) (s : Service) : Service :=
  let s := { s with now := now }
  match write with
  | .save request => ((Service.onStore (Store.save now request)).result s).2
  | .saveAfterLostRace request =>
    ((Service.onStore (Store.saveAfterLostRace now request)).result s).2
  | .seed name file => ((Service.onStore (Store.seed now name file)).result s).2
  | .update payload nan => ((Service.updateRules payload nan).result s).2
  | .startup file reloadSeconds => ((Service.startup file reloadSeconds).result s).2

end Write

namespace Service

/-- The service after some writes, each at its instant. -/
def written (s : Service) (writes : List (Instant × Write)) : Service :=
  writes.foldl (fun s write => write.2.after write.1 s) s

/-- A service without rows. -/
def emptied (s : Service) : Service := { s with store := .empty }

/-- A start writes the store only by filling it. -/
theorem store_startup (file : RuleFile) (reloadSeconds : Value) (s : Service) :
    ((startup file reloadSeconds).result s).2.store = (filled file s).2 := by
  have hstarted := startup_cases file reloadSeconds s
  generalize (startup file reloadSeconds).result s = result at hstarted
  cases hstarted with
  | notFilled h => rw [h]
  | noRules h => rw [h]
  | ready h => rw [h]

/-- A write leaves a store that follows the one before under its name. -/
theorem follows_write {s : Service} (hsound : s.store.Sound) (now : Instant) (write : Write) :
    Store.Follows write.name s.store (write.after now s).store := by
  cases write with
  | save request => exact (Store.save_cases now request s.store).follows hsound
  | saveAfterLostRace request =>
    exact (Store.saveOver_cases now request s.store (.inr rfl)).follows hsound
  | seed name file => exact Store.follows_seed hsound now name file
  | update payload nan =>
    simp only [Write.after, Write.name]
    rcases updateRules_cases payload nan { s with now := now } with
      ⟨hsame, -⟩ | ⟨rules, row, store, -, hsaved, hresult⟩
    · rw [hsame]
      exact hsound.follows _
    · rw [hresult]
      exact hsaved.follows hsound
  | startup file reloadSeconds =>
    simp only [Write.after, Write.name]
    rw [store_startup]
    unfold filled
    split
    · exact hsound.follows _
    · exact Store.follows_seed hsound now _ file

/-- After a run of writes the store is sound, and the rows that were there are in their
places. -/
theorem lasts_written {s : Service} (hsound : s.store.Sound) (writes : List (Instant × Write)) :
    (s.written writes).store.Sound ∧ s.store.keys <+: (s.written writes).store.keys := by
  induction writes generalizing s with
  | nil => exact ⟨hsound, List.prefix_refl _⟩
  | cons write writes ih =>
    have hfirst := follows_write hsound write.1 write.2
    obtain ⟨hlast, hkept⟩ := ih hfirst.sound
    exact ⟨hlast, hfirst.kept.trans hkept⟩

/-- From a store without rows every run of writes, in any order, under any names and
with any faults, leads to a store in which no name stands twice. Whatever is written
after that, each row stays in its place with its identity and name. One more write
changes no row of another name and adds none, and changes nothing at all if it has no
name. -/
theorem follows_written (s : Service) (writes : List (Instant × Write)) :
    (s.emptied.written writes).store.Sound ∧
      (∀ more, (s.emptied.written writes).store.keys <+:
        (s.emptied.written (writes ++ more)).store.keys) ∧
      ∀ now write, Store.Follows write.name (s.emptied.written writes).store
        (s.emptied.written (writes ++ [(now, write)])).store := by
  have hsound := (lasts_written (s := s.emptied) Store.sound_empty writes).1
  refine ⟨hsound, fun more => ?_, fun now write => ?_⟩
  · rw [written, written, List.foldl_append]
    exact (lasts_written hsound more).2
  · rw [written, written, List.foldl_append]
    exact follows_write hsound now write

end Service

end Loyalty
