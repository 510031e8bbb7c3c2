import Loyalty.Proofs.Service.Requests
import Loyalty.Proofs.Value.Equality

/-!
# Reloads settle

A reload answers whether it brought stored rules to the engine, and changes nothing if
it did not. Rules that it brought equal those that are stored, since they are the same
with the same not-a-numbers, at any depth. So nothing is left to bring by the reloads
that follow, until the row is written again.
-/

namespace Loyalty

/-- The elements of a value that was read from JSON could be read from it too. -/
theorem Value.wellFormed_of_elements {v : Value} {items : List Value} (hv : v.WellFormed)
    (h : v.elements = .ok items) : (Value.list items).WellFormed := by
  rw [Value.list, wellFormed_array]
  cases v with
  | array kind vs =>
    cases h
    exact wellFormed_array.mp hv
  | text s =>
    cases h
    intro w hw
    obtain ⟨c, -, rfl⟩ := List.mem_map.mp hw
    simp [WellFormed]
  | object fields =>
    cases h
    intro w hw
    obtain ⟨field, -, rfl⟩ := List.mem_map.mp hw
    simp [WellFormed]
  | _ => cases h

namespace Service

open Loyalty.Action

variable {name : RuleSetName} {s : Service}

/-- A reload never fails, and leaves the store alone. It answers true exactly if the
stored rules can be read and gone through, and an engine is in use that has others by
equality of lists; then this engine has the stored ones. Otherwise nothing changes. -/
theorem reload_true_iff_brings (name : RuleSetName) (outOfOrder : Option String) (s : Service) :
    ∃ changed s', (reload name outOfOrder).result s = (.ok changed, s') ∧ s'.store = s.store ∧
      (changed = true ↔ ∃ items engine, Brings name outOfOrder s items engine) ∧
      (changed = false → s' = s) ∧
      ∀ items engine, Brings name outOfOrder s items engine →
        s' = { s with engine := some { engine with rules := items, nan := .shared } } := by
  by_cases h : ∃ items engine, Brings name outOfOrder s items engine
  · obtain ⟨items, engine, hbrings⟩ := h
    refine ⟨true, _, hbrings.result, rfl, iff_of_true rfl ⟨items, engine, hbrings⟩, nofun, ?_⟩
    intro items' engine' hbrings'
    exact congrArg Prod.snd (hbrings.result.symm.trans hbrings'.result)
  · have hnone : ∀ items engine, ¬ Brings name outOfOrder s items engine :=
      fun items engine hbrings => h ⟨items, engine, hbrings⟩
    exact ⟨false, s, result_reload_of_not_brings hnone, rfl, iff_of_false nofun h,
      fun _ => rfl, fun items engine hbrings => absurd hbrings (hnone items engine)⟩

/-- A service to which no reload brings anything. -/
def IsSettled (name : RuleSetName) (s : Service) : Prop :=
  ∀ outOfOrder items engine, ¬ Brings name outOfOrder s items engine

/-- Stored rules that were read from JSON are brought once: a reload from a database in
order leaves nothing for another one. -/
theorem isSettled_of_reload
    (hread : ∀ row, s.store.find? name = some row → row.rules.WellFormed) :
    IsSettled name ((reload name none).result s).2 := by
  intro outOfOrder items engine hbrings
  have hfirst : Brings name none ((reload name none).result s).2 items engine :=
    { hbrings with inOrder := rfl }
  rcases reload_cases name none s with hsame | ⟨items', engine', hbrings', hloaded⟩
  · rw [hsame] at hfirst
    cases hsame.symm.trans hfirst.result
  · rw [hloaded] at hfirst
    obtain ⟨row, hrow, helements⟩ := hbrings'.stored
    obtain ⟨row', hrow', helements'⟩ := hfirst.stored
    cases hrow.symm.trans hrow'
    cases helements.symm.trans helements'
    cases hfirst.inUse
    have hself := Value.looseEq_self (Value.wellFormed_of_elements (hread row hrow) helements)
    cases hself.symm.trans hfirst.differs

/-- A service after more reloads, of which some find the database out of order. -/
def reloads (name : RuleSetName) (outages : List (Option String)) (s : Service) : Service :=
  outages.foldl (fun s outOfOrder => ((reload name outOfOrder).result s).2) s

/-- Reloads leave a settled service as it is. -/
theorem reloads_of_isSettled (h : IsSettled name s) (outages : List (Option String)) :
    reloads name outages s = s := by
  induction outages with
  | nil => rfl
  | cons outOfOrder outages ih =>
    have hstep : ((reload name outOfOrder).result s).2 = s := by
      rw [result_reload_of_not_brings (h outOfOrder)]
    rw [reloads, List.foldl_cons, hstep]
    exact ih

/-- After a reload from a database in order, of rules that were read from JSON, every
further reload answers false and leaves the service as it is, however many there were
in between and whether the database is in order or not. -/
theorem reload_settles (hread : ∀ row, s.store.find? name = some row → row.rules.WellFormed)
    (outages : List (Option String)) (outOfOrder : Option String) :
    (reload name outOfOrder).result (reloads name outages ((reload name none).result s).2) =
      (.ok false, ((reload name none).result s).2) := by
  have hsettled := isSettled_of_reload hread
  rw [reloads_of_isSettled hsettled]
  exact result_reload_of_not_brings (hsettled outOfOrder)

/-- Not-a-number inside a rule is brought to the engine once. -/
theorem reload_settles_nan :
    ∃ s', (reload (some ruleSet) none).result (holding [.list [.number (.double .nan)]] []) =
        (.ok true, s') ∧
      (reload (some ruleSet) none).result s' = (.ok false, s') := by
  have hread : ∀ row, (holding [.list [.number (.double .nan)]] []).store.find? (some ruleSet) =
      some row → row.rules.WellFormed := by
    rintro row ⟨⟩
    simp [Value.list, Value.WellFormed, Value.WellFormedItems]
  exact ⟨_, rfl, reload_settles hread [] none⟩

end Service

end Loyalty
