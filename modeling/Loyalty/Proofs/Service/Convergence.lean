import Loyalty.Proofs.Engine.Identity
import Loyalty.Proofs.Engine.Meaning
import Loyalty.Proofs.Service.Requests

/-!
# Convergence of reloads

Services that share a store reload their engines from it. A reload gives an engine
the stored rules unless it holds loosely equal ones; then the engine stays as it
is. So the engines all behave like a new one with the stored rules exactly if
those that hold loosely equal rules of another meaning did so before.
-/

namespace Loyalty.Service

open Loyalty.Action

/-- A reload of a stored list changes the engine alone, and tells whether it did. -/
theorem reload_result {s : Service} {name : RuleSetName} {row : Row} {items : List Value}
    {engine : Engine} (hrow : s.store.find? name = some row) (hrules : row.rules = .list items)
    (hengine : s.engine = some engine) :
    (reload name none).result s =
      (.ok (!upToDate items engine), { s with engine := some (reloaded items engine) }) :=
  result_reload_of_elements hrow (by rw [hrules]; rfl) hengine

/-- The services after each has reloaded in its turn, beginning with a store that
they share. -/
def reloadInTurn (name : RuleSetName) : Store → List Service → List Service
  | _, [] => []
  | store, s :: rest =>
    let after := ((reload name none).result { s with store := store }).2
    after :: reloadInTurn name after.store rest

/-- A service has an engine with some path of the amount. -/
def HasEngine (amountField : Value) (s : Service) : Prop :=
  ∃ engine, s.engine = some engine ∧ engine.amountField = amountField

/-- The engine of a service gives every record the report of another one. -/
def BehavesLike (fresh : Engine) (s : Service) : Prop :=
  ∃ engine, s.engine = some engine ∧ ∀ record, engine.apply record = fresh.apply record

/-- An engine that holds rules equal to stored ones loosely, and with the same
meanings, behaves like a new engine with the stored ones. -/
theorem apply_of_upToDate {items : List Value} {engine : Engine}
    (hequal : upToDate items engine = true) (hmeanings : meanings engine.rules = meanings items)
    (record : Value) :
    engine.apply record = Engine.apply ⟨engine.amountField, items, .shared⟩ record := by
  have hsame : engine.apply record = Engine.apply ⟨engine.amountField, items, engine.nan⟩ record :=
    Engine.apply_congr rfl rfl hmeanings
  rw [hsame]
  cases hnan : engine.nan with
  | shared => rfl
  | distinct =>
    -- Equality told the items apart from themselves if they had not-a-number.
    have hitems : ∀ v ∈ items, v.hasNaN = false := by
      rw [upToDate, hnan] at hequal
      exact Value.hasNaN_of_looseEqItems hequal
    exact @Engine.apply_of_hasNaN_eq_false ⟨engine.amountField, items, .shared⟩ hitems
      .distinct record

/-- One reload gives a service the behaviour of a new engine with the stored rules,
unless it holds loosely equal ones of another meaning that behave otherwise. -/
theorem behavesLike_reload_iff {s : Service} {name : RuleSetName} {row : Row}
    {items : List Value} {engine : Engine} (hrow : s.store.find? name = some row)
    (hrules : row.rules = .list items) (hengine : s.engine = some engine) :
    BehavesLike ⟨engine.amountField, items, .shared⟩ ((reload name none).result s).2 ↔
      (upToDate items engine = true → meanings engine.rules ≠ meanings items → ∀ record,
        engine.apply record = Engine.apply ⟨engine.amountField, items, .shared⟩ record) := by
  rw [reload_result hrow hrules hengine]
  constructor
  · rintro ⟨other, hother, hsame⟩ hequal - record
    have hkept : reloaded items engine = engine := if_pos hequal
    rw [hkept] at hother
    cases hother
    exact hsame record
  · intro h
    refine ⟨reloaded items engine, rfl, fun record => ?_⟩
    rw [reloaded]
    split
    · rename_i hequal
      by_cases hmeanings : meanings engine.rules = meanings items
      · exact apply_of_upToDate hequal hmeanings record
      · exact h hequal hmeanings record
    · rfl

/-- Services that share a store with a list of rules converge to the behaviour of
a new engine with it by reloading once each, in any order, exactly if every one of
them that holds loosely equal rules of another meaning already behaved so. -/
theorem behavesLike_reloadInTurn_iff {name : RuleSetName} {store : Store} {row : Row}
    {items : List Value} {amountField : Value} {fresh : Engine} {workers : List Service}
    (hrow : store.find? name = some row) (hrules : row.rules = .list items)
    (hfresh : (Engine.create row.rules .shared amountField).outcome = .ok fresh)
    (hworkers : ∀ s ∈ workers, HasEngine amountField s) :
    (∀ s ∈ reloadInTurn name store workers, BehavesLike fresh s) ↔
      ∀ s ∈ workers, ∀ engine, s.engine = some engine → upToDate items engine = true →
        meanings engine.rules ≠ meanings items →
          ∀ record, engine.apply record = fresh.apply record := by
  rw [hrules] at hfresh
  obtain rfl := Engine.of_create_list hfresh
  induction workers with
  | nil => simp [reloadInTurn]
  | cons s rest ih =>
    obtain ⟨engine, hengine, hfield⟩ := hworkers s List.mem_cons_self
    subst hfield
    have hfound : { s with store := store }.store.find? name = some row := hrow
    have hafter : ((reload name none).result { s with store := store }).2.store = store := by
      rw [reload_result hfound hrules hengine]
    have hfirst := behavesLike_reload_iff hfound hrules hengine
    have hrest := ih fun s' hs' => hworkers s' (List.mem_cons_of_mem _ hs')
    rw [reloadInTurn, List.forall_mem_cons, List.forall_mem_cons, hafter, hfirst, hrest]
    refine and_congr_left fun _ => ?_
    constructor
    · intro h other hother
      rw [hengine] at hother
      cases hother
      exact h
    · intro h
      exact h engine hengine

/-- A rule for gold with some value as its discount. -/
def goldRule (discount : Value) : Value :=
  .object (rivalRule (.text "GOLD") (.int 1) discount).fields

/-- A service with the stored rule of one percent, and with others in use. -/
def goldWorker (inUse : List Value) : Service := holding [goldRule (.int 1)] inUse

/-- A service without rules in use and one with the stored rule converge. -/
theorem behavesLike_reloadInTurn_gold :
    ∃ row fresh, (goldWorker []).store.find? (some ruleSet) = some row ∧
      row.rules = .list [goldRule (.int 1)] ∧
      (Engine.create row.rules .shared Engine.defaultAmountField).outcome = .ok fresh ∧
      (∀ s ∈ [goldWorker [], goldWorker [goldRule (.int 1)]],
        HasEngine Engine.defaultAmountField s) ∧
      ((∀ s ∈ reloadInTurn (some ruleSet) (goldWorker []).store
          [goldWorker [], goldWorker [goldRule (.int 1)]], BehavesLike fresh s) ↔
        ∀ s ∈ [goldWorker [], goldWorker [goldRule (.int 1)]], ∀ engine,
          s.engine = some engine → upToDate [goldRule (.int 1)] engine = true →
            meanings engine.rules ≠ meanings [goldRule (.int 1)] →
              ∀ record, engine.apply record = fresh.apply record) := by
  have hworkers : ∀ s ∈ [goldWorker [], goldWorker [goldRule (.int 1)]],
      HasEngine Engine.defaultAmountField s := by
    intro s hs
    rw [List.mem_cons, List.mem_singleton] at hs
    rcases hs with rfl | rfl
    · exact ⟨_, rfl, rfl⟩
    · exact ⟨_, rfl, rfl⟩
  exact ⟨_, _, rfl, rfl, rfl, hworkers, behavesLike_reloadInTurn_iff rfl rfl rfl hworkers⟩

/-- A service whose rule has true in the place of the stored one percent keeps it
on a reload, and goes on to apply no discount. -/
theorem not_behavesLike_reloadInTurn_true :
    ∃ row fresh, (goldWorker []).store.find? (some ruleSet) = some row ∧
      row.rules = .list [goldRule (.int 1)] ∧
      (Engine.create row.rules .shared Engine.defaultAmountField).outcome = .ok fresh ∧
      HasEngine Engine.defaultAmountField (goldWorker [goldRule (.bool true)]) ∧
      ¬ ∀ s ∈ reloadInTurn (some ruleSet) (goldWorker []).store [goldWorker [goldRule (.bool true)]],
        BehavesLike fresh s := by
  refine ⟨_, _, rfl, rfl, rfl, ⟨_, rfl, rfl⟩, fun hall => ?_⟩
  obtain ⟨engine, hengine, hsame⟩ := hall _ List.mem_cons_self
  have hreload : (reload (some ruleSet) none).result (goldWorker [goldRule (.bool true)]) = _ :=
    reload_result rfl rfl rfl
  have hequal : upToDate [goldRule (.int 1)]
      ⟨Engine.defaultAmountField, [goldRule (.bool true)], .shared⟩ = true := by decide +kernel
  change ((reload (some ruleSet) none).result (goldWorker [goldRule (.bool true)])).2.engine =
    some engine at hengine
  rw [hreload, reloaded, if_pos hequal] at hengine
  cases hengine
  obtain ⟨p, hp⟩ := exists_ok_of_isOk (r := Value.finiteNumberOr (.int 999) (.int 1))
    (by decide +kernel)
  have htaken : ∀ discount, byPriority [rivalRule (.text "GOLD") (.int 1) discount] =
      .ok [rivalRule (.text "GOLD") (.int 1) discount] :=
    fun discount => byPriority_singleton hp
  have hnone : (Engine.apply ⟨Engine.defaultAmountField, [goldRule (.bool true)], .shared⟩
      goldRecord).outcome.toOption.map Calculation.total = some (.int 0) := by
    change (Report.ofExcept (byPriority [rivalRule (.text "GOLD") (.int 1) (.bool true)]) >>= _ :
      Report Calculation).outcome.toOption.map Calculation.total = _
    rw [htaken]
    decide +kernel
  have hone : (Engine.apply ⟨Engine.defaultAmountField, [goldRule (.int 1)], .shared⟩
      goldRecord).outcome.toOption.map Calculation.total = some (.int 1) := by
    change (Report.ofExcept (byPriority [rivalRule (.text "GOLD") (.int 1) (.int 1)]) >>= _ :
      Report Calculation).outcome.toOption.map Calculation.total = _
    rw [htaken]
    decide +kernel
  rw [hsame goldRecord, hone] at hnone
  cases hnone

end Loyalty.Service
