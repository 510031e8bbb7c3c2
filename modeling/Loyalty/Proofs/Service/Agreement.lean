import Loyalty.Proofs.Engine.Identity
import Loyalty.Proofs.Service.Requests

/-!
# Agreement of engine and store

An update writes the posted rules twice, to the row and to the engine. The engine
always gets the posted list. The row keeps what it has when that equals the posted
list loosely, so the two agree exactly if such a row held the very same rules.
-/

namespace Loyalty

/-- The row that a save of a list gave holds that list exactly if an old row that was
loosely equal held it, and where there was none it is written as it is. -/
theorem Store.Saved.rules_eq_list_iff {now : Instant} {request : SaveRequest}
    {store store' : Store} {row : Row} {name : String} {rules : List Value}
    (hname : request.name = some name) (hrules : request.rules = .list rules)
    (h : Saved now request store (.ok row, store')) :
    row.rules = .list rules ↔
      (∀ old, store.find? (some name) = some old →
        request.rules.looseEq request.nan .shared old.rules = true → old.rules = .list rules) ∧
      ((∀ old, store.find? (some name) = some old →
        request.rules.looseEq request.nan .shared old.rules = false) →
          Json.reread (.list rules) = .list rules) := by
  obtain ⟨-, ⟨old, hold, heq, hsame⟩ | ⟨hnone, hstored⟩⟩ := h.find? hname
  · rw [hsame]
    constructor
    · refine fun hlist => ⟨?_, fun hnone => ?_⟩
      · intro other hother _
        rw [hold] at hother
        cases hother
        exact hlist
      · have hne := hnone old hold
        rw [heq] at hne
        cases hne
    · exact fun hcond => hcond.1 old hold heq
  · rw [hrules] at hstored
    have hreread : row.rules = Json.reread (.list rules) := Value.stored_list hstored
    rw [hreread]
    constructor
    · refine fun hlist => ⟨?_, fun _ => hlist⟩
      intro other hother heq
      rw [hnone other hother] at heq
      cases heq
    · exact fun hcond => hcond.2 hnone

namespace Service

/-- The row of the rule set and the engine in use both hold some rules, and the
engine gives every record the report of a new engine with the rules of the row. -/
def AgreesOn (s : Service) (rules : List Value) : Prop :=
  ∃ row engine, s.store.find? (some ruleSet) = some row ∧ row.rules = .list rules ∧
    s.engine = some engine ∧ engine.rules = rules ∧
    ∃ fresh, (Engine.create row.rules .shared engine.amountField).outcome = .ok fresh ∧
      ∀ record, engine.apply record = fresh.apply record

/-- Whether not-a-number equals itself in some rules does not matter to an engine:
it does in both, there is none, or the engine gives the same reports anyway. -/
def IsIndifferent (nan : Identity) (rules : List Value) (amountField : Value) : Prop :=
  nan = .distinct → (Value.list rules).hasNaN = true → ∀ record,
    Engine.apply ⟨amountField, rules, .distinct⟩ record =
      Engine.apply ⟨amountField, rules, .shared⟩ record

/-- Indifference is that every record gets the same report. -/
theorem isIndifferent_iff {nan : Identity} {rules : List Value} {amountField : Value} :
    IsIndifferent nan rules amountField ↔ ∀ record,
      Engine.apply ⟨amountField, rules, nan⟩ record =
        Engine.apply ⟨amountField, rules, .shared⟩ record := by
  cases nan with
  | shared => exact ⟨fun _ _ => rfl, fun _ hnan => by cases hnan⟩
  | distinct =>
    constructor
    · intro h record
      cases hnan : (Value.list rules).hasNaN with
      | true => exact h rfl hnan record
      | false =>
        exact @Engine.apply_of_hasNaN_eq_false ⟨amountField, rules, .shared⟩
          (Value.hasNaN_array.mp hnan) .distinct record
    · exact fun h _ _ => h

/-- An updated service agrees on the posted rules if its row holds them. -/
private theorem agreesOn_updated {s : Service} {engine : Engine} {rules : List Value}
    {nan : Identity} {store : Store} {row : Row} (hengine : s.engine = some engine)
    (hrow : store.find? (some ruleSet) = some row) :
    AgreesOn (updated rules nan store s) rules ↔
      row.rules = .list rules ∧ IsIndifferent nan rules engine.amountField := by
  have hupdated : (updated rules nan store s).engine = some { engine with rules, nan } := by
    rw [updated, hengine]
    rfl
  have hcreate : row.rules = .list rules →
      (Engine.create row.rules .shared engine.amountField).outcome =
        .ok ⟨engine.amountField, rules, .shared⟩ := by
    intro hrules
    have htellable : Engine.Tellable rules := @tellable_of_row row rules (by rw [hrules]; rfl)
    rw [hrules]
    exact Engine.create_list htellable .shared engine.amountField
  rw [isIndifferent_iff]
  constructor
  · rintro ⟨other, inUse, hother, hrules, hinUse, -, fresh, hfresh, hsame⟩
    have hother : some row = some other := hrow.symm.trans hother
    cases hother
    rw [hupdated] at hinUse
    cases hinUse
    cases (hcreate hrules).symm.trans hfresh
    exact ⟨hrules, hsame⟩
  · rintro ⟨hrules, hsame⟩
    exact ⟨row, { engine with rules, nan }, hrow, hrules, hupdated, rfl,
      ⟨engine.amountField, rules, .shared⟩, hcreate hrules, hsame⟩

/-- After an update with success, store and engine agree on the posted rules
exactly if a row that was loosely equal to them held the very same list, the list
is written as it is where there was none, and its not-a-numbers, which are those
of stored rules only after a reading, do not matter. -/
theorem agreesOn_of_updateRules_iff {s s' : Service} {engine : Engine} {payload : Fields}
    {nan : Identity} {response : Response} (hengine : s.engine = some engine)
    (h : (updateRules payload nan).result s = (.ok response, s'))
    (hstatus : response.status = 200) :
    ∃ rules, payload.get "rules" = .list rules ∧
      (AgreesOn s' rules ↔
        (∀ row, s.store.find? (some ruleSet) = some row →
          (Value.list rules).looseEq nan .shared row.rules = true → row.rules = .list rules) ∧
        ((∀ row, s.store.find? (some ruleSet) = some row →
          (Value.list rules).looseEq nan .shared row.rules = false) →
            Json.reread (.list rules) = .list rules) ∧
        IsIndifferent nan rules engine.amountField) := by
  rcases updateRules_cases payload nan s with
    ⟨-, hrefused⟩ | ⟨rules, row, store, hrules, hsaved, hresult⟩
  · have := hrefused response (by rw [h])
    omega
  · rw [hresult] at h
    cases h
    have hrow := (hsaved.find? rfl).1
    refine ⟨rules, hrules, ?_⟩
    rw [agreesOn_updated hengine hrow, hsaved.rules_eq_list_iff rfl rfl, and_assoc]
    rfl

/-- A rule for gold with some value as its mark of a stackable rule. -/
def markedRule (stackable : Value) : Value :=
  .object [("id", .text "GOLD"),
    ("condition", .object [("field", .text "tier"), ("operator", .text "=="),
      ("value", .text "gold")]),
    ("action", .object [("discountPercent", .int 10), ("stackable", stackable)])]

/-- A payload with such a rule. -/
def postedMarked (stackable : Value) : Fields := [("rules", .list [markedRule stackable])]

/-- Posting the stored rules again. -/
theorem agreesOn_of_updateRules_again :
    ∃ engine response s', (holding [markedRule (.bool false)] []).engine = some engine ∧
      (updateRules (postedMarked (.bool false)) .shared).result
        (holding [markedRule (.bool false)] []) = (.ok response, s') ∧ response.status = 200 ∧
      ∃ rules, Fields.get (postedMarked (.bool false)) "rules" = .list rules ∧
        (AgreesOn s' rules ↔
          (∀ row, (holding [markedRule (.bool false)] []).store.find? (some ruleSet) = some row →
            (Value.list rules).looseEq .shared .shared row.rules = true →
              row.rules = .list rules) ∧
          ((∀ row, (holding [markedRule (.bool false)] []).store.find? (some ruleSet) =
              some row → (Value.list rules).looseEq .shared .shared row.rules = false) →
                Json.reread (.list rules) = .list rules) ∧
          IsIndifferent .shared rules engine.amountField) :=
  ⟨_, _, _, rfl, rfl, rfl, agreesOn_of_updateRules_iff rfl rfl rfl⟩

/-- A posted false does not get into a row that holds zero in its place, though the
update is answered with success and the engine has it. -/
theorem not_agreesOn_of_updateRules_false :
    ∃ response s', (updateRules (postedMarked (.bool false)) .shared).result
        (holding [markedRule (.int 0)] []) = (.ok response, s') ∧ response.status = 200 ∧
      Fields.get (postedMarked (.bool false)) "rules" = .list [markedRule (.bool false)] ∧
      ¬ AgreesOn s' [markedRule (.bool false)] := by
  refine ⟨_, _, rfl, rfl, rfl, ?_⟩
  rintro ⟨row, _, hrow, hrules, -⟩
  cases hrow
  cases hrules

end Service

end Loyalty
