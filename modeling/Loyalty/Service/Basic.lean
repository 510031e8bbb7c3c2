import Loyalty.Cache
import Loyalty.Engine
import Loyalty.RuleFile
import Loyalty.Scheduler

/-!
# The state of the service

The service holds the engine in use, the store, the cache and the scheduler. An
action on one of them is an action of the service that leaves the others alone.
-/

namespace Loyalty

/-- Everything the service works with. -/
structure Service where
  engine : Option Engine
  store : Store
  cache : Cache
  scheduler : Scheduler
  /-- The time that rows and health answers are stamped with. -/
  now : Instant

namespace Service

/-- A service that has nothing yet. -/
def fresh (now : Instant) : Service := ⟨none, .empty, .empty, .empty, now⟩

/-- The name of the rule set that the service works with. -/
def ruleSet : String := SaveRequest.defaultName

/-- An action on the store. -/
def onStore {α : Type} (action : Action Store α) : Action Service α :=
  Action.on Service.store (fun store s => { s with store := store }) action

/-- An action on the cache. -/
def onCache {α : Type} (action : Action Cache α) : Action Service α :=
  Action.on Service.cache (fun cache s => { s with cache := cache }) action

/-- An action on the scheduler. -/
def onScheduler {α : Type} (action : Action Scheduler α) : Action Service α :=
  Action.on Service.scheduler (fun scheduler s => { s with scheduler := scheduler }) action

/-- Takes an engine into use. -/
def setEngine (engine : Engine) : Action Service Unit :=
  Action.modify fun s => { s with engine := some engine }

/-- Makes an engine with some rules and takes it into use. -/
def renewEngine (rules : Value) (nan : Identity) (amountField : Value) :
    Action Service Unit := do
  setEngine (← Action.lift (Engine.create rules nan amountField))

/-- Replaces the rules of the engine in use, and gives their report. -/
def loadRules (rules : Value) (nan : Identity) (engine : Engine) :
    Action Service (List Complaint) := do
  let (engine, complaints) ← Action.lift (engine.load rules nan)
  setEngine engine
  return complaints

/-- The engine in use, which has to be there. -/
def engineFor (use : EngineUse) : Action Service Engine := do
  match (← Action.get).engine with
  | some engine => return engine
  | none => Action.fail (.engineMissing use)

/-- Replaces the rules of the engine in use by posted ones, and gives their
report. -/
def loadPosted (rules : Value) : Action Service (List Complaint) := do
  loadRules rules .distinct (← engineFor .load)

/-- The rules in use. -/
def rulesInUse : Action Service (List Value) := do
  return (← engineFor .list).rules

/-- Applies the rules in use to a record. -/
def applyTo (record : Value) : Action Service Calculation := do
  Action.lift ((← engineFor .apply).apply record)

/-- Takes no engine into use. -/
def dropEngine : Action Service Unit := Action.modify fun s => { s with engine := none }

end Service

end Loyalty
