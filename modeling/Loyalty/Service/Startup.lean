import Loyalty.Service.Basic

/-!
# Start and end of the service

At its start the service fills an empty store from the rule file and takes the
stored rules into use. Reloads run from then on if an interval is given.
-/

namespace Loyalty.Service

/-- Whether a number of seconds asks for reloads, as one above zero does. -/
def asksForReloads : Value → Except Fault Bool
  | .bool b => .ok b
  | .number n => .ok ((Number.int 0).lt n)
  | v => .error (.notOrdered v.kind)

/-- Schedules reloads and starts them if their seconds ask for it. -/
def startReloads (now : Instant) (reloadSeconds : Value) : Action Scheduler Unit := do
  if ← Action.ofExcept (asksForReloads reloadSeconds) then
    Scheduler.schedule now ⟨reloadSeconds, some ruleSet⟩
    Scheduler.start

/-- Fills the store from the rule file if there is one, takes the stored rules into
use, and starts reloads. What was filled and taken into use stays when the reloads
cannot be started. -/
def startup (file : RuleFile) (reloadSeconds : Value) : Action Service Unit := do
  let s ← Action.get
  if file.contents.isSome then
    let _ ← onStore (Store.seed s.now (some ruleSet) file)
  let rules ← Action.ofExcept ((← Action.get).store.rules (some ruleSet))
  renewEngine (.list rules) .shared Engine.defaultAmountField
  Action.note (.engineReady rules.length)
  onScheduler (startReloads s.now reloadSeconds)

/-- Stops the reloads. -/
def shutdown : Action Service Unit := onScheduler Scheduler.stop

end Loyalty.Service
