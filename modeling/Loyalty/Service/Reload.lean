import Loyalty.Service.Basic

/-!
# Reloads

A reload brings the engine in use to the stored rules, so that a service sees
what another one saved. It never fails: what goes wrong is told in a notice, and
the engine keeps the rules that it has.
-/

namespace Loyalty.Service

/-- Whether the rules of a row equal those of an engine. -/
def upToDate (items : List Value) (engine : Engine) : Bool :=
  Value.looseEqItems engine.nan .shared items engine.rules

/-- Brings an engine to the rules of a row; false when it has them already. -/
def reloadFrom (row : Row) (name : RuleSetName) (engine : Option Engine) :
    Action Service Bool := do
  let items ← Action.ofExcept row.rules.elements
  match engine with
  | none => Action.fail (.engineMissing .list)
  | some engine =>
    if upToDate items engine then return false
    else
      let _ ← loadRules row.rules .shared engine
      Action.note (.reloaded name items.length)
      return true

/-- Brings the engine in use to the stored rules, if there are any. -/
def reloadStored (name : RuleSetName) : Action Service Bool := do
  let s ← Action.get
  match s.store.find? name with
  | none =>
    Action.note (.nothingStored name)
    return false
  | some row => reloadFrom row name s.engine

/-- Reloads, or says in a notice why it could not. -/
def guarded (name : RuleSetName) (reload : Action Service Bool) : Action Service Bool := do
  match ← reload.attempt with
  | .ok changed => return changed
  | .error fault =>
    Action.note (.reloadFailed name fault)
    return false

/-- Reloads the engine in use. A database that is out of order answers every query
with a text. -/
def reload (name : RuleSetName) (outOfOrder : Option String) : Action Service Bool :=
  guarded name (match outOfOrder with
    | some text => Action.fail (.queryFailed text)
    | none => reloadStored name)

end Loyalty.Service
