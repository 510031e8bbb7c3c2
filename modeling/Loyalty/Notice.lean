import Loyalty.Condition.Basic
import Loyalty.Fault

/-!
# Notices

What the program tells its operator while it works, one notice a line, as what
happened. The wording is in one place, `Notice.line`. A notice about a value has its
text: a value without one cannot be told of.
-/

namespace Loyalty

/-- The name that a rule set is stored under; it can be missing from a request. -/
abbrev RuleSetName := Option String

/-- The name of a rule set in messages. -/
def RuleSetName.display : RuleSetName → String
  | some name => name
  | none => "None"

/-- A saved booking that the pushing client tries out, and what came of it. -/
structure SampleLine where
  tier : String
  totalSpend : Int
  bookingDate : String
  percent : String
  finalAmount : String
  message : String

/-- Something worth telling. -/
inductive Notice where
  | unknownOperator (operator : String)
  | malformedCondition (fault : ShapeFault)
  | ruleWarning (id problem : String)
  | rulesLoaded (rules warnings : Nat)
  | rowCreated (name : RuleSetName) (rules : Nat)
  | rowReplaced (name : RuleSetName) (rules : Nat)
  | seeding (name : RuleSetName) (path : String)
  | cacheHit (name : String)
  | cacheMiss (name : String)
  | cacheFilled (name : String)
  | cacheInvalidated (name : String)
  | nothingStored (name : RuleSetName)
  | reloaded (name : RuleSetName) (rules : Nat)
  | reloadFailed (name : RuleSetName) (fault : Fault)
  | reloadScheduled (seconds : String) (name : RuleSetName)
  | engineReady (rules : Nat)
  | schedulerStarted
  | schedulerStopped
  | requestRetried (attempt attempts : Nat)
  | requestFailed (attempts : Nat) (fault : Fault)
  | validating (rules : Nat) (path : String)
  | ruleRefused (index id error : String)
  | rulesSaved (count : String)
  | sampleDone (sample : SampleLine)
  | waiting
  | blank
  | seedingDone
  | seedingFailed (fault : Fault)

namespace Notice

/-- A line about rules in some part of the program. -/
private def tagged (tag text : String) : String := "[" ++ tag ++ "] " ++ text

/-- The line of a notice. -/
def line : Notice → String
  | .unknownOperator operator =>
    tagged "ConditionEvaluator" ("Unknown operator: " ++ operator)
  | .malformedCondition fault =>
    tagged "ConditionEvaluator" ("Skipping malformed condition: " ++ fault.message)
  | .ruleWarning id problem =>
    tagged "RuleEngine" ("Rule validation warning for \"" ++ id ++ "\": " ++ problem)
  | .rulesLoaded rules warnings =>
    tagged "RuleEngine"
      ("Loaded " ++ natText rules ++ " rules (" ++ natText warnings ++ " with warnings)")
  | .rowCreated name rules =>
    tagged "RuleStore"
      ("Created rule set '" ++ name.display ++ "' with " ++ natText rules ++ " rules")
  | .rowReplaced name rules =>
    tagged "RuleStore"
      ("Replaced rule set '" ++ name.display ++ "' with " ++ natText rules ++ " rules")
  | .seeding name path =>
    tagged "RuleStore" ("Seeding rule set '" ++ name.display ++ "' from " ++ path)
  | .cacheHit name => tagged "Cache" ("HIT for rule set " ++ name)
  | .cacheMiss name => tagged "Cache" ("MISS for rule set " ++ name)
  | .cacheFilled name => tagged "Cache" ("SET for rule set " ++ name)
  | .cacheInvalidated name => tagged "Cache" ("INVALIDATED for rule set " ++ name)
  | .nothingStored name =>
    tagged "Reload" ("No stored rule set '" ++ name.display ++ "', keeping current rules")
  | .reloaded name rules =>
    tagged "Reload"
      ("Rule set '" ++ name.display ++ "' reloaded → " ++ natText rules ++ " rules")
  | .reloadFailed name fault =>
    tagged "Reload" ("Error reloading '" ++ name.display ++ "': " ++ fault.message)
  | .reloadScheduled seconds name =>
    tagged "Scheduler"
      ("Rule reload every " ++ seconds ++ "s for '" ++ name.display ++ "'")
  | .engineReady rules =>
    tagged "Startup" ("Rule engine initialized with " ++ natText rules ++ " rules")
  | .schedulerStarted => tagged "Scheduler" "Started"
  | .schedulerStopped => tagged "Scheduler" "Stopped"
  | .requestRetried attempt attempts =>
    tagged "WARN"
      ("Request failed, retrying... (" ++ natText attempt ++ "/" ++ natText attempts ++ ")")
  | .requestFailed attempts fault =>
    tagged "ERROR"
      ("Request failed after " ++ natText attempts ++ " attempts: " ++ fault.message)
  | .validating rules path =>
    tagged "INFO" ("Validating " ++ natText rules ++ " rules from " ++ path)
  | .ruleRefused index id error =>
    tagged "ERROR" ("Rule #" ++ index ++ " (" ++ id ++ "): " ++ error)
  | .rulesSaved count => tagged "SUCCESS" ("Saved " ++ count ++ " rules")
  | .sampleDone s =>
    tagged "INFO"
      (s.tier ++ " / " ++ intText s.totalSpend ++ " on " ++ s.bookingDate ++ ": " ++
        s.percent ++ "% off → " ++ s.finalAmount ++ " (" ++ s.message ++ ")")
  | .waiting => tagged "INFO" "Waiting for server to be ready..."
  | .blank => tagged "INFO" ""
  | .seedingDone => tagged "SUCCESS" "Seeding complete"
  | .seedingFailed fault => tagged "CRITICAL" ("Seeding failed: " ++ fault.message)

end Notice

end Loyalty
