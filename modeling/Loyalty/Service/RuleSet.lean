import Loyalty.Service.Basic
import Loyalty.Service.Response

/-!
# Requests about the rule set

The stored document is answered from the cache when it is kept there. An update is
carried out only if every posted rule is valid: the rules are saved first, then
the cached document is dropped, then the engine gets the rules. The not-a-numbers
of a payload that was read from a request body are the one that stored rules are
read with; a payload that was put together otherwise has its own.
-/

namespace Loyalty.Service

/-- The answer with a document, and where it came from. -/
def documentFrom (source : String) (document : Value) : Response :=
  .ok (.object [("success", .bool true), ("data", document), ("source", .text source)])

/-- The document in the cache, unless it is null. -/
def cachedDocument : Action Service (Option Value) := do
  match ← onCache (Cache.document (← Action.get).now ruleSet) with
  | some .null => return none
  | cached => return cached

/-- The stored document, from the cache if it is there. -/
def getRules : Action Service Response := do
  match ← cachedDocument with
  | some document => return documentFrom "cache" document
  | none =>
    let s ← Action.get
    match s.store.document? (some ruleSet) with
    | none => Action.ofExcept (Response.because 404 ("Rule set '" ++ ruleSet ++ "' not found"))
    | some document =>
      onCache (Cache.keep s.now ruleSet document)
      return documentFrom "db" document

/-- What is wrong with posted rules: that they are no list, or their problems. -/
inductive PostedRules where
  | notList
  | invalid (problems : List Problem)
  | valid (rules : List Value)

/-- Checks the rules of a payload. -/
def PostedRules.of (payload : Fields) : PostedRules :=
  match payload.get "rules" with
  | .array .list rules =>
    match Problem.list rules with
    | [] => .valid rules
    | problems => .invalid problems
  | _ => .notList

/-- The answer to rules that are no list. -/
def rulesNotList : Except Fault Response := Response.because 400 "Rules must be an array"

/-- The problems of posted rules as they are reported. -/
def details (problems : List Problem) : Except Fault (String × Value) :=
  (Complaint.ofProblems problems).map fun complaints =>
    ("details", .list (complaints.map Complaint.toValue))

/-- Says that posted rules are invalid. -/
def failedValidation : String × Value := ("error", .text "Rule validation failed")

/-- Saves posted rules: the store first, then the cache, then the engine. -/
def acceptRules (rules : List Value) (nan : Identity) : Action Service Response := do
  let s ← Action.get
  let _ ← onStore (Store.save s.now { SaveRequest.ofRules (some ruleSet) (.list rules) with
    nan := nan })
  onCache (Cache.invalidate ruleSet)
  match s.engine with
  | none => pure ()
  | some engine =>
    let _ ← loadRules (.list rules) nan engine
  let document := (← Action.get).store.document? (some ruleSet)
  return .ok (.object [("success", .bool true), ("message", .text "Rules updated successfully"),
    ("rulesCount", .nat rules.length), ("data", document.getD .null)])

/-- Saves and uses posted rules if all of them are valid. -/
def updateRules (payload : Fields) (nan : Identity := .distinct) : Action Service Response :=
  match PostedRules.of payload with
  | .notList => Action.ofExcept rulesNotList
  | .invalid problems => do
    let details ← Action.ofExcept (details problems)
    Action.ofExcept (Response.refusal 400 (.object [failedValidation, details]))
  | .valid rules => acceptRules rules nan

/-- Checks posted rules without using them. -/
def validate (payload : Fields) : Action Service Response :=
  match PostedRules.of payload with
  | .notList => Action.ofExcept rulesNotList
  | .invalid problems => do
    let details ← Action.ofExcept (details problems)
    Action.ofExcept (Response.refusal 400
      (.object [("success", .bool false), failedValidation, details]))
  | .valid rules =>
    return .ok (.object [("success", .bool true), ("message", .text "All rules are valid"),
      ("rulesCount", .nat rules.length)])

end Loyalty.Service
