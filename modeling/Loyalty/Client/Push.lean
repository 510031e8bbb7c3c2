import Loyalty.Client.Request
import Loyalty.RuleFile

/-!
# Pushing a rule file

The client reads a rule file, has the service check the rules, saves them if the
check succeeds, and tries a few bookings.
-/

namespace Loyalty.Client

/-- The field of an object that has to be there. -/
def requiredField (key : String) : Value → Except Fault Value
  | .object fields =>
    match fields.lookup key with
    | some v => .ok v
    | none => .error (.fieldMissing key)
  | v => .error (.notIndexable v.kind)

/-- The rules of a rule file: those of an object, or the document itself. -/
def rulesOf (document : Value) : Except Fault Value :=
  match document with
  | .object fields => requiredField "rules" (.object fields)
  | rules => .ok rules

/-- The text of a field that has to be there. -/
def shownField (key : String) (v : Value) : Except Fault String := do
  let field ← requiredField key v
  field.display

/-- Tells the problems of rules that were refused. -/
def tellProblems : List Value → Action Session Unit
  | [] => pure ()
  | detail :: details => do
    let index ← Action.ofExcept (shownField "rule_index" detail)
    let id ← Action.ofExcept (shownField "rule_id" detail)
    let error ← Action.ofExcept (shownField "error" detail)
    Action.note (.ruleRefused index id error)
    tellProblems details

/-- Has rules checked; they must not be refused. -/
def check (rules : Value) : Action Session Unit := do
  let answer ← request "POST" "/api/rules/validate" (.object [("rules", rules)])
  let success ← Action.ofExcept (answer.fieldOrNull "success")
  if success.isTruthy then pure ()
  else
    let details ← Action.ofExcept (answer.fieldOr "details" (.list []))
    tellProblems (← Action.ofExcept details.elements)
    Action.fail .rulesRefused

/-- Has the rules of a file checked and saved; gives how many were saved. -/
def pushRules (file : RuleFile) : Action Session Value := do
  let bytes ← Action.ofExcept file.bytes
  let document ← Action.ofExcept (RuleFile.parse bytes)
  let rules ← Action.ofExcept (rulesOf document)
  Action.note (.validating (← Action.ofExcept rules.count) file.path)
  check rules
  let answer ← request "POST" "/api/rules" (.object [("rules", rules)])
  let saved ← Action.ofExcept (answer.fieldOr "rulesCount" (.int 0))
  Action.note (.rulesSaved (← Action.ofExcept saved.display))
  return saved

/-- A booking that is tried out. -/
structure Sample where
  tier : String
  totalSpend : Int
  bookingDate : String

/-- The bookings that are tried out. -/
def samples : List Sample :=
  [⟨"gold", 6000, "2025-11-03"⟩, ⟨"gold", 6000, "2025-11-01"⟩, ⟨"silver", 1000, "2025-11-03"⟩,
    ⟨"platinum", 12000, "2025-12-20"⟩]

/-- A booking as it is sent. -/
def Sample.toValue (s : Sample) : Value :=
  .object [("tier", .text s.tier), ("total_spend", .int s.totalSpend),
    ("booking_date", .text s.bookingDate)]

/-- The text of a field, or of null when it is absent. -/
def optionalText (key : String) (v : Value) : Except Fault String := do
  let field ← v.fieldOrNull key
  field.display

/-- Tries out some bookings. -/
def runSamples : List Sample → Action Session Unit
  | [] => pure ()
  | s :: rest => do
    let answer ← request "POST" "/api/calculate" s.toValue
    let result ← Action.ofExcept (answer.fieldOr "result" (.object []))
    let percent ← Action.ofExcept (optionalText "discount_percent" result)
    let finalAmount ← Action.ofExcept (optionalText "final_amount" result)
    let message ← Action.ofExcept (optionalText "message" result)
    Action.note (.sampleDone ⟨s.tier, s.totalSpend, s.bookingDate, percent, finalAmount, message⟩)
    runSamples rest

/-- Asks for the health of the service until there is some answer, a number of
times at most. -/
def awaitService : Nat → Action Session Unit
  | 0 => pure ()
  | left + 1 => do
    match ← (send .get (baseUrl ++ "/api/health") .null).attempt with
    | .ok _ => pure ()
    | .error _ =>
      if left = 0 then pure ()
      else
        pause
        awaitService left

/-- Waits for the service, pushes the rules of a file, and tries out the samples. -/
def pushAndTry (file : RuleFile) : Action Session Unit := do
  Action.note .waiting
  awaitService 10
  let _ ← pushRules file
  Action.note .blank
  runSamples samples
  Action.note .seedingDone

/-- The whole run, which ends with exit status 1 on any fault. -/
def run (file : RuleFile) : Action Session Unit := do
  match ← (pushAndTry file).attempt with
  | .ok () => pure ()
  | .error fault =>
    Action.note (.seedingFailed fault)
    Action.fail (.exit 1)

end Loyalty.Client
