import Loyalty.Column
import Loyalty.Json.Writer
import Loyalty.Report
import Loyalty.Value.Equality
import Loyalty.Value.Sequence

/-!
# The store of rule sets

Rule sets are kept in rows, one for each name. Saving creates the row of a name
or overwrites it. A creation can find that another writer was faster; then the
row of that writer is overwritten. Rules are kept as JSON: an overwrite with
loosely equal rules leaves those that are stored.
-/

namespace Loyalty

/-- A stored rule set. -/
structure Row where
  /-- How many rows were created before this one; a row keeps it for good. -/
  identity : Nat
  name : String
  description : Option String
  version : Option String
  rules : Value
  updatedAt : Instant
  /-- Rules are read back from JSON text, which holds no other integers. -/
  fewDigits : rules.HasFewDigits

/-- The rows in the order of their creation. -/
structure Store where
  rows : List Row

/-- What is to be saved under a name. -/
structure SaveRequest where
  name : RuleSetName
  rules : Value
  description : Value
  version : Value
  /-- Whether not-a-number in these rules is the one that stored rules are read with. -/
  nan : Identity

namespace SaveRequest

/-- The name of a rule set unless another one is given. -/
def defaultName : String := "loyalty"

/-- The description of a rule set unless another one is given. -/
def defaultDescription : String := "Airline Loyalty Program Discount Rules"

/-- The version of a rule set unless another one is given, and of a row that is
created without one. -/
def defaultVersion : String := "1.0.0"

/-- Rules to be saved with the usual description and version, their not-a-numbers
being others than the stored ones. -/
def ofRules (name : RuleSetName) (rules : Value) : SaveRequest :=
  ⟨name, rules, .text defaultDescription, .text defaultVersion, .distinct⟩

end SaveRequest

/-- What a column of documents holds. -/
abbrev Value.Stored := { v : Value // v.HasFewDigits }

/-- Rules as they are stored: what is read back of their JSON text, which the column
keeps as a number if it is one. The reading refuses what the writing does. -/
def Value.stored (rules : Value) : Except Fault Value.Stored :=
  match Json.written rules with
  | .ok _ =>
    if h : (Json.reread rules).inColumn.HasFewDigits then .ok ⟨(Json.reread rules).inColumn, h⟩
    else .error (.notWritable .tooManyDigits)
  | .error reason => .error (.notWritable reason)

namespace Row

/-- The rules as the column of the row holds them. -/
def storedRules (row : Row) : Value.Stored := ⟨row.rules, row.fewDigits⟩

/-- The row as a document. -/
def document (row : Row) : Value :=
  .object [("version", (row.version.map Value.text).getD .null),
    ("description", (row.description.map Value.text).getD .null),
    ("lastUpdated", .text row.updatedAt.stamp), ("rules", row.rules)]

/-- The row after an overwrite. -/
def overwritten (now : Instant) (request : SaveRequest) (row : Row) : Except Fault Row := do
  let rules : Value.Stored ←
    if request.rules.looseEq request.nan .shared row.rules then .ok row.storedRules
    else request.rules.stored
  let description ← request.description.columnText
  let version ← request.version.columnText
  return { row with
    rules := rules
    description := description
    version := version
    updatedAt := now
    fewDigits := rules.property }

end Row

namespace Store

/-- A store without rows. -/
def empty : Store := ⟨[]⟩

/-- The row of a name. A missing name has none. -/
def find? (store : Store) (name : RuleSetName) : Option Row :=
  match name with
  | some name => store.rows.find? fun row => row.name == name
  | none => none

/-- Puts a row in the place of the row with its name. -/
def replace (row : Row) (store : Store) : Store :=
  ⟨store.rows.map fun other => if other.name == row.name then row else other⟩

/-- Adds a row for a request, refused when the name is missing or taken. Null is
no version, and gets the usual one. -/
def insert? (now : Instant) (request : SaveRequest) (store : Store) :
    Except Fault (Option (Row × Store)) := do
  let rules ← request.rules.stored
  let description ← request.description.columnText
  let version ← match request.version with
    | .null => .ok (some SaveRequest.defaultVersion)
    | version => version.columnText
  match request.name with
  | none => return none
  | some name =>
    if (store.find? (some name)).isSome then return none
    else
      let row : Row :=
        { identity := store.rows.length
          name := name
          description := description
          version := version
          rules := rules
          updatedAt := now
          fewDigits := rules.property }
      return some (row, ⟨store.rows ++ [row]⟩)

/-- Overwrites a row that was found, which is a fault when none was. -/
def overwrite (now : Instant) (request : SaveRequest) (found : Option Row) :
    Action Store Row := do
  match found with
  | none => Action.fail .rowMissing
  | some row =>
    let row ← Action.ofExcept (row.overwritten now request)
    Action.modify (replace row)
    let count ← Action.ofExcept request.rules.count
    Action.note (.rowReplaced request.name count)
    return row

/-- Saves rules under a name, given the row that a first look-up found. Without
one a row is added, and if that is refused the row found then is overwritten. The
rules are counted only after they are stored. -/
def saveOver (now : Instant) (request : SaveRequest) (found : Option Row) :
    Action Store Row := do
  match found with
  | some row => overwrite now request (some row)
  | none =>
    let store ← Action.get
    match ← Action.ofExcept (store.insert? now request) with
    | some (row, store) =>
      Action.modify fun _ => store
      let count ← Action.ofExcept request.rules.count
      Action.note (.rowCreated request.name count)
      return row
    | none => overwrite now request (store.find? request.name)

/-- Saves rules under a name. -/
def save (now : Instant) (request : SaveRequest) : Action Store Row := do
  let store ← Action.get
  saveOver now request (store.find? request.name)

/-- Saves rules under a name when the first look-up still found nothing. -/
def saveAfterLostRace (now : Instant) (request : SaveRequest) : Action Store Row :=
  saveOver now request none

/-- The document of a name. -/
def document? (store : Store) (name : RuleSetName) : Option Value :=
  (store.find? name).map Row.document

/-- The rules of a name, none when it has no row. -/
def rules (store : Store) (name : RuleSetName) : Except Fault (List Value) :=
  match store.find? name with
  | some row => row.rules.elements
  | none => .ok []

end Store

end Loyalty
