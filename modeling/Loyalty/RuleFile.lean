import Loyalty.Store

/-!
# Rule files

A rule file is a JSON document in UTF-8, an object with rules or the bare list of
them. It fills the store once: a rule set that is stored already is left alone.
-/

namespace Loyalty

/-- A file that may exist. -/
structure RuleFile where
  path : String
  contents : Option ByteArray

namespace RuleFile

/-- The document in some bytes, as it is written. -/
def parse (bytes : ByteArray) : Except Fault Value :=
  match String.fromUTF8? bytes with
  | none => .error .notUtf8
  | some text =>
    match Json.read text with
    | .ok v => .ok v
    | .error fault => .error (.badJson fault)

/-- A bare list of rules as a document. -/
def wrapped : Value → Value
  | .array .list rules => .object [("rules", .array .list rules)]
  | v => v

/-- The document in some bytes, a bare list wrapped. -/
def document (bytes : ByteArray) : Except Fault Value := (parse bytes).map wrapped

/-- The bytes of a file, which has to exist. -/
def bytes (file : RuleFile) : Except Fault ByteArray :=
  match file.contents with
  | some bytes => .ok bytes
  | none => .error (.fileMissing file.path)

/-- What a document asks to be saved under a name. -/
def request (name : RuleSetName) (document : Value) : Except Fault SaveRequest := do
  let rules ← document.fieldOr "rules" (.list [])
  let description ← document.fieldOr "description" (.text SaveRequest.defaultDescription)
  let version ← document.fieldOr "version" (.text SaveRequest.defaultVersion)
  return ⟨name, rules, description, version, .shared⟩

end RuleFile

namespace Store

/-- Fills an empty rule set from a file, and gives its row. -/
def seed (now : Instant) (name : RuleSetName) (file : RuleFile) : Action Store Row := do
  let store ← Action.get
  match store.find? name with
  | some row => return row
  | none =>
    let bytes ← Action.ofExcept file.bytes
    let document ← Action.ofExcept (RuleFile.document bytes)
    Action.note (.seeding name file.path)
    let request ← Action.ofExcept (RuleFile.request name document)
    save now request

end Store

end Loyalty
