import Loyalty.Json.Lexeme
import Loyalty.Number.Shortest
import Loyalty.Text.CharClass
import Loyalty.Value.Basic

/-!
# Writing JSON

Documents are kept as JSON text in plain ASCII: a space follows every comma and
colon, and a character outside printable ASCII is escaped by its UTF-16 units.
Doubles are written by their shortest decimal; infinities and not-a-number have
words of their own. Dates, moments and the mark of an absent field cannot be
written, and neither can an integer with more digits than one is read with.
-/

namespace Loyalty.Json

/-- Why a value has no JSON text. -/
inductive Unwritable where
  /-- A value of this kind is in it. -/
  | kind (kind : ValueKind)
  /-- An integer in it has more digits than the limit. -/
  | tooManyDigits
  deriving DecidableEq

/-- One UTF-16 unit as an escape. -/
def unitEscape (unit : Nat) : List Char := '\\' :: 'u' :: paddedDigits 16 4 unit

/-- One character inside a text. -/
def escapedChar (c : Char) : List Char :=
  if c = '"' then ['\\', '"']
  else if c = '\\' then ['\\', '\\']
  else if c = '\n' then ['\\', 'n']
  else if c = '\r' then ['\\', 'r']
  else if c = '\t' then ['\\', 't']
  else if c.toNat = 8 then ['\\', 'b']
  else if c.toNat = 12 then ['\\', 'f']
  else if 32 ≤ c.toNat ∧ c.toNat ≤ 126 then [c]
  else if c.toNat < 65536 then unitEscape c.toNat
  else
    unitEscape (55296 + (c.toNat - 65536) / 1024) ++ unitEscape (56320 + (c.toNat - 65536) % 1024)

/-- A text in quotes. -/
def writtenText (s : String) : List Char := '"' :: (s.toList.flatMap escapedChar ++ ['"'])

/-- A number; the three doubles that no decimal denotes are written as words. -/
def writtenNumber : Number → List Char
  | .double .nan => "NaN".toList
  | .double (.infinity false) => "Infinity".toList
  | .double (.infinity true) => "-Infinity".toList
  | n => n.text.toList

/-- Whether a number is an integer with more digits than the limit. -/
def hasTooManyDigits : Number → Bool
  | .int n => digitLimit < digitCount n.natAbs
  | .double _ => false

/-- Some written parts with a comma and a space between them. -/
def commaJoin : List (List Char) → List Char
  | [] => []
  | [part] => part
  | part :: parts => part ++ ',' :: ' ' :: commaJoin parts

mutual

/-- The JSON text of a value, or why it has none. -/
def written : Value → Except Unwritable (List Char)
  | .null => .ok "null".toList
  | .bool b => .ok (if b then "true" else "false").toList
  | .number n => if hasTooManyDigits n then .error .tooManyDigits else .ok (writtenNumber n)
  | .text s => .ok (writtenText s)
  | .array _ items => (writtenItems items).map fun parts => '[' :: (commaJoin parts ++ [']'])
  | .object fields =>
    (writtenFields fields).map fun parts => '\x7b' :: (commaJoin parts ++ ['\x7d'])
  | v => .error (.kind v.kind)

/-- The JSON texts of the items of an array. -/
def writtenItems : List Value → Except Unwritable (List (List Char))
  | [] => .ok []
  | v :: vs => do
    let part ← written v
    let parts ← writtenItems vs
    return part :: parts

/-- The JSON texts of the fields of an object, each with its key. -/
def writtenFields : List (String × Value) → Except Unwritable (List (List Char))
  | [] => .ok []
  | (key, v) :: rest => do
    let part ← written v
    let parts ← writtenFields rest
    return (writtenText key ++ ':' :: ' ' :: part) :: parts

end

mutual

/-- What reading the written text of a value gives back: tuples become lists. -/
def reread : Value → Value
  | .array _ items => .array .list (rereadItems items)
  | .object fields => .object (rereadFields fields)
  | v => v

/-- The items of an array as they are read back. -/
def rereadItems : List Value → List Value
  | [] => []
  | v :: vs => reread v :: rereadItems vs

/-- The fields of an object as they are read back. -/
def rereadFields : List (String × Value) → List (String × Value)
  | [] => []
  | (key, v) :: rest => (key, reread v) :: rereadFields rest

end

end Loyalty.Json
