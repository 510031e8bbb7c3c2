import Loyalty.Value.Text

/-!
# Paths into records

A field of a condition is a dotted path. Each segment looks up a key of an
object or, if it is all digits, an index of an array. Where a segment finds
nothing in an object the walk goes on in the default; where there is nothing to
look into it ends with the default.
-/

namespace Loyalty

/-- The index that a segment of digits spells. Segments of digits that are not
all decimal are refused, and so are those with too many of them. -/
def readIndex (segment : List Char) : Except Fault Nat :=
  match takeDigits decimalDigit? segment with
  | (ds, rest) =>
    if Json.digitLimit < ds.length then .error (.indexTooLong ds.length)
    else if rest.isEmpty then .ok (ofDigits ds)
    else .error (.badIndex segment)

/-- Whether a segment can be an index. -/
def isIndex (segment : List Char) : Bool := !segment.isEmpty && segment.all isAnyDigit

namespace Value

/-- The value that a list of segments leads to. -/
def walk (default : Value) : List (List Char) → Value → Except Fault Value
  | [], v => .ok v
  | segment :: rest, v =>
    match v with
    | .object fields => walk default rest ((fields.lookup (String.ofList segment)).getD default)
    | .array _ items =>
      if isIndex segment then
        match readIndex segment with
        | .error f => .error f
        | .ok i =>
          match items[i]? with
          | some item => walk default rest item
          | none => .ok default
      else .ok default
    | _ => .ok default

/-- The value that the text of a path leads to in a record; the default for an empty
path. -/
def resolve (path record default : Value) : Except Fault Value :=
  match path.isTruthy, record with
  | false, _ => .ok default
  | true, .null => .ok default
  | true, record => do
    let text ← path.display
    walk default (segments '.' text.toList) record

end Value

end Loyalty
