import Loyalty.Fault
import Loyalty.Json.Writer

/-!
# Answers to requests

An answer is a status and a body. The body of a refusal is sent as standard JSON
and has to be written first, which an infinity or not-a-number in it prevents.
-/

namespace Loyalty

namespace Value

mutual

/-- The first thing in a value that standard JSON has no text for. -/
def standardJsonFault? : Value → Option Fault
  | .number (.double x) => if x.isFinite then none else some .notFinite
  | .number n => if Json.hasTooManyDigits n then some (.notWritable .tooManyDigits) else none
  | .array _ items => standardJsonFaultOfItems? items
  | .object fields => standardJsonFaultOfFields? fields
  | .date _ => some (.notWritable (.kind .date))
  | .moment _ => some (.notWritable (.kind .moment))
  | .missing => some (.notWritable (.kind .missing))
  | _ => none

/-- The first such thing in some values. -/
def standardJsonFaultOfItems? : List Value → Option Fault
  | [] => none
  | v :: vs => (standardJsonFault? v).orElse fun _ => standardJsonFaultOfItems? vs

/-- The first such thing in some fields. -/
def standardJsonFaultOfFields? : List (String × Value) → Option Fault
  | [] => none
  | (_, v) :: rest => (standardJsonFault? v).orElse fun _ => standardJsonFaultOfFields? rest

end

end Value

/-- An answer to a request. -/
structure Response where
  status : Nat
  body : Value

namespace Response

/-- An answer to a request that was carried out. -/
def ok (body : Value) : Response := ⟨200, body⟩

/-- The answer to a request that was refused, unless its body has no text in
standard JSON. -/
def refusal (status : Nat) (body : Value) : Except Fault Response :=
  match body.standardJsonFault? with
  | some fault => .error fault
  | none => .ok ⟨status, Json.reread body⟩

/-- A refusal that only says why. -/
def because (status : Nat) (reason : String) : Except Fault Response :=
  refusal status (.object [("error", .text reason)])

end Response

end Loyalty
