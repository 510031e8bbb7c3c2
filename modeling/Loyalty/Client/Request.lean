import Loyalty.Json.Reader
import Loyalty.Report

/-!
# Requests of the client

A request is made up to three times with a pause of a second between: again
after a connection that failed, a server that failed, or a body that is not JSON.
Any other answer is final. The whole exchange is kept as a trace.
-/

namespace Loyalty

/-- What comes back for a request. -/
inductive Reply where
  | unreachable (text : String)
  | response (status : Int) (reason body : String)

/-- The two kinds of requests. -/
inductive Method where
  | get
  | post
  deriving DecidableEq

namespace Method

/-- The word for a kind of request. -/
def symbol : Method → String
  | .get => "GET"
  | .post => "POST"

/-- The kind of request that a word is for. -/
def ofSymbol? (s : String) : Option Method := [get, post].find? fun m => m.symbol == s

end Method

/-- What the client did. -/
inductive Event where
  /-- A request, with its body if it has one. -/
  | request (method : Method) (url : String) (body : Option Value)
  | pause (seconds : Nat)

/-- The replies to come, and what the client did so far. -/
structure Session where
  replies : List Reply
  trace : List Event

namespace Client

/-- Where the service is. -/
def baseUrl : String := "http://localhost:8000"

/-- How often a request is made. -/
def attempts : Nat := 3

/-- Adds to what the client did. -/
def record (event : Event) : Action Session Unit :=
  Action.modify fun s => { s with trace := s.trace ++ [event] }

/-- Waits a second. -/
def pause : Action Session Unit := record (.pause 1)

/-- The body that is sent: none with a GET, and none in place of null. -/
def sentBody : Method → Value → Option Value
  | .get, _ => none
  | .post, .null => none
  | .post, body => some body

/-- Makes a request, and takes the next reply. The body, if it has one, has to have a
text in standard JSON; any other is not sent, and what comes of it instead is not told
here. -/
def send (method : Method) (url : String) (body : Value) :
    Action Session (Int × String × String) := do
  record (.request method url (sentBody method body))
  let s ← Action.get
  match s.replies with
  | [] => Action.fail (.connectionFailed "script exhausted")
  | reply :: replies =>
    Action.modify fun s => { s with replies := replies }
    match reply with
    | .unreachable text => Action.fail (.connectionFailed text)
    | .response status reason body => return (status, reason, body)

/-- The JSON in the body of a response. -/
def bodyOf (body : String) : Action Session Value :=
  match Json.read body with
  | .ok v => pure v
  | .error fault => Action.fail (.badJson fault)

/-- One attempt at a request: the server must not fail, and its answer has to be
JSON. -/
def once (method : Method) (endpoint : String) (body : Value) : Action Session Value := do
  let url := baseUrl ++ endpoint
  let (status, reason, body) ← send method url body
  if 500 ≤ status ∧ status < 600 then Action.fail (.serverFailed status reason url)
  else bodyOf body

/-- Whether a fault is worth another attempt. -/
def isTransient : Fault → Bool
  | .connectionFailed _ => true
  | .serverFailed .. => true
  | .badJson fault =>
    match fault.kind with
    | .tooManyDigits _ => false
    | _ => true
  | _ => false

/-- Makes a request with some attempts left; without any the answer is empty. -/
def attemptsLeft (method : Method) (endpoint : String) (body : Value) :
    Nat → Action Session Value
  | 0 => return .object []
  | left + 1 => do
    match ← (once method endpoint body).attempt with
    | .ok v => return v
    | .error fault =>
      if isTransient fault then
        if left = 0 then
          Action.note (.requestFailed attempts fault)
          Action.fail fault
        else
          Action.note (.requestRetried (attempts - left) attempts)
          pause
          attemptsLeft method endpoint body left
      else Action.fail fault

/-- Makes a request, again if need be. -/
def request (method : String) (endpoint : String) (body : Value) : Action Session Value :=
  match Method.ofSymbol? method with
  | some m => attemptsLeft m endpoint body attempts
  | none => Action.fail (.unsupportedMethod method)

end Client

end Loyalty
