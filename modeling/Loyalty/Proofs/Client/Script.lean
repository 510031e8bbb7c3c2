import Loyalty.Client.Push
import Loyalty.Proofs.Action
import Mathlib.Data.List.Forall2
import Mathlib.Logic.Relation

/-!
# What the client is made of

All that the client does with a session is making attempts at requests, asking whether
the service is there, and pausing. So a run is a walk of requests and pauses, in which
every request is answered by the next reply, and of a response the client tells no more
than whether the server has failed and what the body says.
-/

namespace Loyalty

open Loyalty.Action

/-- A request that was made. -/
structure Asked where
  method : Method
  url : String
  body : Option Value

/-- The request of an event, if it is one. -/
def Event.asked? : Event → Option Asked
  | .request method url body => some ⟨method, url, body⟩
  | .pause _ => none

namespace Session

/-- The requests that were made so far. -/
def requests (s : Session) : List Asked := s.trace.filterMap Event.asked?

/-- A session after a request. -/
def sent (s : Session) (method : Method) (url : String) (body : Value) : Session :=
  ⟨s.replies.tail, s.trace ++ [.request method url (Client.sentBody method body)]⟩

/-- A session after a pause. -/
def paused (s : Session) : Session := ⟨s.replies, s.trace ++ [.pause 1]⟩

/-- A request is the last one that was made. -/
@[simp] theorem requests_sent (s : Session) (method : Method) (url : String) (body : Value) :
    (s.sent method url body).requests =
      s.requests ++ [⟨method, url, Client.sentBody method body⟩] := by
  simp [requests, sent, Event.asked?]

/-- A pause is no request. -/
@[simp] theorem requests_paused (s : Session) : s.paused.requests = s.requests := by
  simp [requests, paused, Event.asked?]

/-- What the client can do next: make a request at an allowed address, or pause. -/
inductive Step (allowed : String → Prop) (s : Session) : Session → Prop where
  | sent {method : Method} {url : String} (body : Value) (h : allowed url) :
      Step allowed s (s.sent method url body)
  | paused : Step allowed s s.paused

/-- What the client can do one after the other. -/
abbrev Reaches (allowed : String → Prop) : Session → Session → Prop :=
  Relation.ReflTransGen (Step allowed)

/-- In a session that began with some replies, every request made has taken one. -/
def Follows (replies : List Reply) (s : Session) : Prop :=
  s.replies = replies.drop s.requests.length

variable {allowed : String → Prop} {s t : Session}

/-- What can be done at some addresses can be done at more. -/
theorem Reaches.mono {allowed' : String → Prop} (h : Reaches allowed s t)
    (hallowed : ∀ url, allowed url → allowed' url) : Reaches allowed' s t := by
  induction h with
  | refl => exact .refl
  | tail _ hstep ih =>
    refine ih.tail ?_
    cases hstep with
    | sent body h => exact .sent body (hallowed _ h)
    | paused => exact .paused

/-- A reply to come is for the request at its position. -/
theorem Follows.getElem?_replies {replies : List Reply} (h : s.Follows replies) (i : Nat) :
    s.replies[i]? = replies[s.requests.length + i]? := by
  rw [show s.replies = replies.drop s.requests.length from h, List.getElem?_drop]

/-- No step makes a request without taking a reply. -/
theorem Step.follows {replies : List Reply} (h : Step allowed s t) (hs : s.Follows replies) :
    t.Follows replies := by
  cases h with
  | sent body h =>
    rw [Follows, requests_sent, List.length_append, List.length_singleton, ← List.tail_drop]
    exact congrArg List.tail hs
  | paused =>
    rw [Follows, requests_paused]
    exact hs

/-- Every request of a run has taken its reply. -/
theorem Reaches.follows {replies : List Reply} (h : Reaches allowed s t)
    (hs : s.Follows replies) : t.Follows replies := by
  induction h with
  | refl => exact hs
  | tail _ hstep ih => exact hstep.follows ih

/-- A step adds at most a request, at an allowed address. -/
theorem Step.exists_requests (h : Step allowed s t) :
    ∃ later, t.requests = s.requests ++ later ∧ ∀ asked ∈ later, allowed asked.url := by
  cases h with
  | sent body h => exact ⟨_, requests_sent s _ _ body, by simpa using h⟩
  | paused => exact ⟨[], by simp, by simp⟩

/-- A run adds requests at allowed addresses. -/
theorem Reaches.exists_requests (h : Reaches allowed s t) :
    ∃ later, t.requests = s.requests ++ later ∧ ∀ asked ∈ later, allowed asked.url := by
  induction h with
  | refl => exact ⟨[], by simp, by simp⟩
  | tail _ hstep ih =>
    obtain ⟨later, hlater, hallowed⟩ := ih
    obtain ⟨last, hlast, hallowed_last⟩ := hstep.exists_requests
    refine ⟨later ++ last, by rw [hlast, hlater, List.append_assoc], ?_⟩
    exact List.forall_mem_append.mpr ⟨hallowed, hallowed_last⟩

end Session

namespace Client

/-- A status by which the server says that it has failed. -/
def ServerFailed (status : Int) : Prop := 500 ≤ status ∧ status < 600

instance (status : Int) : Decidable (ServerFailed status) :=
  inferInstanceAs (Decidable (500 ≤ status ∧ status < 600))

/-- What is received when the next reply is this one, or when there is none. -/
def received : Option Reply → Except Fault (Int × String × String)
  | none => .error (.connectionFailed "script exhausted")
  | some (.unreachable text) => .error (.connectionFailed text)
  | some (.response status reason body) => .ok (status, reason, body)

/-- The JSON that a text is read as. -/
def parsed (text : String) : Except Fault Value :=
  match Json.read text with
  | .ok v => .ok v
  | .error fault => .error (.badJson fault)

/-- What an attempt at a request comes to with the next reply. -/
def answerOf (url : String) (reply : Option Reply) : Except Fault Value :=
  match received reply with
  | .error fault => .error fault
  | .ok (status, reason, body) =>
    if ServerFailed status then .error (.serverFailed status reason url) else parsed body

/-- A request takes the next reply. -/
theorem send_apply (method : Method) (url : String) (body : Value) (s : Session) :
    send method url body s = (⟨[], received s.replies.head?⟩, s.sent method url body) := by
  obtain ⟨replies, trace⟩ := s
  cases replies with
  | nil => rfl
  | cons reply replies => cases reply <;> rfl

/-- An attempt at a request takes the next reply. -/
theorem once_apply (method : Method) (endpoint : String) (body : Value) (s : Session) :
    once method endpoint body s =
      (⟨[], answerOf (baseUrl ++ endpoint) s.replies.head?⟩,
        s.sent method (baseUrl ++ endpoint) body) := by
  have hsend := send_apply method (baseUrl ++ endpoint) body s
  rw [once, answerOf]
  cases hreceived : received s.replies.head? with
  | error fault =>
    rw [hreceived] at hsend
    exact bind_of_error hsend _
  | ok response =>
    obtain ⟨status, reason, text⟩ := response
    rw [hreceived] at hsend
    rw [bind_of_ok hsend]
    by_cases hstatus : ServerFailed status
    · simp only [if_pos hstatus, if_pos (show 500 ≤ status ∧ status < 600 from hstatus)]
      rfl
    · simp only [if_neg hstatus, if_neg (show ¬ (500 ≤ status ∧ status < 600) from hstatus)]
      cases hread : Json.read text with
      | ok v => simp only [bodyOf, parsed, hread]; rfl
      | error fault => simp only [bodyOf, parsed, hread]; rfl

/-- Replies that the client cannot tell apart: the same one, or two responses with one
body from a server that has not failed. -/
inductive Alike : Reply → Reply → Prop where
  | refl (reply : Reply) : Alike reply reply
  | response {status status' : Int} (reason reason' body : String)
      (h : ¬ ServerFailed status) (h' : ¬ ServerFailed status') :
      Alike (.response status reason body) (.response status' reason' body)

/-- Replies stay alike when one of them is replaced by one that is alike. -/
theorem Alike.forall₂_set {reply reply' : Reply} (h : Alike reply reply') {replies : List Reply}
    {k : Nat} (hreply : replies[k]? = some reply) :
    List.Forall₂ Alike replies (replies.set k reply') := by
  have hsame : ∀ replies, List.Forall₂ Alike replies replies :=
    fun replies => List.forall₂_same.mpr fun reply _ => .refl reply
  induction replies generalizing k with
  | nil => exact .nil
  | cons first replies ih =>
    cases k with
    | zero =>
      cases hreply
      exact .cons h (hsame replies)
    | succ k => exact .cons (.refl first) (ih hreply)

/-- An attempt comes to the same with replies that are alike. -/
theorem Alike.answerOf_eq {reply reply' : Reply} (h : Alike reply reply') (url : String) :
    answerOf url (some reply) = answerOf url (some reply') := by
  cases h with
  | refl => rfl
  | response reason reason' body h h' => simp only [answerOf, received, if_neg h, if_neg h']

/-- The service is there for both replies that are alike, or for neither. -/
theorem Alike.received {reply reply' : Reply} (h : Alike reply reply') :
    (∃ fault, received (some reply) = .error fault ∧ received (some reply') = .error fault) ∨
      ∃ response response', received (some reply) = .ok response ∧
        received (some reply') = .ok response' := by
  cases h with
  | refl reply =>
    cases reply with
    | unreachable text => exact .inl ⟨_, rfl, rfl⟩
    | response status reason body => exact .inr ⟨_, _, rfl, rfl⟩
  | response => exact .inr ⟨_, _, rfl, rfl⟩

/-- Sessions with the same past and replies to come that are alike. -/
structure SameSession (s s' : Session) : Prop where
  replies : List.Forall₂ Alike s.replies s'.replies
  trace : s.trace = s'.trace

namespace SameSession

variable {s s' : Session}

/-- Both sessions go on alike after a request. -/
theorem sent (h : SameSession s s') (method : Method) (url : String) (body : Value) :
    SameSession (s.sent method url body) (s'.sent method url body) := by
  refine ⟨?_, congrArg (· ++ _) h.trace⟩
  have hreplies := h.replies
  simp only [Session.sent]
  generalize s.replies = replies at hreplies
  generalize s'.replies = replies' at hreplies
  cases hreplies with
  | nil => exact .nil
  | cons _ htail => exact htail

/-- Both sessions go on alike after a pause. -/
theorem paused (h : SameSession s s') : SameSession s.paused s'.paused :=
  ⟨h.replies, congrArg (· ++ _) h.trace⟩

/-- The next replies of both sessions are alike. -/
theorem head? (h : SameSession s s') :
    (s.replies.head? = none ∧ s'.replies.head? = none) ∨
      ∃ reply reply', s.replies.head? = some reply ∧ s'.replies.head? = some reply' ∧
        Alike reply reply' := by
  have hreplies := h.replies
  generalize s.replies = replies at hreplies
  generalize s'.replies = replies' at hreplies
  cases hreplies with
  | nil => exact .inl ⟨rfl, rfl⟩
  | cons hhead _ => exact .inr ⟨_, _, rfl, rfl, hhead⟩

/-- An attempt comes to the same in both sessions. -/
theorem answerOf_eq (h : SameSession s s') (url : String) :
    answerOf url s.replies.head? = answerOf url s'.replies.head? := by
  rcases h.head? with ⟨hnone, hnone'⟩ | ⟨reply, reply', hreply, hreply', hsame⟩
  · rw [hnone, hnone']
  · rw [hreply, hreply', hsame.answerOf_eq]

end SameSession

/-- Goes on in one way if the service is there and in another if it is not. -/
def whenThere {α : Type} (url : String) (there away : Action Session α) : Action Session α := do
  match ← (send .get url .null).attempt with
  | .ok _ => there
  | .error _ => away

/-- An action of the client: reports, pauses, attempts at requests at allowed addresses and
looks whether the service is there, one after the other. -/
inductive Script (allowed : String → Prop) : {α : Type} → Action Session α → Prop where
  | lift {α : Type} (r : Report α) : Script allowed (Action.lift r)
  | pause : Script allowed pause
  | once (method : Method) {endpoint : String} (body : Value) (h : allowed (baseUrl ++ endpoint)) :
      Script allowed (once method endpoint body)
  | whenThere {α : Type} {url : String} {there away : Action Session α} (h : allowed url)
      (hthere : Script allowed there) (haway : Script allowed away) :
      Script allowed (whenThere url there away)
  | bind {α β : Type} {action : Action Session α} {next : α → Action Session β}
      (haction : Script allowed action) (hnext : ∀ a, Script allowed (next a)) :
      Script allowed (action >>= next)
  | attempt {α : Type} {action : Action Session α} (h : Script allowed action) :
      Script allowed action.attempt

namespace Script

variable {allowed : String → Prop} {α : Type} {action : Action Session α}

/-- A look whether the service is there takes a reply, and goes on. -/
theorem whenThere_apply (url : String) (there away : Action Session α) (s : Session) :
    Client.whenThere url there away s =
      match received s.replies.head? with
      | .ok _ => there (s.sent .get url .null)
      | .error _ => away (s.sent .get url .null) := by
  have hattempt : (send .get url .null).attempt s =
      (⟨[], .ok (received s.replies.head?)⟩, s.sent .get url .null) := by
    rw [attempt_apply, send_apply]
  rw [Client.whenThere, bind_of_ok hattempt]
  cases received s.replies.head? <;> rfl

/-- An action of the client is a walk of requests and pauses. -/
theorem reaches (h : Script allowed action) (s : Session) :
    s.Reaches allowed (action s).2 := by
  induction h generalizing s with
  | lift r => exact .refl
  | pause => exact .single .paused
  | once method body h =>
    rw [once_apply]
    exact .single (.sent body h)
  | whenThere h _ _ ihthere ihaway =>
    have hsent : s.Reaches allowed (s.sent .get _ .null) := .single (.sent .null h)
    rw [whenThere_apply]
    split
    · exact hsent.trans (ihthere _)
    · exact hsent.trans (ihaway _)
  | @bind _ _ action next _ _ ih ihnext =>
    have hfirst := ih s
    match hrun : action s with
    | (⟨notices, .ok a⟩, t) =>
      rw [hrun] at hfirst
      rw [bind_of_ok hrun]
      exact hfirst.trans (ihnext a t)
    | (⟨notices, .error fault⟩, t) =>
      rw [hrun] at hfirst
      rw [bind_of_error hrun]
      exact hfirst
  | attempt _ ih => exact ih s

/-- An action of the client comes to the same in sessions that are alike, and leaves
sessions that are alike. -/
theorem congr (h : Script allowed action) {s s' : Session} (hs : SameSession s s') :
    (action s).1 = (action s').1 ∧ SameSession (action s).2 (action s').2 := by
  induction h generalizing s s' with
  | lift r => exact ⟨rfl, hs⟩
  | pause => exact ⟨rfl, hs.paused⟩
  | once method body h =>
    rw [once_apply, once_apply, hs.answerOf_eq]
    exact ⟨rfl, hs.sent _ _ _⟩
  | @whenThere _ url there away h _ _ ihthere ihaway =>
    have hsent := hs.sent .get url .null
    rw [whenThere_apply, whenThere_apply]
    rcases hs.head? with ⟨hnone, hnone'⟩ | ⟨reply, reply', hreply, hreply', hsame⟩
    · rw [hnone, hnone']
      exact ihaway hsent
    · rw [hreply, hreply']
      rcases hsame.received with ⟨fault, hfault, hfault'⟩ | ⟨_, _, hresponse, hresponse'⟩
      · rw [hfault, hfault']
        exact ihaway hsent
      · rw [hresponse, hresponse']
        exact ihthere hsent
  | @bind _ _ action next _ _ ih ihnext =>
    obtain ⟨hreport, hsession⟩ := ih hs
    match hrun : action s, hrun' : action s' with
    | (⟨notices, .ok a⟩, t), (report, t') =>
      rw [hrun, hrun'] at hreport hsession
      subst hreport
      obtain ⟨hmore, hlast⟩ := ihnext a hsession
      rw [bind_of_ok hrun, bind_of_ok hrun', hmore]
      exact ⟨rfl, hlast⟩
    | (⟨notices, .error fault⟩, t), (report, t') =>
      rw [hrun, hrun'] at hreport hsession
      subst hreport
      rw [bind_of_error hrun, bind_of_error hrun']
      exact ⟨rfl, hsession⟩
  | @attempt _ action _ ih =>
    obtain ⟨hreport, hsession⟩ := ih hs
    rw [attempt_apply, attempt_apply, hreport]
    exact ⟨rfl, hsession⟩

end Script

section Parts

variable {allowed : String → Prop}

/-- A value without requests. -/
theorem script_pure {α : Type} (a : α) : Script allowed (pure a : Action Session α) :=
  .lift (.of a)

/-- A request is some attempts with pauses between. -/
theorem script_attemptsLeft (method : Method) {endpoint : String} (body : Value)
    (h : allowed (baseUrl ++ endpoint)) (left : Nat) :
    Script allowed (attemptsLeft method endpoint body left) := by
  induction left with
  | zero => exact script_pure _
  | succ left ih =>
    refine .bind (.attempt (.once method body h)) fun answer => ?_
    split
    · exact script_pure _
    · split
      · split
        · exact .bind (.lift _) fun _ => .lift _
        · exact .bind (.lift _) fun _ => .bind .pause fun _ => ih
      · exact .lift _

/-- A request with its kind as a word. -/
theorem script_request (method : String) {endpoint : String} (body : Value)
    (h : allowed (baseUrl ++ endpoint)) : Script allowed (request method endpoint body) := by
  unfold request
  split
  · exact script_attemptsLeft _ body h attempts
  · exact .lift _

/-- Telling problems needs no request. -/
theorem script_tellProblems (details : List Value) : Script allowed (tellProblems details) := by
  induction details with
  | nil => exact script_pure ()
  | cons detail details ih =>
    exact .bind (.lift _) fun _ => .bind (.lift _) fun _ => .bind (.lift _) fun _ =>
      .bind (.lift _) fun _ => ih

/-- Rules are checked at one address. -/
theorem script_check (rules : Value) (h : allowed (baseUrl ++ "/api/rules/validate")) :
    Script allowed (check rules) := by
  refine .bind (script_request "POST" _ h) fun answer => .bind (.lift _) fun success => ?_
  split
  · exact script_pure ()
  · exact .bind (.lift _) fun details => .bind (.lift _) fun items =>
      .bind (script_tellProblems items) fun _ => .lift _

/-- Rules are checked at one address and saved at another. -/
theorem script_pushRules (file : RuleFile) (hcheck : allowed (baseUrl ++ "/api/rules/validate"))
    (hsave : allowed (baseUrl ++ "/api/rules")) : Script allowed (pushRules file) :=
  .bind (.lift _) fun _ => .bind (.lift _) fun _ => .bind (.lift _) fun rules =>
    .bind (.lift _) fun _ => .bind (.lift _) fun _ => .bind (script_check rules hcheck) fun _ =>
      .bind (script_request "POST" _ hsave) fun _ => .bind (.lift _) fun _ =>
        .bind (.lift _) fun _ => .bind (.lift _) fun _ => script_pure _

/-- Bookings are tried out at one address. -/
theorem script_runSamples (bookings : List Sample) (h : allowed (baseUrl ++ "/api/calculate")) :
    Script allowed (runSamples bookings) := by
  induction bookings with
  | nil => exact script_pure ()
  | cons sample rest ih =>
    exact .bind (script_request "POST" _ h) fun _ => .bind (.lift _) fun _ =>
      .bind (.lift _) fun _ => .bind (.lift _) fun _ => .bind (.lift _) fun _ =>
        .bind (.lift _) fun _ => ih

/-- The service is awaited at one address. -/
theorem script_awaitService (h : allowed (baseUrl ++ "/api/health")) (left : Nat) :
    Script allowed (awaitService left) := by
  induction left with
  | zero => exact script_pure ()
  | succ left ih =>
    refine .whenThere h (script_pure ()) ?_
    split
    · exact script_pure ()
    · exact .bind .pause fun _ => ih

/-- The whole run, wherever its requests go. -/
theorem script_run (file : RuleFile) : Script (fun _ => True) (run file) := by
  have hpush : Script (fun _ => True) (pushAndTry file) :=
    .bind (.lift _) fun _ => .bind (script_awaitService trivial 10) fun _ =>
      .bind (script_pushRules file trivial trivial) fun _ => .bind (.lift _) fun _ =>
        .bind (script_runSamples samples trivial) fun _ => .lift _
  refine .bind (.attempt hpush) fun outcome => ?_
  split
  · exact script_pure ()
  · exact .bind (.lift _) fun _ => .lift _

end Parts

end Client

end Loyalty
