import Loyalty.Proofs.Client.Script
import Loyalty.Proofs.Json.Documents

/-!
# Requests that are answered

A request comes to an answer with its last attempt: the JSON of a response from a server
that has not failed. A run whose requests are all answered at once ends without a fault.
-/

namespace Loyalty

open Loyalty.Action

namespace Client

/-- The rules of a file, as they are pushed. -/
def rulesIn (file : RuleFile) : Except Fault Value := do
  let bytes ← file.bytes
  let document ← RuleFile.parse bytes
  rulesOf document

/-- Where the health of the service is asked for. -/
def healthUrl : String := baseUrl ++ "/api/health"

/-- Where rules are checked. -/
def validateUrl : String := baseUrl ++ "/api/rules/validate"

/-- Where rules are saved. -/
def rulesUrl : String := baseUrl ++ "/api/rules"

/-- Where bookings are tried out. -/
def calculateUrl : String := baseUrl ++ "/api/calculate"

/-- An answer is the JSON of a response from a server that has not failed. -/
theorem answerOf_eq_ok {url : String} {reply : Option Reply} {v : Value}
    (h : answerOf url reply = .ok v) :
    ∃ status reason text, reply = some (.response status reason text) ∧
      ¬ ServerFailed status ∧ Json.read text = .ok v := by
  unfold answerOf at h
  match reply with
  | none => cases h
  | some (.unreachable text) => cases h
  | some (.response status reason text) =>
    simp only [received] at h
    split at h
    · cases h
    · rename_i hstatus
      unfold parsed at h
      split at h
      · rename_i hread
        cases h
        exact ⟨status, reason, text, rfl, hstatus, hread⟩
      · cases h

/-- The JSON of such a response is the answer. -/
theorem answerOf_response {status : Int} {text : String} {v : Value}
    (hstatus : ¬ ServerFailed status) (hread : Json.read text = .ok v) (url reason : String) :
    answerOf url (some (.response status reason text)) = .ok v := by
  simp only [answerOf, received, if_neg hstatus, parsed, hread]

/-- An answer has few digits, as all that is read. -/
theorem hasFewDigits_of_answerOf {url : String} {reply : Option Reply} {v : Value}
    (h : answerOf url reply = .ok v) : v.HasFewDigits := by
  obtain ⟨_, _, _, -, -, hread⟩ := answerOf_eq_ok h
  exact Json.hasFewDigits_of_read hread

section Attempts

variable {method : Method} {endpoint : String} {body v : Value} {s s' : Session}

/-- A request with an answer is made once. -/
theorem attemptsLeft_of_answer (h : answerOf (baseUrl ++ endpoint) s.replies.head? = .ok v)
    (left : Nat) :
    attemptsLeft method endpoint body (left + 1) s =
      (⟨[], .ok v⟩, s.sent method (baseUrl ++ endpoint) body) := by
  have honce : (once method endpoint body).attempt s =
      (⟨[], .ok (.ok v)⟩, s.sent method (baseUrl ++ endpoint) body) := by
    rw [attempt_apply, once_apply, h]
  rw [attemptsLeft, bind_of_ok honce]
  rfl

/-- A request that an attempt fails on is made again after a pause, if that can help and
attempts are left. -/
theorem attemptsLeft_of_fault {fault : Fault}
    (h : answerOf (baseUrl ++ endpoint) s.replies.head? = .error fault) (left : Nat) :
    attemptsLeft method endpoint body (left + 1) s =
      (if isTransient fault then
        if left = 0 then do
          note (.requestFailed attempts fault)
          fail fault
        else do
          note (.requestRetried (attempts - left) attempts)
          pause
          attemptsLeft method endpoint body left
      else fail fault : Action Session Value) (s.sent method (baseUrl ++ endpoint) body) := by
  have honce : (once method endpoint body).attempt s =
      (⟨[], .ok (.error fault)⟩, s.sent method (baseUrl ++ endpoint) body) := by
    rw [attempt_apply, once_apply, h]
  rw [attemptsLeft, bind_of_ok honce]
  rfl

/-- A request that comes to an answer has it from its last attempt. -/
theorem exists_answer_of_attemptsLeft {left : Nat} (hleft : 0 < left) {notices : List Notice}
    (h : attemptsLeft method endpoint body left s = (⟨notices, .ok v⟩, s')) :
    ∃ t, s.Reaches (· = baseUrl ++ endpoint) t ∧
      answerOf (baseUrl ++ endpoint) t.replies.head? = .ok v ∧
      s' = t.sent method (baseUrl ++ endpoint) body := by
  induction left generalizing s notices with
  | zero => omega
  | succ left ih =>
    cases hanswer : answerOf (baseUrl ++ endpoint) s.replies.head? with
    | ok w =>
      rw [attemptsLeft_of_answer hanswer] at h
      cases h
      exact ⟨s, .refl, hanswer, rfl⟩
    | error fault =>
      rw [attemptsLeft_of_fault hanswer] at h
      split at h
      · split at h
        · cases h
        · rename_i hmore
          obtain ⟨_, _, _, _, hnote, h, -⟩ := bind_apply_eq_ok.mp h
          cases hnote
          obtain ⟨_, _, _, _, hpause, h, -⟩ := bind_apply_eq_ok.mp h
          cases hpause
          obtain ⟨t, hreaches, hlast, rfl⟩ := ih (by omega) h
          have hsent : s.Reaches (· = baseUrl ++ endpoint)
              (s.sent method (baseUrl ++ endpoint) body) := .single (.sent body rfl)
          have hpaused : s.Reaches (· = baseUrl ++ endpoint)
              (s.sent method (baseUrl ++ endpoint) body).paused := hsent.tail .paused
          exact ⟨t, hpaused.trans hreaches, hlast, rfl⟩
      · cases h

end Attempts

section Answered

/-- A request with an answer is made once. -/
theorem request_of_answer {endpoint : String} {v : Value} {s : Session}
    (h : answerOf (baseUrl ++ endpoint) s.replies.head? = .ok v) (body : Value) :
    request "POST" endpoint body s = (⟨[], .ok v⟩, s.sent .post (baseUrl ++ endpoint) body) :=
  attemptsLeft_of_answer h 2

/-- A session after some bookings were tried out. -/
def tried (bookings : List Sample) (s : Session) : Session :=
  bookings.foldl (fun s booking => s.sent .post calculateUrl booking.toValue) s

/-- Every booking is a request. -/
theorem requests_tried (bookings : List Sample) (s : Session) :
    (tried bookings s).requests =
      s.requests ++ bookings.map fun b => ⟨.post, calculateUrl, sentBody .post b.toValue⟩ := by
  induction bookings generalizing s with
  | nil => simp [tried]
  | cons booking bookings ih =>
    have hrest := ih (s.sent .post calculateUrl booking.toValue)
    rw [Session.requests_sent, List.append_assoc] at hrest
    exact hrest

/-- Bookings are tried out to the end if all of them are answered with an object. -/
theorem result_runSamples {reply : Reply}
    (hreply : answerOf calculateUrl (some reply) = .ok (.object [])) (bookings : List Sample)
    {s : Session} (hs : s.replies = List.replicate bookings.length reply) :
    (runSamples bookings).result s = (.ok (), tried bookings s) := by
  induction bookings generalizing s with
  | nil => rfl
  | cons booking bookings ih =>
    have hanswer : answerOf calculateUrl s.replies.head? = .ok (.object []) := by
      rw [hs]
      exact hreply
    have hrequest : (request "POST" "/api/calculate" booking.toValue).result s =
        (.ok (.object []), s.sent .post calculateUrl booking.toValue) := by
      rw [result, request_of_answer hanswer]
      rfl
    have htail : (s.sent .post calculateUrl booking.toValue).replies =
        List.replicate bookings.length reply := by
      rw [Session.sent, hs]
      rfl
    rw [runSamples, result_bind_of_ok hrequest]
    have hnull : ∀ key, optionalText key (.object []) = .ok "None" := fun _ => rfl
    simp only [Value.fieldOr, hnull, result_ofExcept_ok_bind, result_note_bind,
      List.lookup_nil, Option.getD_none, ih htail]
    rfl

/-- The service is there as soon as a response comes. -/
theorem result_awaitService {s : Session} {response : Int × String × String}
    (h : received s.replies.head? = .ok response) (left : Nat) :
    (awaitService (left + 1)).result s = (.ok (), s.sent .get healthUrl .null) := by
  have hawait : awaitService (left + 1) =
      whenThere healthUrl (pure ()) (if left = 0 then pure () else pause >>= fun _ =>
        awaitService left) := rfl
  rw [hawait, result, Script.whenThere_apply, h]
  rfl

section Push

variable {rules : Value} {s : Session} {checked fields : Fields}

/-- Rules are not refused if the check is answered with a success. -/
theorem result_check (h : answerOf validateUrl s.replies.head? = .ok (.object checked))
    (hsuccess : (checked.get "success").isTruthy = true) :
    (check rules).result s =
      (.ok (), s.sent .post validateUrl (.object [("rules", rules)])) := by
  have hrequest : (request "POST" "/api/rules/validate" (.object [("rules", rules)])).result s =
      (.ok (.object checked), s.sent .post validateUrl (.object [("rules", rules)])) := by
    rw [result, request_of_answer h]
    rfl
  rw [check, result_bind_of_ok hrequest, Value.fieldOrNull, Value.fieldOr, result_ofExcept_ok_bind]
  have htruthy : ((checked.lookup "success").getD .null).isTruthy = true := hsuccess
  rw [htruthy]
  rfl

/-- The rules of a file are saved if the check is answered with a success and the save with
an object. -/
theorem result_pushRules {file : RuleFile} {n : Nat} (hrules : rulesIn file = .ok rules)
    (hcount : rules.count = .ok n)
    (hchecked : answerOf validateUrl s.replies.head? = .ok (.object checked))
    (hsuccess : (checked.get "success").isTruthy = true)
    (hsaved : answerOf rulesUrl s.replies.tail.head? = .ok (.object fields)) :
    (pushRules file).result s = (.ok ((fields.lookup "rulesCount").getD (.int 0)),
      (s.sent .post validateUrl (.object [("rules", rules)])).sent .post rulesUrl
        (.object [("rules", rules)])) := by
  obtain ⟨bytes, hbytes, hrules⟩ := bind_eq_ok.mp hrules
  obtain ⟨document, hdocument, hrules⟩ := bind_eq_ok.mp hrules
  have hcheck := @result_check rules s checked hchecked hsuccess
  have hrequest : (request "POST" "/api/rules" (.object [("rules", rules)])).result
      (s.sent .post validateUrl (.object [("rules", rules)])) = (.ok (.object fields),
        (s.sent .post validateUrl (.object [("rules", rules)])).sent .post rulesUrl
          (.object [("rules", rules)])) := by
    have hanswer := @request_of_answer "/api/rules" _
      (s.sent .post validateUrl (.object [("rules", rules)])) hsaved (.object [("rules", rules)])
    rw [result, hanswer]
    rfl
  have hsavedText := Value.display_of_hasFewDigits
    ((hasFewDigits_of_answerOf hsaved).getD (by decide : (Value.int 0).HasFewDigits) "rulesCount")
  rw [pushRules, hbytes, result_ofExcept_ok_bind, hdocument, result_ofExcept_ok_bind, hrules,
    result_ofExcept_ok_bind, hcount, result_ofExcept_ok_bind, result_note_bind,
    result_bind_of_ok hcheck, result_bind_of_ok hrequest, Value.fieldOr, result_ofExcept_ok_bind,
    hsavedText, result_ofExcept_ok_bind, result_note_bind, result_pure]

/-- A session after the save, if no request had to be made again. -/
def savedSession (rules : Value) (replies : List Reply) : Session :=
  ⟨replies, [.request .get healthUrl none,
    .request .post validateUrl (some (.object [("rules", rules)])),
    .request .post rulesUrl (some (.object [("rules", rules)]))]⟩

/-- A run ends without a fault if a response tells that the service is there, the check is
answered with a success, the save with an object, and so are the bookings. -/
theorem result_run {file : RuleFile} {n : Nat} {there : Reply} {response : Int × String × String}
    {check save reply : Reply} (hrules : rulesIn file = .ok rules) (hcount : rules.count = .ok n)
    (hthere : received (some there) = .ok response)
    (hchecked : answerOf validateUrl (some check) = .ok (.object checked))
    (hsuccess : (checked.get "success").isTruthy = true)
    (hsaved : answerOf rulesUrl (some save) = .ok (.object fields))
    (hreply : answerOf calculateUrl (some reply) = .ok (.object [])) :
    (run file).result ⟨there :: check :: save :: List.replicate samples.length reply, []⟩ =
      (.ok (), tried samples (savedSession rules (List.replicate samples.length reply))) := by
  have hsamples := @result_runSamples reply hreply samples
    (savedSession rules (List.replicate samples.length reply)) rfl
  generalize List.replicate samples.length reply = rest at hsamples ⊢
  have hawait : (awaitService 10).result ⟨there :: check :: save :: rest, []⟩ =
      (.ok (), ⟨check :: save :: rest, [.request .get healthUrl none]⟩) :=
    @result_awaitService ⟨there :: check :: save :: rest, []⟩ response hthere 9
  have hpush : (pushRules file).result ⟨check :: save :: rest, [.request .get healthUrl none]⟩ =
      (.ok ((fields.lookup "rulesCount").getD (.int 0)), savedSession rules rest) :=
    @result_pushRules rules ⟨check :: save :: rest, [.request .get healthUrl none]⟩ checked fields
      file n hrules hcount hchecked hsuccess hsaved
  have htry : (pushAndTry file).result ⟨there :: check :: save :: rest, []⟩ =
      (.ok (), tried samples (savedSession rules rest)) := by
    rw [pushAndTry, result_note_bind, result_bind_of_ok hawait, result_bind_of_ok hpush,
      result_note_bind, result_bind_of_ok hsamples]
    rfl
  have hattempt : (pushAndTry file).attempt.result ⟨there :: check :: save :: rest, []⟩ =
      (.ok (.ok ()), tried samples (savedSession rules rest)) := by
    rw [result_attempt, htry]
  rw [run, result_bind_of_ok hattempt]
  rfl

end Push

end Answered

end Client

end Loyalty
