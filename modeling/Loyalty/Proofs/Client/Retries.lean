import Loyalty.Proofs.Client.Saving
import Loyalty.Service.Response

/-!
# Requests that are made again

A request is made until a reply to it is no failure, and three times at most, with a pause of
a second between one time and the next. Then its last reply decides: the JSON of a response is
the answer, and the third failure is the fault. An integer with more digits than are read, in
the body of a response, is a fault at once.

A refusal, with a status from 400 to 499, counts as any other response. So it is the last
reply if its body is JSON, and is followed by another request if it is not.
-/

namespace Loyalty

open Loyalty.Action

namespace Client

/-! ## Verdicts -/

/-- What a reply is for the request that gets it. -/
inductive Verdict where
  /-- A response with JSON in its body, from a server that has not failed. -/
  | answer (v : Value)
  /-- No connection, a server that has failed, or a response whose body is not JSON. -/
  | failure (fault : Fault)
  /-- A response from a server that has not failed, with an integer in its body that has more
  digits than are read. -/
  | overlong (fault : Json.Fault)

namespace Verdict

/-- Whether a reply is a failure. -/
def IsFailure (verdict : Verdict) : Prop := ∃ fault, verdict = .failure fault

/-- What a request comes to if this is its last reply. -/
def outcome : Verdict → Except Fault Value
  | .answer v => .ok v
  | .failure fault => .error fault
  | .overlong fault => .error (.badJson fault)

/-- What is told of the last reply. -/
def notices : Verdict → List Notice
  | .failure fault => [.requestFailed attempts fault]
  | _ => []

end Verdict

/-- What the body of a response is. -/
def bodyVerdict (text : String) : Verdict :=
  match Json.read text with
  | .ok v => .answer v
  | .error fault =>
    match fault.kind with
    | .tooManyDigits _ => .overlong fault
    | _ => .failure (.badJson fault)

/-- What a reply is; when there are no more of them there is no connection. -/
def verdict (url : String) : Option Reply → Verdict
  | none => .failure (.connectionFailed "script exhausted")
  | some (.unreachable text) => .failure (.connectionFailed text)
  | some (.response status reason text) =>
    if ServerFailed status then .failure (.serverFailed status reason url) else bodyVerdict text

/-- A response from a server that has not failed is what its body is. -/
theorem verdict_response {status : Int} (h : ¬ ServerFailed status) (url reason text : String) :
    verdict url (some (.response status reason text)) = bodyVerdict text := if_neg h

/-- JSON is an answer. -/
theorem bodyVerdict_of_read {text : String} {v : Value} (h : Json.read text = .ok v) :
    bodyVerdict text = .answer v := by
  rw [bodyVerdict, h]

/-- An attempt comes to what its reply is. -/
theorem answerOf_eq_outcome (url : String) (reply : Option Reply) :
    answerOf url reply = (verdict url reply).outcome := by
  match reply with
  | none | some (.unreachable _) => rfl
  | some (.response status reason text) =>
    simp only [answerOf, received, verdict, parsed, bodyVerdict]
    split
    · rfl
    · cases Json.read text with
      | ok v => rfl
      | error fault =>
        simp only
        split <;> rfl

/-- Of what a reply comes to, a failure alone is worth another attempt. -/
theorem isTransient_iff_isFailure {url : String} {reply : Option Reply} {fault : Fault}
    (h : (verdict url reply).outcome = .error fault) :
    isTransient fault = true ↔ (verdict url reply).IsFailure := by
  match reply with
  | none | some (.unreachable _) =>
    cases h
    exact iff_of_true rfl ⟨_, rfl⟩
  | some (.response status reason text) =>
    by_cases hstatus : ServerFailed status
    · simp only [verdict, if_pos hstatus] at h ⊢
      cases h
      exact iff_of_true rfl ⟨_, rfl⟩
    · simp only [verdict, if_neg hstatus] at h ⊢
      unfold bodyVerdict at h ⊢
      cases hread : Json.read text with
      | ok v =>
        rw [hread] at h
        cases h
      | error f =>
        simp only [hread] at h ⊢
        split at h
        · rename_i hkind
          cases h
          exact iff_of_false (by simp [isTransient, hkind]) (by rintro ⟨_, ⟨⟩⟩)
        · rename_i hkind
          cases h
          exact iff_of_true (by simp [isTransient]) ⟨_, rfl⟩

/-! ## Runs of attempts -/

/-- What is done when a request is made a number of times: the same request each time, with a
pause between one time and the next. -/
def exchange (method : Method) (url : String) (body : Value) (n : Nat) : List Event :=
  (List.replicate n (.request method url (sentBody method body))).intersperse (.pause 1)

/-- What is told of some failures in a row, the first of which has a number. -/
def retryNotices (first n : Nat) : List Notice :=
  (List.range' first n).map fun i => .requestRetried i attempts

end Client

/-- A session after a request was made a number of times. -/
def Session.exchanged (s : Session) (method : Method) (url : String) (body : Value) (n : Nat) :
    Session := ⟨s.replies.drop n, s.trace ++ Client.exchange method url body n⟩

namespace Client

/-- The place of the last reply to a request with some attempts left, counted from zero: the
first reply that is no failure, or the reply to the last attempt. -/
structure LastReply (url : String) (left : Nat) (replies : List Reply) (k : Nat) : Prop where
  lt : k < left
  earlier : ∀ i < k, (verdict url replies[i]?).IsFailure
  last : k + 1 < left → ¬ (verdict url replies[k]?).IsFailure

section Attempts

variable {method : Method} {url endpoint : String} {body : Value} {replies : List Reply}

/-- A request that is made once more is followed by a pause. -/
theorem exchange_succ (n : Nat) : exchange method url body (n + 2) =
    .request method url (sentBody method body) :: .pause 1 :: exchange method url body (n + 1) :=
  rfl

/-- A request that is made once takes a reply. -/
theorem exchanged_one (s : Session) : s.exchanged method url body 1 = s.sent method url body := by
  rw [Session.exchanged, List.drop_one]
  rfl

/-- A request that is made once more goes on after a pause. -/
theorem exchanged_succ (s : Session) (n : Nat) :
    s.exchanged method url body (n + 2) =
      (s.sent method url body).paused.exchanged method url body (n + 1) := by
  simp only [Session.exchanged, Session.sent, Session.paused, exchange_succ, List.drop_tail,
    List.append_assoc, List.cons_append, List.nil_append]

/-- Each time that a request is made is a request. -/
@[simp] theorem requests_exchanged (s : Session) (n : Nat) :
    (s.exchanged method url body n).requests =
      s.requests ++ List.replicate n ⟨method, url, sentBody method body⟩ := by
  have hexchange : ∀ n, (exchange method url body n).filterMap Event.asked? =
      List.replicate n ⟨method, url, sentBody method body⟩ := by
    intro n
    induction n with
    | zero => rfl
    | succ n ih =>
      cases n with
      | zero => rfl
      | succ n => exact congrArg (⟨method, url, sentBody method body⟩ :: ·) ih
  rw [Session.requests, Session.exchanged, List.filterMap_append, hexchange]
  rfl

/-- A request that is made is one that was made. -/
theorem mem_requests_exchanged (s : Session) (n : Nat) :
    ⟨method, url, sentBody method body⟩ ∈ (s.exchanged method url body (n + 1)).requests := by
  simp

/-- What was requested before a request stays requested. -/
theorem requests_subset_exchanged (s : Session) (n : Nat) :
    s.requests ⊆ (s.exchanged method url body n).requests := by
  simp

/-- One failure more is told first. -/
theorem retryNotices_succ (first n : Nat) :
    retryNotices first (n + 1) = .requestRetried first attempts :: retryNotices (first + 1) n :=
  rfl

/-- A request is over with a reply that is no failure, and with the last attempt. -/
theorem attemptsLeft_of_last {left : Nat} {s : Session} {last : Verdict}
    (hlast : verdict (baseUrl ++ endpoint) s.replies.head? = last)
    (h : 0 < left → ¬ last.IsFailure) :
    attemptsLeft method endpoint body (left + 1) s =
      (⟨last.notices, last.outcome⟩, s.sent method (baseUrl ++ endpoint) body) := by
  have hanswer := answerOf_eq_outcome (baseUrl ++ endpoint) s.replies.head?
  rw [hlast] at hanswer
  cases last with
  | answer v =>
    rw [attemptsLeft_of_answer hanswer]
    rfl
  | failure fault =>
    have hleft : left = 0 := by
      by_contra hmore
      exact h (Nat.pos_of_ne_zero hmore) ⟨fault, rfl⟩
    have htransient : isTransient fault = true :=
      (isTransient_iff_isFailure (congrArg Verdict.outcome hlast)).mpr ⟨fault, hlast⟩
    rw [attemptsLeft_of_fault hanswer, if_pos htransient, if_pos hleft]
    rfl
  | overlong fault =>
    have hfinal : ¬ isTransient (.badJson fault) = true := by
      rw [isTransient_iff_isFailure (congrArg Verdict.outcome hlast), hlast]
      rintro ⟨_, ⟨⟩⟩
    rw [attemptsLeft_of_fault hanswer, if_neg hfinal]
    rfl

/-- A request goes on behind a failure, after a pause. -/
theorem attemptsLeft_of_isFailure {left : Nat} (hmore : 0 < left) {s s' : Session}
    (h : (verdict (baseUrl ++ endpoint) s.replies.head?).IsFailure) {notices : List Notice}
    {outcome : Except Fault Value}
    (hrun : attemptsLeft method endpoint body left
      (s.sent method (baseUrl ++ endpoint) body).paused = (⟨notices, outcome⟩, s')) :
    attemptsLeft method endpoint body (left + 1) s =
      (⟨.requestRetried (attempts - left) attempts :: notices, outcome⟩, s') := by
  obtain ⟨fault, hverdict⟩ := h
  have hanswer := answerOf_eq_outcome (baseUrl ++ endpoint) s.replies.head?
  rw [hverdict] at hanswer
  have htransient : isTransient fault = true :=
    (isTransient_iff_isFailure (congrArg Verdict.outcome hverdict)).mpr ⟨fault, hverdict⟩
  have hpause : pause (s.sent method (baseUrl ++ endpoint) body) =
      (⟨[], .ok ()⟩, (s.sent method (baseUrl ++ endpoint) body).paused) := rfl
  have hnext := bind_of_ok hpause fun _ => attemptsLeft method endpoint body left
  rw [hrun] at hnext
  rw [attemptsLeft_of_fault hanswer, if_pos htransient, if_neg (Nat.ne_of_gt hmore),
    note_bind_apply, hnext]
  rfl

/-- Behind a failure the last reply is looked for among the other replies. -/
theorem lastReply_succ_iff {left k : Nat} :
    LastReply url (left + 1) replies (k + 1) ↔
      (verdict url replies.head?).IsFailure ∧ LastReply url left replies.tail k := by
  rw [List.head?_eq_getElem?]
  constructor
  · rintro ⟨hlt, hearlier, hlast⟩
    refine ⟨hearlier 0 (Nat.succ_pos k), ⟨Nat.lt_of_succ_lt_succ hlt, fun i hi => ?_, fun hk => ?_⟩⟩
    · rw [List.getElem?_tail]
      exact hearlier (i + 1) (Nat.succ_lt_succ hi)
    · rw [List.getElem?_tail]
      exact hlast (Nat.succ_lt_succ hk)
  · rintro ⟨hhead, hlt, hearlier, hlast⟩
    simp only [List.getElem?_tail] at hearlier hlast
    refine ⟨Nat.succ_lt_succ hlt, fun i hi => ?_, fun hk => hlast (Nat.lt_of_succ_lt_succ hk)⟩
    cases i with
    | zero => exact hhead
    | succ i => exact hearlier i (Nat.lt_of_succ_lt_succ hi)

/-- The first reply is the last one if it is no failure, or if no attempt is left. -/
theorem lastReply_zero {left : Nat}
    (h : 0 < left → ¬ (verdict url replies.head?).IsFailure) :
    LastReply url (left + 1) replies 0 := by
  rw [List.head?_eq_getElem?] at h
  exact ⟨Nat.succ_pos left, fun i hi => absurd hi (Nat.not_lt_zero i),
    fun hmore => h (Nat.lt_of_succ_lt_succ hmore)⟩

/-- Some reply is the last one while attempts are left. -/
theorem exists_lastReply_of_pos (url : String) {left : Nat} (hleft : 0 < left)
    (replies : List Reply) :
    ∃ k, LastReply url left replies k := by
  induction left generalizing replies with
  | zero => exact absurd hleft (Nat.lt_irrefl 0)
  | succ left ih =>
    by_cases hmore : 0 < left ∧ (verdict url replies.head?).IsFailure
    · obtain ⟨k, hk⟩ := ih hmore.1 replies.tail
      exact ⟨k + 1, lastReply_succ_iff.mpr ⟨hmore.2, hk⟩⟩
    · exact ⟨0, lastReply_zero fun hleft hfailure => hmore ⟨hleft, hfailure⟩⟩

/-- Some reply to a request is the last one. -/
theorem exists_lastReply (url : String) (replies : List Reply) :
    ∃ k, LastReply url attempts replies k := exists_lastReply_of_pos url (by decide) replies

/-- A reply that was received is the last one if it is no failure, or if no attempt is left. -/
theorem LastReply.eq_iff {left k j : Nat} (h : LastReply url left replies k) (hj : j ≤ k) :
    j = k ↔ ((verdict url replies[j]?).IsFailure → j + 1 = left) := by
  have hlt := h.lt
  constructor
  · rintro rfl hfailure
    by_contra hmore
    exact h.last (by omega) hfailure
  · intro hover
    by_contra hne
    have hleft := hover (h.earlier j (by omega))
    omega

/-- There is one last reply. -/
theorem LastReply.unique {left k j : Nat} (h : LastReply url left replies k)
    (h' : LastReply url left replies j) : j = k := by
  have hover : ∀ {i}, LastReply url left replies i →
      (verdict url replies[i]?).IsFailure → i + 1 = left :=
    fun hi => (hi.eq_iff (Nat.le_refl _)).mp rfl
  rcases Nat.le_total j k with hle | hle
  · exact (h.eq_iff hle).mpr (hover h')
  · exact ((h'.eq_iff hle).mpr (hover h)).symm

/-- A request is made up to its last reply, and comes to what that is. -/
theorem attemptsLeft_eq {left k : Nat} {s : Session}
    (h : LastReply (baseUrl ++ endpoint) left s.replies k) (hleft : left ≤ attempts) :
    attemptsLeft method endpoint body left s =
      (⟨retryNotices (attempts - left + 1) k ++
            (verdict (baseUrl ++ endpoint) s.replies[k]?).notices,
          (verdict (baseUrl ++ endpoint) s.replies[k]?).outcome⟩,
        s.exchanged method (baseUrl ++ endpoint) body (k + 1)) := by
  induction left generalizing s k with
  | zero => exact absurd h.lt (Nat.not_lt_zero k)
  | succ left ih =>
    cases k with
    | zero =>
      have hlast := h.last
      rw [← List.head?_eq_getElem?] at hlast
      rw [← List.head?_eq_getElem?, exchanged_one]
      exact attemptsLeft_of_last rfl fun hmore => hlast (Nat.succ_lt_succ hmore)
    | succ k =>
      obtain ⟨hfailure, hrest⟩ := lastReply_succ_iff.mp h
      have hmore : 0 < left := Nat.zero_lt_of_lt hrest.lt
      have hrun := @ih k (s.sent method (baseUrl ++ endpoint) body).paused hrest (by omega)
      have hreply : (s.sent method (baseUrl ++ endpoint) body).paused.replies[k]? =
          s.replies[k + 1]? := List.getElem?_tail
      have hnumber : attempts - (left + 1) + 1 = attempts - left := by omega
      rw [hreply] at hrun
      rw [attemptsLeft_of_isFailure hmore hfailure hrun, exchanged_succ, hnumber,
        retryNotices_succ, List.cons_append]

/-- A request of one of the two kinds is made up to the last reply to three attempts. -/
theorem LastReply.request_eq {k : Nat} {s : Session} {last : Verdict}
    (h : LastReply (baseUrl ++ endpoint) attempts s.replies k)
    (hlast : verdict (baseUrl ++ endpoint) s.replies[k]? = last) (method : Method) (body : Value) :
    request method.symbol endpoint body s =
      (⟨retryNotices 1 k ++ last.notices, last.outcome⟩,
        s.exchanged method (baseUrl ++ endpoint) body (k + 1)) := by
  have hkind : request method.symbol endpoint body =
      attemptsLeft method endpoint body attempts := by
    cases method <;> rfl
  rw [hkind, attemptsLeft_eq h (Nat.le_refl _), hlast]
  rfl

end Attempts

/-! ## Requests -/

/-- The body that a request has, if it has one, has a text in standard JSON. A request with any
other body would not leave the client. -/
def CanBeSent (method : Method) (body : Value) : Prop :=
  ∀ sent, sentBody method body = some sent → sent.standardJsonFault? = none

/-- A request of one of the two kinds whose body can be sent is made as often as it takes: up to
the first reply that is no failure, and three times at most, with a pause of a second between one
time and the next and no other. It comes to what its last reply is: to the JSON of an answer, to
the third failure, or to an overlong integer. A request of another kind is not made at all. -/
theorem request_eq_exchange (endpoint : String) (body : Value) (s : Session) :
    (∀ method : Method, CanBeSent method body →
      ∃ k, LastReply (baseUrl ++ endpoint) attempts s.replies k ∧
        request method.symbol endpoint body s =
          (⟨retryNotices 1 k ++ (verdict (baseUrl ++ endpoint) s.replies[k]?).notices,
              (verdict (baseUrl ++ endpoint) s.replies[k]?).outcome⟩,
            s.exchanged method (baseUrl ++ endpoint) body (k + 1))) ∧
      ∀ word, word ≠ "GET" → word ≠ "POST" →
        request word endpoint body s = (⟨[], .error (.unsupportedMethod word)⟩, s) := by
  refine ⟨fun method _ => ?_, fun word hget hpost => ?_⟩
  · obtain ⟨k, hk⟩ := exists_lastReply (baseUrl ++ endpoint) s.replies
    exact ⟨k, hk, hk.request_eq rfl method body⟩
  · have hnone : Method.ofSymbol? word = none := by
      simp [Method.ofSymbol?, Method.symbol, Ne.symm hget, Ne.symm hpost]
    rw [request, hnone]
    rfl

/-- An empty object is an answer. -/
theorem verdict_emptyAnswer (url : String) :
    verdict url (some emptyAnswer) = .answer (.object []) := by
  have hread := @Json.read_of_written (.object []) "\x7b\x7d"
    (by simp [Value.WellFormed, Value.WellFormedFields]) rfl
  rw [emptyAnswer, verdict_response (by decide), bodyVerdict_of_read hread]
  rfl

/-- A service that cannot be reached, then has failed, and then answers. -/
def thirdTimeReplies : List Reply :=
  [.unreachable "refused", .response 503 "Service Unavailable" "", emptyAnswer]

/-- The answer comes with the third request. -/
theorem request_eq_exchange_thirdTime :
    "PUT" ≠ "GET" ∧ "PUT" ≠ "POST" ∧
      request "PUT" "/api/rules" goldRules ⟨thirdTimeReplies, []⟩ =
        (⟨[], .error (.unsupportedMethod "PUT")⟩, ⟨thirdTimeReplies, []⟩) ∧
      request "POST" "/api/rules" goldRules ⟨thirdTimeReplies, []⟩ =
        (⟨[.requestRetried 1 3, .requestRetried 2 3], .ok (.object [])⟩,
          ⟨[], exchange .post rulesUrl goldRules 3⟩) := by
  obtain ⟨hmade, hother⟩ := request_eq_exchange "/api/rules" goldRules ⟨thirdTimeReplies, []⟩
  refine ⟨by decide, by decide, hother "PUT" (by decide) (by decide), ?_⟩
  have hbody : CanBeSent .post goldRules := by
    rintro _ ⟨⟩
    rfl
  obtain ⟨k, hk, hrun⟩ := hmade .post hbody
  have hlast : LastReply rulesUrl attempts thirdTimeReplies 2 :=
    lastReply_succ_iff.mpr ⟨⟨_, rfl⟩, lastReply_succ_iff.mpr ⟨⟨_, rfl⟩,
      lastReply_zero fun hmore => absurd hmore (Nat.lt_irrefl 0)⟩⟩
  obtain rfl : k = 2 := hlast.unique hk
  have hanswer : verdict (baseUrl ++ "/api/rules") thirdTimeReplies[2]? = .answer (.object []) :=
    verdict_emptyAnswer rulesUrl
  rw [hanswer] at hrun
  exact hrun

/-- A response whose body is an integer with a digit too many is not returned. Nor is it asked
for again. -/
theorem request_eq_error_powerOfTen :
    request "GET" "/api/rules" .null ⟨[.response 200 "OK" (intText (10 ^ 4300))], []⟩ =
      (⟨[], .error (.badJson ⟨.tooManyDigits 4301, 1, 1, 0⟩)⟩,
        ⟨[], [.request .get rulesUrl none]⟩) := by
  have hcount : digitCount ((10 : Int) ^ 4300).natAbs = 4301 := digitCount_pow (by decide)
  have hread : Json.read (intText (10 ^ 4300)) = .error ⟨.tooManyDigits 4301, 1, 1, 0⟩ := by
    rw [← hcount]
    exact Json.read_of_tooManyDigits (by rw [hcount]; decide)
  generalize intText (10 ^ 4300) = text at hread ⊢
  have hoverlong : verdict rulesUrl (some (.response 200 "OK" text)) =
      .overlong ⟨.tooManyDigits 4301, 1, 1, 0⟩ := by
    rw [verdict_response (by decide), bodyVerdict, hread]
  exact @attemptsLeft_of_last .get "/api/rules" .null 2 ⟨[.response 200 "OK" text], []⟩ _
    hoverlong (by rintro _ ⟨_, ⟨⟩⟩)

/-- A status by which a request is refused. -/
def IsRefusal (status : Int) : Prop := 400 ≤ status ∧ status < 500

instance (status : Int) : Decidable (IsRefusal status) :=
  inferInstanceAs (Decidable (400 ≤ status ∧ status < 500))

/-- A refusal is no failure of the server. -/
theorem IsRefusal.not_serverFailed {status : Int} (h : IsRefusal status) :
    ¬ ServerFailed status := by
  unfold IsRefusal at h
  unfold ServerFailed
  omega

/-- A refusal that is received ends the request, which makes no pause and is not made again,
exactly if its body is no failure or no attempt is left; and if its body is JSON, that is what the
request comes to. But a body that is not JSON, in a refusal as in any other response, has the
request made again while there are attempts left. -/
theorem refusal_isLast_iff (method : Method) (endpoint : String) (body : Value) (s : Session) :
    ∃ k, (request method.symbol endpoint body s).2 =
        s.exchanged method (baseUrl ++ endpoint) body (k + 1) ∧
      ∀ j ≤ k, ∀ status reason text, s.replies[j]? = some (.response status reason text) →
        IsRefusal status →
          (j = k ↔ ((bodyVerdict text).IsFailure → j + 1 = attempts)) ∧
            ∀ v, Json.read text = .ok v →
              j = k ∧ (request method.symbol endpoint body s).1.outcome = .ok v := by
  obtain ⟨k, hk⟩ := exists_lastReply (baseUrl ++ endpoint) s.replies
  refine ⟨k, congrArg Prod.snd (hk.request_eq rfl method body), ?_⟩
  intro j hj status reason text hreply hrefusal
  have hverdict : verdict (baseUrl ++ endpoint) s.replies[j]? = bodyVerdict text := by
    rw [hreply, verdict_response hrefusal.not_serverFailed]
  have hlast := hk.eq_iff hj
  rw [hverdict] at hlast
  refine ⟨hlast, fun v hread => ?_⟩
  rw [bodyVerdict_of_read hread] at hverdict hlast
  obtain rfl : j = k := hlast.mpr (by rintro ⟨_, ⟨⟩⟩)
  rw [hk.request_eq hverdict method body]
  exact ⟨rfl, rfl⟩

/-- A refusal with JSON in its body. -/
def jsonRefusal : Reply := .response 404 "Not Found" "\x7b\"error\": \"No rules\"\x7d"

/-- A refusal that follows a failure is the last reply, and its JSON is the answer. -/
theorem refusal_isLast_iff_noRules :
    IsRefusal 404 ∧
      (request "GET" "/api/rules" .null ⟨[.unreachable "refused", jsonRefusal], []⟩).1.outcome =
        .ok (.object [("error", .text "No rules")]) ∧
      (request "GET" "/api/rules" .null ⟨[.unreachable "refused", jsonRefusal], []⟩).2 =
        ⟨[], exchange .get rulesUrl .null 2⟩ := by
  have hread := @Json.read_of_written (.object [("error", .text "No rules")])
    "\x7b\"error\": \"No rules\"\x7d" (by simp [Value.WellFormed, Value.WellFormedFields]) rfl
  have hrefusal : IsRefusal 404 := by decide
  obtain ⟨k, hstate, hends⟩ :=
    refusal_isLast_iff .get "/api/rules" .null ⟨[.unreachable "refused", jsonRefusal], []⟩
  have hverdict : verdict rulesUrl (some jsonRefusal) =
      .answer (.object [("error", .text "No rules")]) := by
    rw [jsonRefusal, verdict_response hrefusal.not_serverFailed, bodyVerdict_of_read hread]
    rfl
  have hlast : LastReply rulesUrl attempts [.unreachable "refused", jsonRefusal] 1 :=
    lastReply_succ_iff.mpr ⟨⟨_, rfl⟩, lastReply_zero fun _ => by
      rintro ⟨_, hfailure⟩
      cases hfailure.symm.trans hverdict⟩
  -- The refusal is received, since the connection that failed before it is not the end.
  have hreceived : 1 ≤ k := by
    have hrun := @LastReply.request_eq "/api/rules" 1
      ⟨[.unreachable "refused", jsonRefusal], []⟩ _ hlast hverdict .get .null
    refine Nat.one_le_iff_ne_zero.mpr ?_
    rintro rfl
    cases hstate.symm.trans (congrArg Prod.snd hrun)
  obtain ⟨-, hjson⟩ := hends 1 hreceived 404 _ _ rfl hrefusal
  obtain ⟨rfl, houtcome⟩ := hjson _ hread
  exact ⟨hrefusal, houtcome, hstate⟩

/-- A refusal whose body is not JSON. -/
def plainRefusal : Reply := .response 404 "Not Found" "Not Found"

/-- After such a refusal the request is made again, and what comes of it is another answer. -/
theorem request_again_after_plainRefusal :
    IsRefusal 404 ∧
      request "GET" "/api/rules" .null ⟨[plainRefusal, emptyAnswer], []⟩ =
        (⟨[.requestRetried 1 3], .ok (.object [])⟩,
          ⟨[], [.request .get rulesUrl none, .pause 1, .request .get rulesUrl none]⟩) := by
  have hread : Json.read "Not Found" = .error ⟨.valueExpected, 1, 1, 0⟩ :=
    Json.read_of_readScalar_eq_error (c := 'N') rfl rfl (by decide)
      ⟨by decide, by decide, by decide⟩ rfl
  have hrefusal : IsRefusal 404 := by decide
  have hfailure : (verdict rulesUrl (some plainRefusal)).IsFailure := by
    rw [plainRefusal, verdict_response hrefusal.not_serverFailed, bodyVerdict, hread]
    exact ⟨_, rfl⟩
  have hlast : LastReply rulesUrl attempts [plainRefusal, emptyAnswer] 1 :=
    lastReply_succ_iff.mpr ⟨hfailure, lastReply_zero fun _ => by
      rintro ⟨_, h⟩
      cases h.symm.trans (verdict_emptyAnswer rulesUrl)⟩
  exact ⟨hrefusal, @LastReply.request_eq "/api/rules" 1 ⟨[plainRefusal, emptyAnswer], []⟩ _ hlast
    (verdict_emptyAnswer rulesUrl) .get .null⟩

end Client

end Loyalty
