import Loyalty.Proofs.Client.Retries

/-!
# Saves that follow a check

Rules are saved only after a check of the same rules, those of the file, that was answered
with a success. A push of a file therefore goes in one of three ways: it has no rules to be
checked, the check does not approve of them, or it does and they are saved. In the first two the
push fails, and no request is made where rules are saved. A run makes a push between requests
at other addresses.
-/

namespace Loyalty

open Loyalty.Action

namespace Client

/-! ## Requests that may follow others -/

/-- A request to check rules. -/
def checkOf (rules : Value) : Asked := ⟨.post, validateUrl, some (.object [("rules", rules)])⟩

/-- A request to save rules. -/
def saveOf (rules : Value) : Asked := ⟨.post, rulesUrl, some (.object [("rules", rules)])⟩

/-- A reply that approves of the rules checked: its answer is an object with a success. -/
def Approves (reply : Option Reply) : Prop :=
  ∃ fields : Fields, answerOf validateUrl reply = .ok (.object fields) ∧
    (fields.get "success").isTruthy = true

/-- A reply that is an object approves of the rules if it tells of a success. -/
theorem approves_iff {reply : Option Reply} {fields : Fields}
    (h : answerOf validateUrl reply = .ok (.object fields)) :
    Approves reply ↔ (fields.get "success").isTruthy = true := by
  constructor
  · rintro ⟨_, hobject, hsuccess⟩
    cases h.symm.trans hobject
    exact hsuccess
  · exact fun hsuccess => ⟨fields, h, hsuccess⟩

/-- A reply that approves is no failure. -/
theorem Approves.not_isFailure {reply : Option Reply} (h : Approves reply) :
    ¬ (verdict validateUrl reply).IsFailure := by
  rintro ⟨fault, hfailure⟩
  obtain ⟨fields, hanswer, -⟩ := h
  rw [answerOf_eq_outcome, hfailure] at hanswer
  cases hanswer

/-- A check of the rules at a position, with a reply that approves of them. -/
structure ApprovedAt (replies : List Reply) (requests : List Asked) (rules : Value) (j : Nat) :
    Prop where
  asked : requests[j]? = some (checkOf rules)
  approves : Approves replies[j]?

/-- The rules of the file were checked, and a reply approved of them. -/
def Approved (file : RuleFile) (replies : List Reply) (requests : List Asked) : Prop :=
  ∃ rules j, rulesIn file = .ok rules ∧ ApprovedAt replies requests rules j

/-- A request that may follow some others: one at an address where rules are neither checked
nor saved, a check of the rules of the file, or a save of them if they were approved before. -/
inductive Justified (file : RuleFile) (replies : List Reply) (before : List Asked) :
    Asked → Prop where
  | elsewhere {asked : Asked} (hcheck : asked.url ≠ validateUrl) (hsave : asked.url ≠ rulesUrl) :
      Justified file replies before asked
  | check {rules : Value} (h : rulesIn file = .ok rules) :
      Justified file replies before (checkOf rules)
  | save {rules : Value} {j : Nat} (h : rulesIn file = .ok rules)
      (happroved : ApprovedAt replies before rules j) :
      Justified file replies before (saveOf rules)

/-- Every request may follow those before it. -/
def ChecksFirst (file : RuleFile) (replies : List Reply) (requests : List Asked) : Prop :=
  ∀ k asked, requests[k]? = some asked → Justified file replies (requests.take k) asked

section Requests

variable {file : RuleFile} {replies : List Reply} {requests later : List Asked}

/-- What was approved stays approved. -/
theorem ApprovedAt.append {rules : Value} {j : Nat} (h : ApprovedAt replies requests rules j)
    (later : List Asked) : ApprovedAt replies (requests ++ later) rules j :=
  ⟨(List.getElem?_append_left (List.getElem?_eq_some_iff.mp h.asked).1).trans h.asked, h.approves⟩

/-- Rules that were approved stay approved. -/
theorem Approved.append (h : Approved file replies requests) (later : List Asked) :
    Approved file replies (requests ++ later) := by
  obtain ⟨rules, j, hrules, happroved⟩ := h
  exact ⟨rules, j, hrules, happroved.append later⟩

/-- A request that may follow some others may follow more. -/
theorem Justified.append {asked : Asked} (h : Justified file replies requests asked)
    (later : List Asked) : Justified file replies (requests ++ later) asked := by
  cases h with
  | elsewhere hcheck hsave => exact .elsewhere hcheck hsave
  | check h => exact .check h
  | save h happroved => exact .save h (happroved.append later)

/-- Without requests there is none that must follow others. -/
theorem checksFirst_nil : ChecksFirst file replies [] := by
  rintro k asked ⟨⟩

/-- Requests that may follow those made so far are made. -/
theorem ChecksFirst.append (h : ChecksFirst file replies requests)
    (hlater : ∀ asked ∈ later, Justified file replies requests asked) :
    ChecksFirst file replies (requests ++ later) := by
  intro k asked hasked
  by_cases hk : k < requests.length
  · rw [List.getElem?_append_left hk] at hasked
    rw [List.take_append_of_le_length (Nat.le_of_lt hk)]
    exact h k asked hasked
  · have hle : requests.length ≤ k := Nat.le_of_not_lt hk
    rw [List.getElem?_append_right hle] at hasked
    rw [List.take_append, List.take_of_length_le hle]
    exact (hlater asked (List.mem_of_getElem? hasked)).append _

/-- A request is made where rules are saved only if they were approved. -/
theorem ChecksFirst.approved (h : ChecksFirst file replies requests) {asked : Asked}
    (hasked : asked ∈ requests) (hsave : asked.url = rulesUrl) :
    Approved file replies requests := by
  obtain ⟨k, hk⟩ := List.mem_iff_getElem?.mp hasked
  have hbefore : Approved file replies (requests.take k) := by
    cases h k asked hk with
    | elsewhere _ hother => exact absurd hsave hother
    | check _ => exact absurd hsave (show validateUrl ≠ rulesUrl by decide)
    | save hrules happroved => exact ⟨_, _, hrules, happroved⟩
  rw [← List.take_append_drop k requests]
  exact hbefore.append _

end Requests

/-! ## The course of a push -/

/-- The ways in which a push of a file can go, with what it comes to and the session that it
leaves. -/
inductive PushCourse (file : RuleFile) (s : Session) : Except Fault Value × Session → Prop where
  /-- There are no rules to be checked, or none that can be counted. -/
  | unread (h : ∀ rules n, rulesIn file = .ok rules → rules.count ≠ .ok n) (fault : Fault) :
      PushCourse file s (.error fault, s)
  /-- The check does not approve of the rules. -/
  | refused {rules : Value} {k : Nat} (hrules : rulesIn file = .ok rules)
      (hlast : LastReply validateUrl attempts s.replies k) (hreply : ¬ Approves s.replies[k]?)
      (fault : Fault) :
      PushCourse file s
        (.error fault, s.exchanged .post validateUrl (.object [("rules", rules)]) (k + 1))
  /-- The check approves of the rules, and they are saved. -/
  | approved {rules : Value} {k : Nat} (hrules : rulesIn file = .ok rules)
      (hreply : Approves s.replies[k]?) (outcome : Except Fault Value) (n : Nat) :
      PushCourse file s
        (outcome, (s.exchanged .post validateUrl (.object [("rules", rules)]) (k + 1)).exchanged
          .post rulesUrl (.object [("rules", rules)]) (n + 1))

/-- Telling problems leaves the session alone. -/
theorem preserves_tellProblems {P : Session → Prop} (details : List Value) :
    Preserves P (tellProblems details) := by
  induction details with
  | nil => exact preserves_pure ()
  | cons detail details ih =>
    exact (preserves_lift _).bind fun _ => (preserves_lift _).bind fun _ =>
      (preserves_lift _).bind fun _ => (preserves_lift _).bind fun _ => ih

section Push

variable {file : RuleFile} {rules : Value} {s : Session}

/-- A request comes to what its last reply says. -/
theorem LastReply.result_request {endpoint : String} {k : Nat}
    (h : LastReply (baseUrl ++ endpoint) attempts s.replies k) (body : Value) :
    (request "POST" endpoint body).result s =
      (answerOf (baseUrl ++ endpoint) s.replies[k]?,
        s.exchanged .post (baseUrl ++ endpoint) body (k + 1)) := by
  have hrequest := h.request_eq rfl .post body
  rw [answerOf_eq_outcome]
  exact congrArg (fun run => (run.1.outcome, run.2)) hrequest

/-- Rules are refused unless the last reply to the check approves of them. -/
theorem result_check_cases {k : Nat} (h : LastReply validateUrl attempts s.replies k) :
    (Approves s.replies[k]? ∧ (check rules).result s =
        (.ok (), s.exchanged .post validateUrl (.object [("rules", rules)]) (k + 1))) ∨
      ¬ Approves s.replies[k]? ∧ ∃ fault, (check rules).result s =
        (.error fault, s.exchanged .post validateUrl (.object [("rules", rules)]) (k + 1)) := by
  have hrequest : (request "POST" "/api/rules/validate" (.object [("rules", rules)])).result s =
      (answerOf validateUrl s.replies[k]?,
        s.exchanged .post validateUrl (.object [("rules", rules)]) (k + 1)) := h.result_request _
  generalize s.exchanged .post validateUrl (.object [("rules", rules)]) (k + 1) = t at hrequest ⊢
  cases hanswer : answerOf validateUrl s.replies[k]? with
  | error fault =>
    rw [hanswer] at hrequest
    refine .inr ⟨?_, fault, result_bind_of_error hrequest _⟩
    rintro ⟨fields, hobject, -⟩
    cases hanswer.symm.trans hobject
  | ok answer =>
    rw [hanswer] at hrequest
    rw [check, result_bind_of_ok hrequest]
    rcases result_ofExcept_bind_cases (answer.fieldOrNull "success") _ t with
      ⟨fault, hfault, hresult⟩ | ⟨success, hsuccess, hresult⟩
    · refine .inr ⟨?_, fault, hresult⟩
      rintro ⟨fields, hobject, -⟩
      cases hanswer.symm.trans hobject
      cases hfault
    · obtain ⟨fields, rfl, rfl⟩ := Value.fieldOr_eq_ok.mp hsuccess
      rw [hresult, approves_iff hanswer, Fields.get]
      split
      · rename_i htruthy
        exact .inl ⟨htruthy, rfl⟩
      · rename_i hfalsy
        -- Telling the problems can fail as well, but leaves the session as it is.
        refine .inr ⟨hfalsy, exists_result_bind rfl fun _ =>
          exists_result_bind rfl fun items => ?_⟩
        have htold : Preserves (· = t) (tellProblems items) := preserves_tellProblems items
        exact exists_result_bind (htold t rfl) fun _ => ⟨_, rfl⟩

/-- A push that requests a save behind an approval has gone the third way, whatever it comes
to. -/
theorem PushCourse.of_saved {run : Except Fault Value × Session} {k n : Nat}
    (hrules : rulesIn file = .ok rules) (hreply : Approves s.replies[k]?)
    (hrun : run.2 = (s.exchanged .post validateUrl (.object [("rules", rules)])
      (k + 1)).exchanged .post rulesUrl (.object [("rules", rules)]) (n + 1)) :
    PushCourse file s run := by
  obtain ⟨outcome, p⟩ := run
  obtain rfl : p = _ := hrun
  exact .approved hrules hreply outcome n

/-- A push goes in one of the three ways. -/
theorem pushCourse_result (file : RuleFile) (s : Session) :
    PushCourse file s ((pushRules file).result s) := by
  -- The first three steps, up to the rules, are those of `rulesIn`.
  simp only [pushRules, ← ofExcept_bind_bind]
  change PushCourse file s ((ofExcept (rulesIn file) >>= _).result s)
  rcases result_ofExcept_bind_cases (rulesIn file) _ s with
    ⟨fault, hfault, hresult⟩ | ⟨rules, hrules, hresult⟩
  · rw [hresult]
    refine .unread (fun rules n hrules => ?_) fault
    cases hfault.symm.trans hrules
  rw [hresult]
  rcases result_ofExcept_bind_cases rules.count _ s with
    ⟨fault, hfault, hresult⟩ | ⟨count, -, hresult⟩
  · rw [hresult]
    refine .unread (fun rules' n hrules' hcount => ?_) fault
    cases hrules.symm.trans hrules'
    cases hfault.symm.trans hcount
  rw [hresult, result_note_bind]
  obtain ⟨k, hk⟩ := exists_lastReply validateUrl s.replies
  rcases @result_check_cases rules s k hk with ⟨hreply, hcheck⟩ | ⟨hreply, fault, hcheck⟩
  · obtain ⟨n, hn⟩ := exists_lastReply rulesUrl
      (s.exchanged .post validateUrl (.object [("rules", rules)]) (k + 1)).replies
    have hsaved := hn.result_request (.object [("rules", rules)])
    rw [result_bind_of_ok hcheck]
    refine .of_saved hrules hreply ((snd_result_bind ?_).trans (congrArg Prod.snd hsaved))
    exact fun answer => (preserves_lift _).bind fun _ => (preserves_lift _).bind fun _ =>
      (preserves_lift _).bind fun _ => preserves_pure _
  · rw [result_bind_of_error hcheck]
    exact .refused hrules hk hreply fault

/-- Rules are approved with the last request of their check. -/
theorem approvedAt_exchanged {replies : List Reply} {k : Nat} (hs : s.Follows replies)
    (h : Approves s.replies[k]?) :
    ApprovedAt replies (s.requests ++ List.replicate (k + 1) (checkOf rules)) rules
      (s.requests.length + k) := by
  rw [hs.getElem?_replies] at h
  refine ⟨?_, h⟩
  rw [List.getElem?_append_right (Nat.le_add_right _ k), Nat.add_sub_cancel_left,
    List.getElem?_replicate_of_lt (Nat.lt_succ_self k)]

/-- Rules are not approved if the last reply to their check does not approve of them. -/
theorem not_approvedAt_exchanged {replies : List Reply} {k : Nat} (hs : s.Follows replies)
    (hbefore : ∀ asked ∈ s.requests, asked.url ≠ validateUrl)
    (hlast : LastReply validateUrl attempts s.replies k) (hreply : ¬ Approves s.replies[k]?)
    (rules' : Value) (j : Nat) :
    ¬ ApprovedAt replies (s.requests ++ List.replicate (k + 1) (checkOf rules)) rules' j := by
  rintro ⟨hasked, happroves⟩
  have hlt := (List.getElem?_eq_some_iff.mp hasked).1
  rw [List.length_append, List.length_replicate] at hlt
  by_cases hj : j < s.requests.length
  · rw [List.getElem?_append_left hj] at hasked
    exact hbefore _ (List.mem_of_getElem? hasked) rfl
  · obtain ⟨i, rfl⟩ := Nat.exists_eq_add_of_le (Nat.le_of_not_lt hj)
    rw [← hs.getElem?_replies] at happroves
    have hi : i = k := (hlast.eq_iff (by omega)).mpr
      fun hfailure => absurd hfailure happroves.not_isFailure
    exact hreply (hi ▸ happroves)

namespace PushCourse

variable {replies : List Reply} {outcome : Except Fault Value} {p : Session}

/-- Every request of a push may follow those before it. -/
theorem checksFirst (h : PushCourse file s (outcome, p)) (hs : s.Follows replies)
    (hbefore : ChecksFirst file replies s.requests) : ChecksFirst file replies p.requests := by
  have hchecks : ∀ {rules : Value}, rulesIn file = .ok rules → ∀ n,
      ChecksFirst file replies (s.requests ++ List.replicate n (checkOf rules)) := by
    intro rules hrules n
    refine hbefore.append fun asked hasked => ?_
    rw [List.eq_of_mem_replicate hasked]
    exact .check hrules
  cases h with
  | unread => exact hbefore
  | refused hrules =>
    rw [requests_exchanged]
    exact hchecks hrules _
  | @approved rules k hrules hreply =>
    rw [requests_exchanged, requests_exchanged]
    refine (hchecks hrules (k + 1)).append fun asked hasked => ?_
    rw [List.eq_of_mem_replicate hasked]
    exact .save hrules (approvedAt_exchanged hs hreply)

/-- Rules that can be counted are checked. -/
theorem checked {n : Nat} (h : PushCourse file s (outcome, p)) (hrules : rulesIn file = .ok rules)
    (hcount : rules.count = .ok n) : checkOf rules ∈ p.requests := by
  cases h with
  | unread hnone => exact absurd hcount (hnone rules n hrules)
  | refused hrules' =>
    cases hrules.symm.trans hrules'
    exact mem_requests_exchanged s _
  | @approved _ k hrules' _ _ n =>
    cases hrules.symm.trans hrules'
    exact requests_subset_exchanged _ (n + 1) (mem_requests_exchanged s k)

/-- A push that saves nothing fails, and no rules were approved. -/
theorem saved_or_failed (h : PushCourse file s (outcome, p)) (hs : s.Follows replies)
    (hbefore : ∀ asked ∈ s.requests, asked.url ≠ validateUrl) :
    (∃ asked ∈ p.requests, asked.url = rulesUrl) ∨
      (∃ fault, outcome = .error fault) ∧ ¬ Approved file replies p.requests := by
  cases h with
  | unread hnone fault =>
    refine .inr ⟨⟨fault, rfl⟩, ?_⟩
    rintro ⟨rules, j, -, hasked, -⟩
    exact hbefore _ (List.mem_of_getElem? hasked) rfl
  | refused _ hlast hreply fault =>
    refine .inr ⟨⟨fault, rfl⟩, ?_⟩
    rintro ⟨rules, j, -, happroved⟩
    rw [requests_exchanged] at happroved
    exact not_approvedAt_exchanged hs hbefore hlast hreply rules j happroved
  | approved => exact .inl ⟨_, mem_requests_exchanged _ _, rfl⟩

end PushCourse

end Push

/-! ## The course of a run -/

/-- The service is awaited at one address, and then it is taken to be there. -/
theorem exists_result_awaitService (left : Nat) (s : Session) :
    ∃ t, s.Reaches (· = healthUrl) t ∧ (awaitService left).result s = (.ok (), t) := by
  induction left generalizing s with
  | zero => exact ⟨s, .refl, rfl⟩
  | succ left ih =>
    have hawait : awaitService (left + 1) =
        whenThere healthUrl (pure ()) (if left = 0 then pure () else pause >>= fun _ =>
          awaitService left) := rfl
    have hsent : s.Reaches (· = healthUrl) (s.sent .get healthUrl .null) :=
      .single (.sent .null rfl)
    rw [hawait, result, Script.whenThere_apply]
    split
    · exact ⟨_, hsent, rfl⟩
    · split
      · exact ⟨_, hsent, rfl⟩
      · obtain ⟨t, hreaches, hresult⟩ := ih (s.sent .get healthUrl .null).paused
        have hpause : (pause : Action Session Unit).result (s.sent .get healthUrl .null) =
            (.ok (), (s.sent .get healthUrl .null).paused) := rfl
        exact ⟨t, (hsent.tail .paused).trans hreaches, (result_bind_of_ok hpause _).trans hresult⟩

/-- A run does what it does to push and try, and a fault is its exit status. -/
theorem result_run_eq (file : RuleFile) (s : Session) :
    (run file).result s =
      (((pushAndTry file).result s).1.mapError fun _ => .exit 1,
        ((pushAndTry file).result s).2) := by
  have hattempt := result_attempt (pushAndTry file) s
  rw [run, result_bind_of_ok hattempt]
  cases ((pushAndTry file).result s).1 with
  | ok _ => rfl
  | error _ => rfl

/-- A run makes a push between requests at other addresses, and is over if the push fails. -/
theorem exists_pushCourse_of_run (file : RuleFile) (s : Session) :
    ∃ t outcome p, s.Reaches (· = healthUrl) t ∧ PushCourse file t (outcome, p) ∧
      p.Reaches (· = calculateUrl) ((run file).result s).2 ∧
      ∀ fault, outcome = .error fault → (run file).result s = (.error (.exit 1), p) := by
  obtain ⟨t, hready, hawait⟩ := exists_result_awaitService 10 s
  obtain ⟨⟨outcome, p⟩, hpush⟩ : ∃ result, (pushRules file).result t = result := ⟨_, rfl⟩
  have hcourse := pushCourse_result file t
  have hrun := result_run_eq file s
  rw [hpush] at hcourse
  rw [pushAndTry, result_note_bind, result_bind_of_ok hawait] at hrun
  cases outcome with
  | error fault =>
    rw [result_bind_of_error hpush] at hrun
    rw [hrun]
    exact ⟨t, _, p, hready, hcourse, .refl, fun _ _ => rfl⟩
  | ok saved =>
    have hrest : Script (· = calculateUrl) (do
        note .blank
        runSamples samples
        note .seedingDone) :=
      .bind (.lift _) fun _ => .bind (script_runSamples samples rfl) fun _ => .lift _
    rw [result_bind_of_ok hpush] at hrun
    rw [hrun]
    refine ⟨t, _, p, hready, hcourse, hrest.reaches p, ?_⟩
    rintro fault ⟨⟩

/-! ## Saves -/

section Saves

variable {file : RuleFile} {replies : List Reply}

/-- Requests elsewhere may follow any. -/
theorem ChecksFirst.of_reaches {url : String} {s t : Session}
    (hs : ChecksFirst file replies s.requests) (h : s.Reaches (· = url) t)
    (hcheck : url ≠ validateUrl) (hsave : url ≠ rulesUrl) :
    ChecksFirst file replies t.requests := by
  obtain ⟨later, hlater, hurls⟩ := h.exists_requests
  rw [hlater]
  refine hs.append fun asked hasked => .elsewhere ?_ ?_
  · rw [hurls asked hasked]
    exact hcheck
  · rw [hurls asked hasked]
    exact hsave

/-- What it comes to when a file is pushed with some replies, and the requests made: rules that
can be counted are checked, each request may follow those before it, rules are saved exactly if
they were approved, and if they were not there is a fault. -/
structure SavesApproved {α : Type} (file : RuleFile) (replies : List Reply)
    (outcome : Except Fault α) (requests : List Asked) : Prop where
  checked : ∀ rules n, rulesIn file = .ok rules → rules.count = .ok n → checkOf rules ∈ requests
  checks_first : ChecksFirst file replies requests
  saves_iff : (∃ asked ∈ requests, asked.url = rulesUrl) ↔ Approved file replies requests
  fails : ¬ Approved file replies requests → ∃ fault, outcome = .error fault

/-- The requests of a push, before which neither rules were checked nor saved, save approved
rules. -/
theorem PushCourse.savesApproved {s p : Session} {outcome : Except Fault Value}
    (h : PushCourse file s (outcome, p)) (hs : s.Follows replies)
    (hfirst : ChecksFirst file replies s.requests)
    (hbefore : ∀ asked ∈ s.requests, asked.url ≠ validateUrl) :
    SavesApproved file replies outcome p.requests := by
  have hpushed : ChecksFirst file replies p.requests := h.checksFirst hs hfirst
  have hends := h.saved_or_failed hs hbefore
  refine ⟨fun _ _ => h.checked, hpushed, ⟨?_, fun happroved => ?_⟩, fun hnone => ?_⟩
  · rintro ⟨asked, hasked, hsave⟩
    exact hpushed.approved hasked hsave
  · exact hends.resolve_right fun hfailed => hfailed.2 happroved
  · rcases hends with ⟨asked, hasked, hsave⟩ | ⟨hfault, -⟩
    · exact absurd (hpushed.approved hasked hsave) hnone
    · exact hfault

/-- A push that has not failed has saved approved rules, whatever is requested elsewhere next. -/
theorem SavesApproved.append {α β : Type} {requests later : List Asked} {a : α}
    (h : SavesApproved file replies (.ok a) requests)
    (hfirst : ChecksFirst file replies (requests ++ later)) (outcome : Except Fault β) :
    SavesApproved file replies outcome (requests ++ later) := by
  have happroved : Approved file replies requests := by
    by_contra hnone
    obtain ⟨fault, ⟨⟩⟩ := h.fails hnone
  obtain ⟨asked, hasked, hsave⟩ := h.saves_iff.mpr happroved
  exact ⟨fun rules n hrules hcount => List.mem_append_left _ (h.checked rules n hrules hcount),
    hfirst, iff_of_true ⟨asked, List.mem_append_left _ hasked, hsave⟩ (happroved.append later),
    fun hnone => absurd (happroved.append later) hnone⟩

end Saves

/-- In a push of a file, and in a run with it, rules are saved only after a check that was
answered with a success, and the rules checked and saved are those of the file. If the check does
not succeed, the push fails and no request is made where rules are saved. -/
theorem saves_only_approved (file : RuleFile) (replies : List Reply) :
    SavesApproved file replies (pushRules file ⟨replies, []⟩).1.outcome
        (pushRules file ⟨replies, []⟩).2.requests ∧
      SavesApproved file replies (run file ⟨replies, []⟩).1.outcome
        (run file ⟨replies, []⟩).2.requests := by
  constructor
  · have hcourse : PushCourse file ⟨replies, []⟩
        ((pushRules file ⟨replies, []⟩).1.outcome, (pushRules file ⟨replies, []⟩).2) :=
      pushCourse_result file ⟨replies, []⟩
    refine hcourse.savesApproved rfl checksFirst_nil ?_
    rintro asked ⟨⟩
  · obtain ⟨t, outcome, p, hready, hcourse, hlater, hfailed⟩ :=
      exists_pushCourse_of_run file ⟨replies, []⟩
    obtain ⟨before, hrequests, hurls⟩ := hready.exists_requests
    have hbefore : ∀ asked ∈ t.requests, asked.url ≠ validateUrl := by
      intro asked hasked
      rw [hrequests] at hasked
      rw [hurls asked hasked]
      decide
    have hfirst : ChecksFirst file replies t.requests :=
      checksFirst_nil.of_reaches hready (by decide) (by decide)
    have hpushed := hcourse.savesApproved (hready.follows rfl) hfirst hbefore
    cases outcome with
    | error fault =>
      have hrun := hfailed fault rfl
      have houtcome : (run file ⟨replies, []⟩).1.outcome = .error (.exit 1) :=
        congrArg Prod.fst hrun
      have hstate : (run file ⟨replies, []⟩).2 = p := congrArg Prod.snd hrun
      rw [houtcome, hstate]
      exact ⟨hpushed.checked, hpushed.checks_first, hpushed.saves_iff, fun _ => ⟨_, rfl⟩⟩
    | ok saved =>
      have hlast := hpushed.checks_first.of_reaches hlater (by decide) (by decide)
      obtain ⟨later, hrest, -⟩ := hlater.exists_requests
      change SavesApproved file replies _ ((run file).result ⟨replies, []⟩).2.requests
      rw [hrest] at hlast ⊢
      exact hpushed.append hlast _

/-- A reply that does not approve of the rules checked. -/
def doubt : Reply := .response 400 "Bad Request" "\x7b\"success\": false\x7d"

/-- A run saves the rules that were approved, and a push without approval fails and saves
nothing. -/
theorem saves_only_approved_gold :
    rulesIn goldFile = .ok goldRules ∧ goldRules.count = .ok 1 ∧
      (∃ asked ∈ (run goldFile ⟨goldReplies emptyAnswer, []⟩).2.requests, asked.url = rulesUrl) ∧
      Approved goldFile (goldReplies emptyAnswer)
        (run goldFile ⟨goldReplies emptyAnswer, []⟩).2.requests ∧
      checkOf goldRules ∈ (pushRules goldFile ⟨[doubt], []⟩).2.requests ∧
      ¬ Approved goldFile [doubt] (pushRules goldFile ⟨[doubt], []⟩).2.requests ∧
      (∃ fault, (pushRules goldFile ⟨[doubt], []⟩).1.outcome = .error fault) ∧
      ¬ ∃ asked ∈ (pushRules goldFile ⟨[doubt], []⟩).2.requests, asked.url = rulesUrl := by
  have hanswer : answerOf rulesUrl (some emptyAnswer) = .ok (.object []) := by
    rw [answerOf_eq_outcome, verdict_emptyAnswer]
    rfl
  have hsaved : ∃ asked ∈ (run goldFile ⟨goldReplies emptyAnswer, []⟩).2.requests,
      asked.url = rulesUrl := by
    have hstate : (run goldFile ⟨goldReplies emptyAnswer, []⟩).2 =
        tried samples (savedSession goldRules (List.replicate samples.length emptyAnswer)) :=
      congrArg Prod.snd (result_run_gold hanswer)
    rw [hstate, requests_tried]
    exact ⟨saveOf goldRules, by simp [Session.requests, savedSession, Event.asked?, saveOf], rfl⟩
  have hread := @Json.read_of_written (.object [("success", .bool false)])
    "\x7b\"success\": false\x7d" (by simp [Value.WellFormed, Value.WellFormedFields]) rfl
  have hdoubt : ¬ Approved goldFile [doubt] (pushRules goldFile ⟨[doubt], []⟩).2.requests := by
    rintro ⟨rules, j, -, -, fields, happroves, hsuccess⟩
    cases j with
    | zero =>
      cases (answerOf_response (by decide) hread _ _).symm.trans happroves
      cases hsuccess
    | succ j => cases happroves
  obtain ⟨-, hrun⟩ := saves_only_approved goldFile (goldReplies emptyAnswer)
  obtain ⟨hpush, -⟩ := saves_only_approved goldFile [doubt]
  exact ⟨rulesIn_goldFile, rfl, hsaved, hrun.saves_iff.mp hsaved,
    hpush.checked goldRules 1 rulesIn_goldFile rfl, hdoubt, hpush.fails hdoubt,
    fun hsaves => hdoubt (hpush.saves_iff.mp hsaves)⟩

end Client

end Loyalty
