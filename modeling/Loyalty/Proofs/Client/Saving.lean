import Loyalty.Proofs.Client.Answers
import Loyalty.Proofs.Store.Seeding

/-!
# What a finished run tells about the save

A run that ends without a fault has had the rules of its file saved: the last request
to save them was answered by a server that had not failed, with a JSON object. But the
run looks at nothing else of that answer. With any other status that is no failure of
the server in its place, a refusal for instance, the run tells and does the same.
-/

namespace Loyalty

open Loyalty.Action

/-- A field that is read is read of an object. -/
theorem Value.fieldOr_eq_ok {v default w : Value} {key : String} :
    v.fieldOr key default = .ok w ↔
      ∃ fields, v = .object fields ∧ (fields.lookup key).getD default = w := by
  cases v <;> simp [Value.fieldOr]

namespace Client

/-- What was done when a push of a file has come to a value: some session was reached,
and from it the rules of the file were saved. -/
structure Pushed (file : RuleFile) (s s' : Session) (notices : List Notice) (t : Session)
    (rules : Value) (fields : Fields) : Prop where
  rules_eq : rulesIn file = .ok rules
  reaches : s.Reaches (fun _ => True) t
  answer : answerOf rulesUrl t.replies.head? = .ok (.object fields)
  last : s' = t.sent .post rulesUrl (.object [("rules", rules)])
  told : .rulesSaved ((fields.lookup "rulesCount").getD (.int 0)).spelling ∈ notices

/-- A push that comes to a value has saved the rules of the file last. -/
theorem exists_pushed {file : RuleFile} {s s' : Session} {notices : List Notice} {v : Value}
    (h : pushRules file s = (⟨notices, .ok v⟩, s')) :
    ∃ t rules fields, Pushed file s s' notices t rules fields := by
  obtain ⟨bytes, hbytes, h⟩ := ofExcept_bind_apply_eq_ok.mp h
  obtain ⟨document, hdocument, h⟩ := ofExcept_bind_apply_eq_ok.mp h
  obtain ⟨rules, hrules, h⟩ := ofExcept_bind_apply_eq_ok.mp h
  obtain ⟨count, -, h⟩ := ofExcept_bind_apply_eq_ok.mp h
  obtain ⟨_, h, hnotices⟩ := note_bind_apply_eq_ok.mp h
  obtain ⟨_, _, checked, _, hcheck, h, hmore⟩ := bind_apply_eq_ok.mp h
  obtain ⟨_, answer, _, _, hsave, h, hlast⟩ := bind_apply_eq_ok.mp h
  obtain ⟨saved, hsaved, h⟩ := ofExcept_bind_apply_eq_ok.mp h
  obtain ⟨text, htext, h⟩ := ofExcept_bind_apply_eq_ok.mp h
  obtain ⟨-, rfl⟩ := Value.display_eq_ok_iff.mp htext
  obtain ⟨_, h, htold⟩ := note_bind_apply_eq_ok.mp h
  cases h
  have hrulesIn : rulesIn file = .ok rules := by
    rw [rulesIn, hbytes, ok_bind, hdocument, ok_bind, hrules]
  have hcheckScript : Script (fun _ => True) (check rules) := script_check rules trivial
  have hchecked := hcheckScript.reaches s
  rw [hcheck] at hchecked
  obtain ⟨t, hattempts, hanswer, hsent⟩ := exists_answer_of_attemptsLeft (by decide) hsave
  have hreaches := hchecked.trans (hattempts.mono fun _ _ => trivial)
  obtain ⟨fields, rfl, rfl⟩ := Value.fieldOr_eq_ok.mp hsaved
  refine ⟨t, rules, fields, hrulesIn, hreaches, hanswer, hsent, ?_⟩
  simp [hnotices, hmore, hlast, htold]

/-- The bookings are tried out elsewhere. -/
private theorem calculateUrl_ne_rulesUrl : calculateUrl ≠ rulesUrl := by decide

/-- A request that is the last one to save rules, and the response that it got: both are
the one at a position. -/
structure SaveAnswered (file : RuleFile) (replies : List Reply) (requests : List Asked) (k : Nat)
    (status : Int) (reason text : String) : Prop where
  asked : ∃ rules, rulesIn file = .ok rules ∧
    requests[k]? = some ⟨.post, rulesUrl, some (.object [("rules", rules)])⟩
  last : ∀ asked ∈ requests.drop (k + 1), asked.url ≠ rulesUrl
  answered : replies[k]? = some (.response status reason text)

/-- What was pushed before bookings were tried out is the last save, and it was answered by a
server that had not failed. -/
theorem Pushed.exists_saveAnswered {file : RuleFile} {replies : List Reply} {p t s' : Session}
    {notices : List Notice} {rules : Value} {fields : Fields}
    (h : Pushed file ⟨replies, []⟩ p notices t rules fields)
    (hlater : p.Reaches (· = calculateUrl) s') :
    ∃ status reason text,
      SaveAnswered file replies s'.requests t.requests.length status reason text ∧
        ¬ ServerFailed status ∧ Json.read text = .ok (.object fields) := by
  obtain ⟨status, reason, text, hreply, hstatus, hread⟩ := answerOf_eq_ok h.answer
  -- every request so far has taken a reply, so the save takes the one at its own position
  have hfollows : t.Follows replies := h.reaches.follows rfl
  have hanswered : replies[t.requests.length]? = some (.response status reason text) := by
    rw [← List.head?_drop, ← hfollows, hreply]
  obtain ⟨later, hrequests, hurls⟩ := hlater.exists_requests
  rw [h.last, Session.requests_sent] at hrequests
  refine ⟨status, reason, text, ⟨⟨rules, h.rules_eq, ?_⟩, fun asked hmem => ?_, hanswered⟩,
    hstatus, hread⟩
  · rw [hrequests]
    simp [sentBody]
  · rw [hrequests, List.drop_left' (by simp)] at hmem
    rw [hurls asked hmem]
    exact calculateUrl_ne_rulesUrl

/-- The same save with another status and reason in the response. -/
theorem SaveAnswered.set {file : RuleFile} {replies : List Reply} {requests : List Asked} {k : Nat}
    {status : Int} {reason text : String}
    (h : SaveAnswered file replies requests k status reason text) (status' : Int)
    (reason' : String) :
    SaveAnswered file (replies.set k (.response status' reason' text)) requests k status' reason'
      text :=
  ⟨h.asked, h.last, List.getElem?_set_self (List.getElem?_eq_some_iff.mp h.answered).1⟩

/-- A run comes to the same, and does the same, with another status in a response if both are
no failure of the server. -/
theorem exists_run_of_set {file : RuleFile} {replies : List Reply} {report : Report Unit}
    {s' : Session} (h : run file ⟨replies, []⟩ = (report, s')) {k : Nat} {status status' : Int}
    {reason text : String} (hreply : replies[k]? = some (.response status reason text))
    (hstatus : ¬ ServerFailed status) (hstatus' : ¬ ServerFailed status') (reason' : String) :
    ∃ s'', run file ⟨replies.set k (.response status' reason' text), []⟩ = (report, s'') ∧
      s''.trace = s'.trace := by
  have halike : Alike (.response status reason text) (.response status' reason' text) :=
    .response reason reason' text hstatus hstatus'
  have hstart : SameSession ⟨replies, []⟩
      ⟨replies.set k (.response status' reason' text), []⟩ := ⟨halike.forall₂_set hreply, rfl⟩
  obtain ⟨hreport, hsession⟩ := (script_run file).congr hstart
  rw [h] at hreport hsession
  generalize run file _ = other at hreport hsession ⊢
  obtain ⟨report', s''⟩ := other
  exact ⟨s'', congrArg (·, s'') hreport.symm, hsession.trace.symm⟩

/-- A run that ends without a fault has pushed the file and then tried out bookings. -/
theorem exists_pushed_of_run {file : RuleFile} {s s' : Session} {notices : List Notice}
    (h : run file s = (⟨notices, .ok ()⟩, s')) :
    ∃ t p rules fields, Pushed file s p notices t rules fields ∧
      p.Reaches (· = calculateUrl) s' ∧ .seedingDone ∈ notices := by
  obtain ⟨_, outcome, _, _, hattempt, h, hnotices⟩ := bind_apply_eq_ok.mp h
  rw [attempt_apply] at hattempt
  match hrun : pushAndTry file s with
  | (⟨_, .error fault⟩, _) =>
    rw [hrun] at hattempt
    cases hattempt
    obtain ⟨_, h, -⟩ := note_bind_apply_eq_ok.mp h
    cases h
  | (⟨first, .ok ()⟩, _) =>
    rw [hrun] at hattempt
    cases hattempt
    cases h
    rw [List.append_nil] at hnotices
    obtain ⟨_, h, hwaiting⟩ := note_bind_apply_eq_ok.mp hrun
    obtain ⟨_, _, ready, _, hawait, h, hawaited⟩ := bind_apply_eq_ok.mp h
    obtain ⟨told, saved, p, _, hpush, h, hpushed⟩ := bind_apply_eq_ok.mp h
    obtain ⟨_, h, hblank⟩ := note_bind_apply_eq_ok.mp h
    obtain ⟨_, _, _, _, hsamples, h, htried⟩ := bind_apply_eq_ok.mp h
    cases h
    obtain ⟨t, rules, fields, hsaved⟩ := exists_pushed hpush
    have hawaitScript : Script (fun _ => True) (awaitService 10) := script_awaitService trivial 10
    have hready := hawaitScript.reaches s
    rw [hawait] at hready
    have hsamplesScript : Script (· = calculateUrl) (runSamples samples) :=
      script_runSamples samples rfl
    have hlater := hsamplesScript.reaches p
    rw [hsamples] at hlater
    refine ⟨t, p, rules, fields, ⟨hsaved.rules_eq, hready.trans hsaved.reaches, hsaved.answer,
      hsaved.last, ?_⟩, hlater, ?_⟩
    · simp [hnotices, hwaiting, hawaited, hpushed, hsaved.told]
    · simp [hnotices, hwaiting, hawaited, hpushed, hblank, htried]

/-- What a run that has ended without a fault tells about the save, and does not tell: the
server had not failed and its answer was an object, but any other status without a failure
of the server in that place makes no difference. -/
structure EndsWithSave (file : RuleFile) (replies : List Reply) (notices : List Notice)
    (s' : Session) (k : Nat) (status : Int) (reason text : String) : Prop where
  save : SaveAnswered file replies s'.requests k status reason text
  not_failed : ¬ ServerFailed status
  told : ∃ fields, Json.read text = .ok (.object fields) ∧
    .rulesSaved ((fields.lookup "rulesCount").getD (.int 0)).spelling ∈ notices ∧
      .seedingDone ∈ notices
  blind : ∀ status' reason', ¬ ServerFailed status' →
    ∃ s'', run file ⟨replies.set k (.response status' reason' text), []⟩ =
        (⟨notices, .ok ()⟩, s'') ∧
      s''.trace = s'.trace ∧
      SaveAnswered file (replies.set k (.response status' reason' text)) s''.requests k
        status' reason' text

/-- A run that ends without a fault has saved the rules of its file last in a request
answered by a server that had not failed, with an object, so with a status in the two
hundreds or one that is not looked at. -/
theorem save_of_run {file : RuleFile} {replies : List Reply} {s' : Session}
    {notices : List Notice} (h : run file ⟨replies, []⟩ = (⟨notices, .ok ()⟩, s')) :
    ∃ k status reason text, EndsWithSave file replies notices s' k status reason text := by
  obtain ⟨t, p, rules, fields, hpushed, hlater, hdone⟩ := exists_pushed_of_run h
  obtain ⟨status, reason, text, hsave, hstatus, hread⟩ := hpushed.exists_saveAnswered hlater
  refine ⟨_, status, reason, text, hsave, hstatus, ⟨fields, hread, hpushed.told, hdone⟩, ?_⟩
  intro status' reason' hstatus'
  obtain ⟨s'', hrun, htrace⟩ := exists_run_of_set h hsave.answered hstatus hstatus' reason'
  have hrequests : s''.requests = s'.requests := congrArg (List.filterMap Event.asked?) htrace
  refine ⟨s'', hrun, htrace, ?_⟩
  rw [hrequests]
  exact hsave.set status' reason'

/-- One rule. -/
def goldRules : Value := .list [.object [("id", .text "GOLD")]]

/-- A file with that rule. -/
def goldFile : RuleFile :=
  ⟨"rules.json", some "\x7b\"rules\": [\x7b\"id\": \"GOLD\"\x7d]\x7d".toUTF8⟩

/-- An answer that is an empty object. -/
def emptyAnswer : Reply := .response 200 "OK" "\x7b\x7d"

/-- Replies to a run with that file, with some reply to the save. -/
def goldReplies (save : Reply) : List Reply :=
  emptyAnswer :: .response 200 "OK" "\x7b\"success\": true\x7d" :: save ::
    List.replicate samples.length emptyAnswer

/-- The file has that rule in it. -/
theorem rulesIn_goldFile : rulesIn goldFile = .ok goldRules := by
  have hfile := @Json.read_of_written (.object [("rules", goldRules)])
    "\x7b\"rules\": [\x7b\"id\": \"GOLD\"\x7d]\x7d"
    (by simp [goldRules, Value.list, Value.WellFormed, Value.WellFormedItems,
      Value.WellFormedFields]) rfl
  rw [rulesIn, goldFile, RuleFile.bytes, ok_bind, RuleFile.parse_toUTF8 hfile]
  rfl

/-- The run ends without a fault if the save is answered with an object. -/
theorem result_run_gold {save : Reply} {fields : Fields}
    (hsave : answerOf rulesUrl (some save) = .ok (.object fields)) :
    (run goldFile).result ⟨goldReplies save, []⟩ = (.ok (), tried samples
      (savedSession goldRules (List.replicate samples.length emptyAnswer))) := by
  have hempty := @Json.read_of_written (.object []) "\x7b\x7d"
    (by simp [Value.WellFormed, Value.WellFormedFields]) rfl
  have hsuccess := @Json.read_of_written (.object [("success", .bool true)])
    "\x7b\"success\": true\x7d" (by simp [Value.WellFormed, Value.WellFormedFields]) rfl
  exact result_run rulesIn_goldFile rfl rfl (answerOf_response (by decide) hsuccess _ _) rfl hsave
    (answerOf_response (by decide) hempty _ _)

/-- A reply that acknowledges the save. -/
def acknowledgement : Reply := .response 201 "Created" "\x7b\"rulesCount\": 1\x7d"

/-- The run ends without a fault when the save is acknowledged. -/
theorem save_of_run_acknowledged :
    ∃ notices s', run goldFile ⟨goldReplies acknowledgement, []⟩ = (⟨notices, .ok ()⟩, s') ∧
      ∃ k status reason text,
        EndsWithSave goldFile (goldReplies acknowledgement) notices s' k status reason text := by
  have hread := @Json.read_of_written (.object [("rulesCount", .int 1)])
    "\x7b\"rulesCount\": 1\x7d"
    (by simp [Value.int, Value.WellFormed, Value.WellFormedFields]) rfl
  have hsave := answerOf_response (show ¬ ServerFailed 201 by decide) hread rulesUrl "Created"
  obtain ⟨notices, hrun⟩ := exists_apply_eq_of_result (result_run_gold hsave)
  exact ⟨notices, _, hrun, save_of_run hrun⟩

/-- A reply that refuses the save. -/
def refusal : Reply := .response 400 "Bad Request" "\x7b\"error\": \"Rule validation failed\"\x7d"

/-- The run ends without a fault, and tells that the rules were saved and that all is done,
though the only request to save them was refused. -/
theorem run_reports_refused_save :
    ∃ notices s' count, run goldFile ⟨goldReplies refusal, []⟩ = (⟨notices, .ok ()⟩, s') ∧
      .rulesSaved count ∈ notices ∧ .seedingDone ∈ notices ∧
      (s'.requests.map Asked.url)[2]? = some rulesUrl ∧
      ∀ k : Nat, (s'.requests.map Asked.url)[k]? = some rulesUrl →
        (goldReplies refusal)[k]? = some refusal := by
  have hread := @Json.read_of_written (.object [("error", .text "Rule validation failed")])
    "\x7b\"error\": \"Rule validation failed\"\x7d"
    (by simp [Value.WellFormed, Value.WellFormedFields]) rfl
  have hsave := answerOf_response (show ¬ ServerFailed 400 by decide) hread rulesUrl "Bad Request"
  obtain ⟨notices, hrun⟩ := exists_apply_eq_of_result (result_run_gold hsave)
  obtain ⟨t, p, rules, fields, hpushed, -, hdone⟩ := exists_pushed_of_run hrun
  have hurls : (tried samples (savedSession goldRules
      (List.replicate samples.length emptyAnswer))).requests.map Asked.url =
        [healthUrl, validateUrl, rulesUrl] ++ List.replicate 4 calculateUrl := by
    rw [requests_tried]
    rfl
  refine ⟨notices, _, _, hrun, hpushed.told, hdone, ?_, ?_⟩
  · rw [hurls]
    rfl
  · intro k hk
    rw [hurls] at hk
    have hothers : ∀ j < 7, j ≠ 2 →
        ([healthUrl, validateUrl, rulesUrl] ++ List.replicate 4 calculateUrl)[j]? ≠
          some rulesUrl := by decide
    have hposition := (List.getElem?_eq_some_iff.mp hk).1
    by_cases hsave : k = 2
    · subst hsave
      rfl
    · exact absurd hk (hothers k hposition hsave)

end Client

end Loyalty
