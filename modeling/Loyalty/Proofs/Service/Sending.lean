import Loyalty.Proofs.Json.RoundTrip
import Loyalty.Proofs.Json.Standard
import Loyalty.Proofs.Service.Rejection

/-!
# Sending of rejections

A report of invalid rules names each of them by its index and by its id as it stands in the rule.
The report is sent as standard JSON, so it cannot be sent if there is an infinity or not-a-number
in the id of a rule that is reported. Nothing else in payloads that were read keeps a rejection
from being sent, but for an index that has too many digits.
-/

namespace Loyalty

/-- A text is read as a value, and nothing in it is replaced by that: no half of a pair of units
stands alone. -/
structure Json.ReadsInPairs (text : String) (v : Value) : Prop where
  read_eq : Json.read text = .ok v
  inPairs : Json.hasLoneHalf false text.toList = false

namespace Value

variable {v rule : Value}

/-- A value with an infinity or not-a-number in it counts as true. -/
theorem HasNonFinite.isTruthy (h : v.HasNonFinite) : v.isTruthy = true := by
  obtain ⟨x, hx, hpart⟩ := h
  cases hpart with
  | self => cases x <;> first | rfl | cases hx
  | item hmem => simpa [Value.isTruthy] using List.ne_nil_of_mem hmem
  | field hmem => simpa [Value.isTruthy] using List.ne_nil_of_mem hmem

/-- An infinity or not-a-number in the id that a rule is reported with comes from its id. -/
theorem hasNonFinite_reportedId :
    rule.reportedId.HasNonFinite ↔
      ∃ fields, rule = .object fields ∧ (Fields.get fields "id").HasNonFinite := by
  constructor
  · have htext : ∀ s, ¬ (text s).HasNonFinite := fun s =>
      IsLeaf.not_hasNonFinite trivial (by simp [double])
    refine reportedId_of_id (P := fun id => id.HasNonFinite → _) (fun s h => absurd h (htext s)) ?_
    exact fun fields hrule h => ⟨fields, hrule, h⟩
  · rintro ⟨fields, rfl, h⟩
    rwa [reportedId, orElse, if_pos h.isTruthy]

/-- The id that a document is reported with is a document. -/
theorem IsDocument.reportedId (h : rule.IsDocument) : rule.reportedId.IsDocument := by
  refine reportedId_of_id .text ?_
  rintro fields rfl
  exact Fields.get_of_forall .null (fun _ => h.of_mem_fields) "id"

end Value

namespace Complaint

variable {c : Complaint}

/-- An entry of a report is a document if its id is one. -/
theorem isDocument_toValue (hid : c.id.IsDocument) : c.toValue.IsDocument := by
  refine .object (by simp) fun q hq => ?_
  simp only [List.mem_cons, List.not_mem_nil, or_false] at hq
  rcases hq with rfl | rfl | rfl
  · exact .number _
  · exact hid
  · exact .text _

/-- What keeps an entry from being written as standard JSON is in its index or its id. -/
theorem standardJsonFault?_toValue (hid : c.id.IsDocument) (hfew : c.id.HasFewDigits) :
    c.toValue.standardJsonFault? = none ↔
      digitCount c.index ≤ Json.digitLimit ∧ ¬ c.id.HasNonFinite := by
  have hindex : (Value.nat c.index).HasFewDigits ↔ digitCount c.index ≤ Json.digitLimit := by
    simp [Value.HasFewDigits, Value.nat, Value.integers]
  have hfinite : ¬ (Value.nat c.index).HasNonFinite ∧ ¬ (Value.text c.error).HasNonFinite :=
    ⟨Value.IsLeaf.not_hasNonFinite trivial (by simp [Value.nat, Value.double]),
      Value.IsLeaf.not_hasNonFinite trivial (by simp [Value.double])⟩
  rw [(isDocument_toValue hid).standardJsonFault?_eq_none_iff, toValue, Value.hasFewDigits_object,
    Value.hasNonFinite_object]
  simp [hindex, hfinite, hfew]

end Complaint

namespace Service

open Loyalty.Action

variable {posted : Value} {update check : Fields} {rules : List Value}
  {complaints : List Complaint}

/-- Posted rules whose report cannot be sent: in the id of one that fails its check there is an
infinity or not-a-number, or its index has too many digits. -/
def Unsendable (posted : Value) : Prop :=
  ∃ rules index rule, posted = .list rules ∧ rules[index]? = some rule ∧
    rule.ruleFault? ≠ none ∧
      (Json.digitLimit < digitCount index ∨
        ∃ fields, rule = .object fields ∧ (Fields.get fields "id").HasNonFinite)

/-- Posted rules with nothing wrong in them. -/
def Acceptable (posted : Value) : Prop := ∃ rules, posted = .list rules ∧ AllValid rules

/-- A report names documents with few digits, as the rules it is made of are such documents. -/
theorem isDocument_id (hdocument : (Value.list rules).IsDocument)
    (hfew : (Value.list rules).HasFewDigits) (htells : Complaint.Tells rules complaints)
    {c : Complaint} (hc : c ∈ complaints) : c.id.IsDocument ∧ c.id.HasFewDigits := by
  obtain ⟨rule, hrule, hid, -⟩ := (htells.tells_iff c.index c.id c.error).mp hc
  have hmem := List.mem_of_getElem? hrule
  rw [Value.reportedAs_iff.mp hid]
  exact ⟨(hdocument.of_mem_items hmem).reportedId,
    (Value.hasFewDigits_array.mp hfew rule hmem).reportedId⟩

/-- A report can be sent if none of its entries has too many digits in its index or an infinity
or not-a-number in its id. -/
theorem standardJsonFault?_details (hdocument : (Value.list rules).IsDocument)
    (hfew : (Value.list rules).HasFewDigits) (htells : Complaint.Tells rules complaints) :
    (Value.list (complaints.map Complaint.toValue)).standardJsonFault? = none ↔
      ¬ Unsendable (.list rules) := by
  have hentries : (Value.list (complaints.map Complaint.toValue)).standardJsonFault? = none ↔
      ∀ c ∈ complaints, digitCount c.index ≤ Json.digitLimit ∧ ¬ c.id.HasNonFinite := by
    rw [Value.list, Value.standardJsonFault?, Value.standardJsonFaultOfItems?_eq,
      List.findSome?_eq_none_iff, List.forall_mem_map]
    refine forall₂_congr fun c hc => ?_
    obtain ⟨hid, hdigits⟩ := isDocument_id hdocument hfew htells hc
    exact Complaint.standardJsonFault?_toValue hid hdigits
  rw [hentries]
  constructor
  · rintro hsent ⟨_, index, rule, ⟨⟩, hrule, hinvalid, hbad⟩
    have hfewRule := Value.hasFewDigits_array.mp hfew rule (List.mem_of_getElem? hrule)
    obtain ⟨words, hmem⟩ := htells.exists_mem hrule hinvalid hfewRule.not_lacksWords
    obtain ⟨hindex, hid⟩ := hsent _ hmem
    rcases hbad with hlong | hnonFinite
    · exact absurd hindex (Nat.not_le.mpr hlong)
    · exact hid (Value.hasNonFinite_reportedId.mpr hnonFinite)
  · intro hsendable c hc
    obtain ⟨rule, hrule, hid, hcheck⟩ := (htells.tells_iff c.index c.id c.error).mp hc
    obtain ⟨fault, hfault, -⟩ := Value.ruleCheck_eq_some_iff.mp hcheck
    have hinvalid : rule.ruleFault? ≠ none := by simp [hfault]
    refine ⟨Nat.not_lt.mp fun hlong => ?_, fun hnonFinite => ?_⟩
    · exact hsendable ⟨rules, c.index, rule, rfl, hrule, hinvalid, .inl hlong⟩
    · rw [Value.reportedAs_iff.mp hid, Value.hasNonFinite_reportedId] at hnonFinite
      exact hsendable ⟨rules, c.index, rule, rfl, hrule, hinvalid, .inr hnonFinite⟩

/-- What is wrong with posted rules that have few digits can be told. -/
theorem Rejection.exists_told {update check : Except Fault Fields}
    (h : Rejection posted update check) (hfew : posted.HasFewDigits) :
    ∃ updateFields checkFields, update = .ok updateFields ∧ check = .ok checkFields := by
  cases h with
  | notList => exact ⟨_, _, rfl, rfl⟩
  | invalid => exact ⟨_, _, rfl, rfl⟩
  | wordless hposted hlacks =>
    subst hposted
    obtain ⟨rule, hrule, hlacks⟩ := hlacks
    exact absurd hlacks (Value.hasFewDigits_array.mp hfew rule hrule).not_lacksWords

/-- What an update and a check tell of documents are documents. -/
theorem Rejection.isDocument (h : Rejection posted (.ok update) (.ok check))
    (hdocument : posted.IsDocument) (hfew : posted.HasFewDigits) :
    (Value.object update).IsDocument ∧ (Value.object check).IsDocument := by
  cases h with
  | notList =>
    have htext : (Value.object [("error", .text "Rules must be an array")]).IsDocument :=
      .object (by simp) (by simpa using .text _)
    exact ⟨htext, htext⟩
  | @invalid rules complaints hposted hne hlist htells =>
    subst hposted
    have hdetails : (Value.list (complaints.map Complaint.toValue)).IsDocument := by
      refine .list (List.forall_mem_map.mpr fun c hc => ?_)
      exact Complaint.isDocument_toValue (isDocument_id hdocument hfew htells hc).1
    have htext : (Value.text "Rule validation failed").IsDocument := .text _
    have hfailed : (Value.bool false).IsDocument := .bool _
    exact ⟨.object (by simp) (by simp [hdetails, htext]),
      .object (by simp) (by simp [hdetails, htext, hfailed])⟩

/-- An update and a check can tell what is wrong with posted rules, or the same keeps both from
it. -/
theorem Rejection.standardJsonFault?_eq (h : Rejection posted (.ok update) (.ok check))
    (hdocument : posted.IsDocument) (hfew : posted.HasFewDigits) :
    (Value.object update).standardJsonFault? = (Value.object check).standardJsonFault? ∧
      ((Value.object check).standardJsonFault? = none ↔ ¬ Unsendable posted) := by
  cases h with
  | notList hnone =>
    refine ⟨rfl, iff_of_true rfl ?_⟩
    rintro ⟨rules, -, -, hlist, -⟩
    exact hnone rules hlist
  | @invalid rules complaints hposted hne hlist htells =>
    subst hposted
    have hcheck : (Value.object [("success", .bool false),
        ("error", .text "Rule validation failed"),
        ("details", .list (complaints.map Complaint.toValue))]).standardJsonFault? =
          (Value.list (complaints.map Complaint.toValue)).standardJsonFault? := by
      simp [Value.standardJsonFault?, Value.standardJsonFaultOfFields?]
    refine ⟨rfl, ?_⟩
    rw [← standardJsonFault?_details hdocument hfew htells, ← hcheck]

/-- Rules with something wrong in them are not acceptable. -/
theorem Rejection.not_acceptable {update check : Except Fault Fields}
    (h : Rejection posted update check) : ¬ Acceptable posted := by
  rintro ⟨rules, hposted, hvalid⟩
  exact not_rejection_of_allValid hposted hvalid update check h

/-- Acceptable rules are not unsendable. -/
theorem Acceptable.not_unsendable (h : Acceptable posted) : ¬ Unsendable posted := by
  obtain ⟨rules, rfl, hvalid⟩ := h
  rintro ⟨_, index, rule, ⟨⟩, hrule, hinvalid, -⟩
  exact hinvalid (hvalid rule (List.mem_of_getElem? hrule))

/-- An update and a check of rules that are not acceptable are both answered with what is wrong
with them, or stopped by the same fault if that cannot be sent. -/
theorem Rejection.sent (h : Rejection posted (.ok update) (.ok check))
    (hdocument : posted.IsDocument) (hfew : posted.HasFewDigits) :
    (¬ Unsendable posted → Response.refusal 400 (.object check) = .ok ⟨400, .object check⟩ ∧
        Response.refusal 400 (.object update) = .ok ⟨400, .object update⟩) ∧
      (Unsendable posted → ∃ f, (f = .notFinite ∨ f = .notWritable .tooManyDigits) ∧
        Response.refusal 400 (.object check) = .error f ∧
        Response.refusal 400 (.object update) = .error f) := by
  obtain ⟨hupdate, hcheck⟩ := h.isDocument hdocument hfew
  obtain ⟨hsame, hnone⟩ := h.standardJsonFault?_eq hdocument hfew
  constructor
  · intro hsendable
    have hsent := hnone.mpr hsendable
    exact ⟨Response.refusal_eq_ok hcheck hsent, Response.refusal_eq_ok hupdate (hsame.trans hsent)⟩
  · intro hunsendable
    obtain ⟨f, hf⟩ := Option.ne_none_iff_exists'.mp fun hsent => hnone.mp hsent hunsendable
    exact ⟨f, hcheck.standardJsonFault?_eq_some hf, Response.refusal_eq_error hf,
      Response.refusal_eq_error (hsame.trans hf)⟩

/-- A check of a payload that was read is answered unless the report of its invalid rules cannot
be sent, with the status of success exactly if nothing is wrong with them. The same holds of an
update with something wrong in its rules. Both are answered with what is wrong or stopped by the
same fault, and nothing has changed then. -/
theorem answered_iff_not_unsendable {text : String} {payload : Fields}
    (hread : Json.ReadsInPairs text (.object payload)) (nan : Identity) (s : Service) :
    ((∃ response, ((validate payload).result s).1 = .ok response) ↔
        ¬ Unsendable (payload.get "rules")) ∧
      (Acceptable (payload.get "rules") →
        ∃ body, (validate payload).result s = (.ok ⟨200, body⟩, s)) ∧
      (¬ Acceptable (payload.get "rules") →
        ((∃ response, ((updateRules payload nan).result s).1 = .ok response) ↔
          ¬ Unsendable (payload.get "rules")) ∧
        ∃ update check, Rejection (payload.get "rules") (.ok update) (.ok check) ∧
          (¬ Unsendable (payload.get "rules") →
            (validate payload).result s = (.ok ⟨400, .object check⟩, s) ∧
            (updateRules payload nan).result s = (.ok ⟨400, .object update⟩, s)) ∧
          (Unsendable (payload.get "rules") →
            ∃ f, (f = .notFinite ∨ f = .notWritable .tooManyDigits) ∧
              (validate payload).result s = (.error f, s) ∧
              (updateRules payload nan).result s = (.error f, s))) := by
  have hdocument : (payload.get "rules").IsDocument :=
    Fields.get_of_forall .null (fun _ => (Json.isDocument_of_read hread.read_eq).of_mem_fields)
      "rules"
  have hfew : (payload.get "rules").HasFewDigits :=
    Fields.get_of_forall (by simp [Value.HasFewDigits, Value.integers])
      (Value.hasFewDigits_object.mp (Json.hasFewDigits_of_read hread.read_eq)) "rules"
  rcases postedRules_cases payload with
    ⟨rules, hposted, hvalid, hof⟩ | ⟨update, check, hwrong, hupdate, hcheck⟩
  · have hacceptable : Acceptable (payload.get "rules") := ⟨rules, hposted, hvalid⟩
    have hanswer : ∃ body, (validate payload).result s = (.ok ⟨200, body⟩, s) := by
      rw [validate, hof]
      exact ⟨_, rfl⟩
    obtain ⟨body, hbody⟩ := hanswer
    exact ⟨iff_of_true ⟨_, by rw [hbody]⟩ hacceptable.not_unsendable, fun _ => ⟨body, hbody⟩,
      fun hnot => absurd hacceptable hnot⟩
  · obtain ⟨update, check, rfl, rfl⟩ := hwrong.exists_told hfew
    obtain ⟨hsame, hnone⟩ := hwrong.standardJsonFault?_eq hdocument hfew
    obtain ⟨hsent, hstopped⟩ := hwrong.sent hdocument hfew
    have hrefused : ∀ fields, refused (.ok fields) = Response.refusal 400 (.object fields) :=
      fun _ => rfl
    rw [hcheck, hupdate, result_ofExcept, result_ofExcept, hrefused, hrefused]
    refine ⟨Response.exists_refusal_eq_ok.trans hnone,
      fun hacceptable => absurd hacceptable hwrong.not_acceptable, fun _ =>
        ⟨Response.exists_refusal_eq_ok.trans (hsame ▸ hnone), update, check, hwrong,
          fun hsendable => ?_, fun hunsendable => ?_⟩⟩
    · obtain ⟨hcheckSent, hupdateSent⟩ := hsent hsendable
      exact ⟨by rw [hcheckSent], by rw [hupdateSent]⟩
    · obtain ⟨f, hf, hcheckStops, hupdateStops⟩ := hstopped hunsendable
      exact ⟨f, hf, by rw [hcheckStops], by rw [hupdateStops]⟩

/-- A rule without a condition is reported by its id. -/
theorem answered_iff_not_unsendable_gold : ∃ (payload update check : Fields),
    Json.ReadsInPairs "\x7b\"rules\": [\x7b\"id\": \"GOLD\"\x7d]\x7d" (.object payload) ∧
      ¬ Acceptable (payload.get "rules") ∧ ¬ Unsendable (payload.get "rules") ∧
      Rejection (payload.get "rules") (.ok update) (.ok check) ∧
      (validate payload).result (holding [] []) = (.ok ⟨400, .object check⟩, holding [] []) ∧
      (updateRules payload .distinct).result (holding [] []) =
        (.ok ⟨400, .object update⟩, holding [] []) := by
  have hread := @Json.read_of_written
    (.object [("rules", .list [.object [("id", .text "GOLD")]])])
    "\x7b\"rules\": [\x7b\"id\": \"GOLD\"\x7d]\x7d"
    (by simp [Value.list, Value.WellFormed, Value.WellFormedItems, Value.WellFormedFields]) rfl
  have hreads := Json.ReadsInPairs.mk hread (by decide)
  have hanswers := answered_iff_not_unsendable hreads .distinct (holding [] [])
  have hsendable := hanswers.1.mp ⟨_, rfl⟩
  have hnot : ¬ Acceptable (.list [.object [("id", .text "GOLD")]]) := by
    rintro ⟨_, ⟨⟩, hvalid⟩
    cases hvalid _ List.mem_cons_self
  obtain ⟨-, update, check, hwrong, hsent, -⟩ := hanswers.2.2 hnot
  exact ⟨_, update, check, hreads, hnot, hsendable, hwrong, hsent hsendable⟩

/-- A rule with a not-a-number for its id cannot be reported. -/
theorem not_answered_nanId : ∃ payload : Fields,
    Json.ReadsInPairs "\x7b\"rules\": [\x7b\"id\": NaN\x7d]\x7d" (.object payload) ∧
      (validate payload).result (holding [] []) = (.error .notFinite, holding [] []) ∧
      (updateRules payload .distinct).result (holding [] []) =
        (.error .notFinite, holding [] []) := by
  have hread := @Json.read_of_written
    (.object [("rules", .list [.object [("id", .double .nan)]])])
    "\x7b\"rules\": [\x7b\"id\": NaN\x7d]\x7d"
    (by simp [Value.list, Value.double, Value.WellFormed, Value.WellFormedItems,
      Value.WellFormedFields]) rfl
  exact ⟨_, ⟨hread, by decide⟩, rfl, rfl⟩

end Service

end Loyalty
