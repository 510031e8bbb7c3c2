import Loyalty.Proofs.Rule.Complaints
import Loyalty.Proofs.Service.Requests

/-!
# Rejected updates

An update and a check of the same payload reject it together, with the same
details, which are the report of its invalid rules. A rejected update has changed
nothing, even if the rejection cannot be put into words or written, and a check
changes nothing in any case.
-/

namespace Loyalty.Service

open Loyalty.Action

/-- What is wrong with posted rules, and the fields by which an update and a check
tell it: that they are no list, or the report of the invalid rules in the list. They
cannot tell it if there are no words for one of them. -/
inductive Rejection (posted : Value) : (update check : Except Fault Fields) → Prop
  /-- There is no list to look at. -/
  | notList (h : ∀ rules, posted ≠ .list rules) :
    Rejection posted (.ok [("error", .text "Rules must be an array")])
      (.ok [("error", .text "Rules must be an array")])
  /-- Some rule in the list fails its check. -/
  | invalid {rules : List Value} {complaints : List Complaint} (h : posted = .list rules)
    (hne : complaints ≠ []) (hlist : Complaint.list rules = .ok complaints)
    (htells : Complaint.Tells rules complaints) :
    Rejection posted
      (.ok [("error", .text "Rule validation failed"),
        ("details", .list (complaints.map Complaint.toValue))])
      (.ok [("success", .bool false), ("error", .text "Rule validation failed"),
        ("details", .list (complaints.map Complaint.toValue))])
  /-- Some rule in the list fails its check with a fault that lacks words. -/
  | wordless {rules : List Value} (h : posted = .list rules)
    (hlacks : ∃ rule ∈ rules, rule.LacksWords) :
    Rejection posted (.error (.notWritable .tooManyDigits)) (.error (.notWritable .tooManyDigits))

/-- What an update tells of posted rules with something wrong in them. -/
def UpdateTells (posted : Value) (told : Except Fault Fields) : Prop :=
  ∃ check, Rejection posted told check

/-- What a check tells of posted rules with something wrong in them. -/
def CheckTells (posted : Value) (told : Except Fault Fields) : Prop :=
  ∃ update, Rejection posted update told

/-- The refusal with some fields, or the fault in their place. -/
def refused (told : Except Fault Fields) : Except Fault Response :=
  told.bind fun fields => Response.refusal 400 (.object fields)

/-- An outcome that rejects: an answer with the status 400, the fault that keeps the
fields of such an answer from being told, or the one that keeps them from being written. -/
def Rejects (tells : Except Fault Fields → Prop) (outcome : Except Fault Response) : Prop :=
  (∃ response, outcome = .ok response ∧ response.status = 400) ∨
    (∃ fault, tells (.error fault) ∧ outcome = .error fault) ∨
    ∃ fields fault, tells (.ok fields) ∧
      (Value.object fields).standardJsonFault? = some fault ∧ outcome = .error fault

/-- A refusal that tells what is wrong rejects. -/
theorem rejects_refused {tells : Except Fault Fields → Prop} {told : Except Fault Fields}
    (h : tells told) : Rejects tells (refused told) := by
  cases told with
  | error fault => exact .inr (.inl ⟨fault, h, rfl⟩)
  | ok fields =>
    change Rejects tells (Response.refusal 400 (.object fields))
    rw [Response.refusal]
    split
    · rename_i fault hfault
      exact .inr (.inr ⟨fields, fault, h, hfault, rfl⟩)
    · exact .inl ⟨_, rfl, rfl⟩

/-- Where there is nothing to tell, an outcome whose answers all have the status of
success does not reject. -/
theorem not_rejects {tells : Except Fault Fields → Prop} {outcome : Except Fault Response}
    (htells : ∀ told, ¬ tells told)
    (hstatus : ∀ response, outcome = .ok response → response.status = 200) :
    ¬ Rejects tells outcome := by
  rintro (⟨response, hresponse, h⟩ | ⟨fault, h, -⟩ | ⟨fields, -, h, -⟩)
  · rw [hstatus response hresponse] at h
    cases h
  · exact htells _ h
  · exact htells _ h

/-- Valid rules are not rejected. -/
theorem not_rejection_of_allValid {posted : Value} {rules : List Value}
    (hposted : posted = .list rules) (hvalid : AllValid rules)
    (update check : Except Fault Fields) : ¬ Rejection posted update check := by
  rintro (h | ⟨h, hne, hlist, -⟩ | ⟨h, rule, hrule, hlacks⟩)
  · exact h rules hposted
  · cases hposted.symm.trans h
    cases hlist.symm.trans (Complaint.list_eq_nil_iff.mpr hvalid)
    exact hne rfl
  · cases hposted.symm.trans h
    exact hlacks.ruleFault?_ne_none (hvalid rule hrule)

/-- There is one way to tell what is wrong with posted rules. -/
theorem Rejection.unique {posted : Value} {update check update' check' : Except Fault Fields}
    (h : Rejection posted update check) (h' : Rejection posted update' check') :
    update = update' ∧ check = check' := by
  have hexclusive : ∀ {rules rules' complaints}, posted = .list rules → posted = .list rules' →
      Complaint.list rules = .ok complaints → ¬ ∃ rule ∈ rules', rule.LacksWords := by
    rintro rules rules' complaints hposted hposted' hlist ⟨rule, hrule, hlacks⟩
    cases hposted.symm.trans hposted'
    exact Complaint.exists_list_iff.mp ⟨complaints, hlist⟩ rule hrule hlacks
  cases h with
  | notList hnone =>
    cases h' with
    | notList => exact ⟨rfl, rfl⟩
    | invalid hposted => exact absurd hposted (hnone _)
    | wordless hposted => exact absurd hposted (hnone _)
  | invalid hposted _ hlist =>
    cases h' with
    | notList hnone => exact absurd hposted (hnone _)
    | invalid hposted' _ hlist' =>
      cases hposted.symm.trans hposted'
      cases hlist.symm.trans hlist'
      exact ⟨rfl, rfl⟩
    | wordless hposted' hlacks => exact absurd hlacks (hexclusive hposted hposted' hlist)
  | wordless hposted hlacks =>
    cases h' with
    | notList hnone => exact absurd hposted (hnone _)
    | invalid hposted' _ hlist => exact absurd hlacks (hexclusive hposted' hposted hlist)
    | wordless => exact ⟨rfl, rfl⟩

/-- Posted rules are valid, or there is something wrong with them; then an update
and a check are refused with it. -/
theorem postedRules_cases (payload : Fields) :
    (∃ rules, payload.get "rules" = .list rules ∧ AllValid rules ∧
        PostedRules.of payload = .valid rules) ∨
      ∃ update check, Rejection (payload.get "rules") update check ∧
        (∀ nan, updateRules payload nan = Action.ofExcept (refused update)) ∧
        validate payload = Action.ofExcept (refused check) := by
  unfold updateRules validate PostedRules.of
  split
  · rename_i rules hposted
    have hnil := (Problem.isReport_list rules).eq_nil_iff
    split
    · rename_i hnone
      exact .inl ⟨rules, hposted, hnil.mp hnone, rfl⟩
    · rename_i hsome
      have hinvalid : ¬ AllValid rules := fun hvalid => hsome (hnil.mpr hvalid)
      have hdetails : details (Problem.list rules) = (Complaint.list rules).map fun complaints =>
          ("details", .list (complaints.map Complaint.toValue)) := rfl
      cases hlist : Complaint.list rules with
      | error f =>
        obtain ⟨hlacks, rfl⟩ := Complaint.list_eq_error_iff.mp hlist
        simp only [hdetails, hlist]
        exact .inr ⟨_, _, .wordless hposted hlacks, fun _ => rfl, rfl⟩
      | ok complaints =>
        have hne : complaints ≠ [] := by
          rintro rfl
          exact hinvalid (Complaint.list_eq_nil_iff.mp hlist)
        simp only [hdetails, hlist]
        exact .inr ⟨_, _, .invalid hposted hne hlist (Complaint.tells_of_list hlist),
          fun _ => rfl, rfl⟩
  · rename_i hother
    exact .inr ⟨_, _, .notList hother, fun _ => rfl, rfl⟩

/-- Valid rules are not refused by an update, though the store may not take them. -/
theorem status_of_allValid {payload : Fields} {rules : List Value}
    (hof : PostedRules.of payload = .valid rules) {nan : Identity} {s : Service}
    {response : Response} (h : ((updateRules payload nan).result s).1 = .ok response) :
    response.status = 200 := by
  rw [updateRules, hof] at h
  simp only at h
  rcases acceptRules_cases (PostedRules.allValid_of_eq hof) nan s with
    ⟨f, hf⟩ | ⟨row, store, -, hresult⟩
  · rw [hf] at h
    cases h
  · rw [hresult] at h
    cases h
    rfl

/-- An update and a check reject the same payloads, those with something wrong in
their rules, and both tell the same of it; the details are the report of the
invalid rules in the list. An update that is not answered with success, be it
rejected or stopped by a fault, has changed nothing, and a check never does. -/
theorem updateRules_rejects_iff_validate_rejects (payload : Fields) (nan : Identity)
    (s : Service) :
    ((validate payload).result s).2 = s ∧
      ((∀ response, ((updateRules payload nan).result s).1 = .ok response →
        response.status ≠ 200) → ((updateRules payload nan).result s).2 = s) ∧
      (Rejects (UpdateTells (payload.get "rules")) ((updateRules payload nan).result s).1 ↔
        Rejects (CheckTells (payload.get "rules")) ((validate payload).result s).1) ∧
      (Rejects (CheckTells (payload.get "rules")) ((validate payload).result s).1 ↔
        ∃ update check, Rejection (payload.get "rules") update check) ∧
      ∀ update check, Rejection (payload.get "rules") update check →
        ((updateRules payload nan).result s).1 = refused update ∧
          ((validate payload).result s).1 = refused check := by
  have hunchanged : (∀ response, ((updateRules payload nan).result s).1 = .ok response →
      response.status ≠ 200) → ((updateRules payload nan).result s).2 = s := by
    intro hfailed
    rcases updateRules_cases payload nan s with ⟨hstate, -⟩ | ⟨rules, row, store, -, -, hresult⟩
    · exact hstate
    · exact absurd rfl (hfailed _ (by rw [hresult]))
  refine ⟨(preserves_validate payload s (P := fun s' => s' = s) rfl), hunchanged, ?_⟩
  rcases postedRules_cases payload with
    ⟨rules, hposted, hvalid, hof⟩ | ⟨update, check, hwrong, hupdate, hcheck⟩
  · have hnothing := not_rejection_of_allValid hposted hvalid
    have hupdates : ¬ Rejects (UpdateTells (payload.get "rules"))
        ((updateRules payload nan).result s).1 :=
      not_rejects (fun update ⟨check, h⟩ => hnothing update check h)
        fun _ => status_of_allValid hof
    have hchecks :
        ¬ Rejects (CheckTells (payload.get "rules")) ((validate payload).result s).1 := by
      refine not_rejects (fun check ⟨update, h⟩ => hnothing update check h) ?_
      rw [validate, hof]
      rintro response ⟨⟩
      rfl
    exact ⟨iff_of_false hupdates hchecks,
      iff_of_false hchecks fun ⟨update, check, h⟩ => hnothing update check h,
      fun update check h => absurd h (hnothing update check)⟩
  · rw [hupdate, hcheck]
    have hupdates : Rejects (UpdateTells (payload.get "rules")) (refused update) :=
      rejects_refused ⟨check, hwrong⟩
    have hchecks : Rejects (CheckTells (payload.get "rules")) (refused check) :=
      rejects_refused ⟨update, hwrong⟩
    refine ⟨iff_of_true hupdates hchecks, iff_of_true hchecks ⟨update, check, hwrong⟩, ?_⟩
    intro update' check' hwrong'
    obtain ⟨rfl, rfl⟩ := hwrong.unique hwrong'
    exact ⟨rfl, rfl⟩

end Loyalty.Service
