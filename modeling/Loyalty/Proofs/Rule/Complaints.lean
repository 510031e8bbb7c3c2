import Loyalty.Proofs.Condition.Grammar
import Loyalty.Proofs.Rule.Problems
import Mathlib.Data.List.Forall2

/-!
# Reports in words

The report of a list in words has one entry for each problem in it, with its index, its
id and the words for its fault. There is one unless a fault in it lacks words. It tells of
each rule that fails its check and of no other, and two lists joined are reported like
each of them, the second one with its indices raised by the length of the first.
-/

namespace Loyalty

namespace RuleFault

/-- A fault that cannot be said in words: one of a condition that cannot. -/
def LacksWords : RuleFault → Prop
  | .condition fault => fault.fault.LacksWords
  | _ => False

variable {fault : RuleFault} {f : Fault}

/-- Nothing but the digits of an unknown operator keeps a fault from being said. -/
theorem message_eq_error_iff :
    fault.message = .error f ↔ fault.LacksWords ∧ f = .notWritable .tooManyDigits := by
  cases fault with
  | condition fault =>
    rw [message, map_eq_error, ConditionFault.message_eq_error_iff]
    rfl
  | _ => exact iff_of_false nofun fun h => h.1.elim

/-- A fault is said unless it lacks words. -/
theorem exists_message_iff : (∃ words, fault.message = .ok words) ↔ ¬ fault.LacksWords := by
  rw [exists_ok_iff]
  simp [message_eq_error_iff]

/-- The words for a fault are never empty. -/
theorem message_ne_empty {words : String} (h : fault.message = .ok words) : words ≠ "" := by
  cases fault with
  | condition fault =>
    obtain ⟨text, -, rfl⟩ := map_eq_ok.mp h
    rw [ne_eq, String.append_eq_empty_iff]
    exact fun hempty => absurd hempty.1 (by decide)
  | _ =>
    cases h
    decide

end RuleFault

/-- A rule that fails its check with a fault that cannot be said in words. -/
def Value.LacksWords (rule : Value) : Prop :=
  ∃ fault, rule.ruleFault? = some fault ∧ fault.LacksWords

/-- A rule with few digits does not lack words. -/
theorem Value.HasFewDigits.not_lacksWords {rule : Value} (h : rule.HasFewDigits) :
    ¬ rule.LacksWords := by
  rintro ⟨fault, hfault, hlacks⟩
  cases fault with
  | condition fault =>
    cases rule with
    | object fields =>
      simp only [ruleFault?] at hfault
      split at hfault
      · cases hfault
      split at hfault
      · cases hfault
      split at hfault
      · cases hfault
      split at hfault
      · cases hfault
      obtain ⟨_, hcondition, ⟨⟩⟩ := Option.map_eq_some_iff.mp hfault
      exact Condition.not_lacksWords_of_hasFewDigits (h.get "condition") hcondition hlacks
    | _ => cases hfault
  | _ => exact hlacks

/-- The id that a rule with few digits is reported with has few digits. -/
theorem Value.HasFewDigits.reportedId {rule : Value} (h : rule.HasFewDigits) :
    rule.reportedId.HasFewDigits := by
  refine reportedId_of_id hasFewDigits_text ?_
  rintro fields rfl
  exact h.get "id"

/-- A rule that lacks words fails its check. -/
theorem Value.LacksWords.ruleFault?_ne_none {rule : Value} (h : rule.LacksWords) :
    rule.ruleFault? ≠ none := by
  obtain ⟨fault, hfault, -⟩ := h
  rw [hfault]
  exact Option.some_ne_none fault

/-- The check of a rule says what its first fault is. -/
theorem Value.ruleCheck_eq_some_iff {rule : Value} {words : String} :
    rule.ruleCheck = .ok (some words) ↔
      ∃ fault, rule.ruleFault? = some fault ∧ fault.message = .ok words := by
  rw [ruleCheck]
  cases rule.ruleFault? with
  | none => simp
  | some fault => simp [map_eq_ok]

namespace Complaint

variable {rules : List Value} {complaints : List Complaint} {f : Fault}

/-- The entry of a problem has its index, its id and words for its fault. -/
theorem complaint_eq_ok_iff {p : Problem} {c : Complaint} :
    p.complaint = .ok c ↔ c.index = p.index ∧ c.id = p.id ∧ p.fault.message = .ok c.error := by
  obtain ⟨index, id, error⟩ := c
  rw [Problem.complaint, map_eq_ok]
  constructor
  · rintro ⟨words, hwords, ⟨⟩⟩
    exact ⟨rfl, rfl, hwords⟩
  · rintro ⟨rfl, rfl, hwords⟩
    exact ⟨error, hwords, rfl⟩

/-- The entries of some problems are those of each of them. -/
theorem ofProblems_eq_ok_iff {problems : List Problem} :
    ofProblems problems = .ok complaints ↔
      List.Forall₂ (fun p c => p.complaint = .ok c) problems complaints := by
  induction problems generalizing complaints with
  | nil => simp [ofProblems, eq_comm]
  | cons p ps ih =>
    simp only [ofProblems, bind_eq_ok, ih, List.forall₂_cons_left_iff]
    constructor
    · rintro ⟨c, hc, cs, hcs, ⟨⟩⟩
      exact ⟨c, cs, hc, hcs, rfl⟩
    · rintro ⟨c, cs, hc, hcs, rfl⟩
      exact ⟨c, hc, cs, hcs, rfl⟩

/-- Some problems are not told if the fault of one of them lacks words, and only then. -/
theorem ofProblems_eq_error_iff {problems : List Problem} :
    ofProblems problems = .error f ↔
      (∃ p ∈ problems, p.fault.LacksWords) ∧ f = .notWritable .tooManyDigits := by
  induction problems with
  | nil => simp [ofProblems]
  | cons p ps ih =>
    have hfirst : ∀ {f}, p.complaint = .error f ↔
        p.fault.LacksWords ∧ f = .notWritable .tooManyDigits := by
      simp only [Problem.complaint, map_eq_error, RuleFault.message_eq_error_iff, implies_true]
    rw [ofProblems, List.exists_mem_cons_iff]
    cases hp : p.complaint with
    | error f' =>
      obtain ⟨hlacks, rfl⟩ := hfirst.mp hp
      simp [bind, Except.bind, hlacks, eq_comm]
    | ok c =>
      have hwords : ¬ p.fault.LacksWords := fun hlacks => by
        cases hp.symm.trans (hfirst.mpr ⟨hlacks, rfl⟩)
      rw [ok_bind, bind_eq_error, ih, or_iff_right hwords]
      refine or_iff_left ?_
      rintro ⟨cs, -, ⟨⟩⟩

/-- There is a report unless a rule fails its check with a fault that lacks words. -/
theorem list_eq_error_iff :
    list rules = .error f ↔
      (∃ rule ∈ rules, rule.LacksWords) ∧ f = .notWritable .tooManyDigits := by
  rw [list, ofProblems_eq_error_iff]
  refine and_congr_left fun _ => ?_
  constructor
  · rintro ⟨p, hp, hlacks⟩
    obtain ⟨rule, hrule, hfault, -⟩ := ((Problem.isReport_list rules).mem_iff p).mp hp
    exact ⟨rule, List.mem_of_getElem? hrule, p.fault, hfault, hlacks⟩
  · rintro ⟨rule, hrule, fault, hfault, hlacks⟩
    obtain ⟨index, hindex⟩ := List.mem_iff_getElem?.mp hrule
    exact ⟨⟨index, rule.reportedId, fault⟩,
      ((Problem.isReport_list rules).mem_iff _).mpr ⟨rule, hindex, hfault, rfl⟩, hlacks⟩

/-- There is a report exactly if every fault in it can be said in words. -/
theorem exists_list_iff : (∃ cs, list rules = .ok cs) ↔ ∀ rule ∈ rules, ¬ rule.LacksWords := by
  rw [exists_ok_iff]
  simp [list_eq_error_iff]

/-- Nothing is told of rules that pass their check, and something of all others. -/
theorem list_eq_nil_iff : list rules = .ok [] ↔ AllValid rules := by
  rw [list, ofProblems_eq_ok_iff, List.forall₂_nil_right_iff]
  exact (Problem.isReport_list rules).eq_nil_iff

/-- What a report tells of rules in entries of an index, an id and some words: the
indices ascend, each rule is told of at most once, there are always words, and they are
those that the check of the rule comes to. -/
structure Tells (rules : List Value) (complaints : List Complaint) : Prop where
  ascending : complaints.Pairwise fun c d => c.index < d.index
  atMostOnce : ∀ index, (complaints.map Complaint.index).count index ≤ 1
  inWords : ∀ c ∈ complaints, c.error ≠ ""
  tells_iff : ∀ index id words, ⟨index, id, words⟩ ∈ complaints ↔
    ∃ rule, rules[index]? = some rule ∧ rule.ReportedAs id ∧ rule.ruleCheck = .ok (some words)

/-- A rule that fails its check with words for its fault is told of. -/
theorem Tells.exists_mem (h : Tells rules complaints) {index : Nat} {rule : Value}
    (hindex : rules[index]? = some rule) (hinvalid : rule.ruleFault? ≠ none)
    (hwords : ¬ rule.LacksWords) :
    ∃ words, ⟨index, rule.reportedId, words⟩ ∈ complaints := by
  obtain ⟨fault, hfault⟩ := Option.ne_none_iff_exists'.mp hinvalid
  obtain ⟨words, hmessage⟩ := fault.exists_message_iff.mpr fun hlacks =>
    hwords ⟨fault, hfault, hlacks⟩
  exact ⟨words, (h.tells_iff _ _ _).mpr ⟨rule, hindex, Value.reportedAs_iff.mpr rfl,
    Value.ruleCheck_eq_some_iff.mpr ⟨fault, hfault, hmessage⟩⟩⟩

/-- An entry of a report is the one of a problem. -/
theorem mem_iff_of_forall₂ {problems : List Problem}
    (h : List.Forall₂ (fun p c => p.complaint = .ok c) problems complaints) {c : Complaint} :
    c ∈ complaints ↔ ∃ p ∈ problems, p.complaint = .ok c := by
  induction h with
  | nil => simp
  | @cons p d ps cs hd _ ih =>
    rw [List.mem_cons, ih, List.exists_mem_cons_iff, hd, Except.ok.injEq, eq_comm]

/-- The indices of a report are those of its problems. -/
theorem map_index_of_forall₂ {problems : List Problem}
    (h : List.Forall₂ (fun p c => p.complaint = .ok c) problems complaints) :
    complaints.map Complaint.index = problems.map Problem.index := by
  induction h with
  | nil => rfl
  | cons hd _ ih => rw [List.map_cons, List.map_cons, ih, (complaint_eq_ok_iff.mp hd).1]

/-- A report tells of each rule that fails its check, and of no other. -/
theorem tells_of_list (h : list rules = .ok complaints) : Tells rules complaints := by
  have hall := ofProblems_eq_ok_iff.mp h
  have hreport := Problem.isReport_list rules
  have hascending : (complaints.map Complaint.index).Pairwise (· < ·) := by
    rw [map_index_of_forall₂ hall]
    exact List.pairwise_map.mpr hreport.ascending
  refine ⟨List.pairwise_map.mp hascending,
    List.nodup_iff_count.mp (hascending.imp Nat.ne_of_lt), ?_, ?_⟩
  · intro c hc
    obtain ⟨p, -, hp⟩ := (mem_iff_of_forall₂ hall).mp hc
    exact RuleFault.message_ne_empty (complaint_eq_ok_iff.mp hp).2.2
  · intro index id words
    simp only [mem_iff_of_forall₂ hall, complaint_eq_ok_iff, Value.reportedAs_iff,
      Value.ruleCheck_eq_some_iff]
    constructor
    · rintro ⟨p, hp, rfl, rfl, hwords⟩
      obtain ⟨rule, hrule, hfault, hid⟩ := (hreport.mem_iff p).mp hp
      exact ⟨rule, hrule, hid, p.fault, hfault, hwords⟩
    · rintro ⟨rule, hrule, rfl, fault, hfault, hwords⟩
      exact ⟨⟨index, rule.reportedId, fault⟩, (hreport.mem_iff _).mpr ⟨rule, hrule, hfault, rfl⟩,
        rfl, rfl, hwords⟩

-- An empty list is given as an id, but it is not one to report a rule with.
example : (list [.object [("id", .list [])], .object [("id", .text "GOLD")], .null]).map
      (List.map toValue) =
    .ok [.object [("rule_index", .nat 0), ("rule_id", .text "unknown"),
        ("error", .text "Rule must have a condition field")],
      .object [("rule_index", .nat 1), ("rule_id", .text "GOLD"),
        ("error", .text "Rule must have a condition field")],
      .object [("rule_index", .nat 2), ("rule_id", .text "unknown"),
        ("error", .text "Rule is null or undefined")]] := rfl

/-! ## Lists joined -/

/-- The entry of a rule that stands further behind. -/
def raise (offset : Nat) (c : Complaint) : Complaint := { c with index := c.index + offset }

/-- Problems further behind are told with their indices raised. -/
theorem ofProblems_raise (offset : Nat) (problems : List Problem) :
    ofProblems (problems.map (Problem.raise offset)) =
      (ofProblems problems).map (List.map (raise offset)) := by
  induction problems with
  | nil => rfl
  | cons p ps ih =>
    have hfirst : (p.raise offset).complaint = p.complaint.map (raise offset) := by
      rw [Problem.complaint, Problem.complaint]
      cases hwords : p.fault.message with
      | error f => simp only [Problem.raise, hwords, Except.map]
      | ok words => simp only [Problem.raise, hwords, Except.map, raise]
    rw [List.map_cons, ofProblems, ofProblems, hfirst, ih]
    cases p.complaint with
    | error f => rfl
    | ok c =>
      cases ofProblems ps with
      | error f => rfl
      | ok cs => rfl

/-- Two lists of problems joined are told like one after the other. -/
theorem ofProblems_append (problems more : List Problem) :
    ofProblems (problems ++ more) = (do
      let front ← ofProblems problems
      let back ← ofProblems more
      return front ++ back) := by
  induction problems with
  | nil =>
    rw [List.nil_append, ofProblems, ok_bind]
    cases ofProblems more with
    | error f => rfl
    | ok cs => rfl
  | cons p ps ih =>
    rw [List.cons_append, ofProblems, ofProblems, ih]
    cases p.complaint with
    | error f => rfl
    | ok c =>
      cases ofProblems ps with
      | error f => rfl
      | ok cs =>
        cases ofProblems more with
        | error f => rfl
        | ok ds => rfl

/-- The report of two lists joined is the report of the first and, with the indices raised by
its length, the report of the second. There is none if one of them has none. -/
theorem list_append (rules more : List Value) :
    list (rules ++ more) = (do
      let front ← list rules
      let back ← list more
      return front ++ back.map (raise rules.length)) := by
  rw [list, Problem.list_append, ofProblems_append, ofProblems_raise, list, list]
  cases ofProblems (Problem.list rules) with
  | error f => rfl
  | ok cs =>
    cases ofProblems (Problem.list more) with
    | error f => rfl
    | ok ds => rfl

end Complaint

end Loyalty
