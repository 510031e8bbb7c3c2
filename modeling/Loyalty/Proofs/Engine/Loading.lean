import Loyalty.Engine
import Loyalty.Proofs.Rule.Complaints

/-!
# Loading of rules

An engine takes the rules of a sequence as they are, the invalid ones too, and answers
with the problems of the rules that it has then. What it answers to two lists joined is
what it answers to each of them, the second time with the indices raised by the length
of the first list.
-/

namespace Loyalty.Engine

/-- The rules of a sequence are its elements; one that counts as false has none. -/
theorem rulesOf_of_elements {rules : Value} {items : List Value}
    (h : rules.elements = .ok items) : rulesOf rules = .ok items := by
  rw [rulesOf]
  split
  · exact h
  · rename_i hfalse
    cases rules with
    | text s =>
      have hempty : s = "" := by simpa [Value.isTruthy] using hfalse
      subst hempty
      exact h
    | array kind vs =>
      have hempty : vs = [] := by simpa [Value.isTruthy] using hfalse
      subst hempty
      exact h
    | object fields =>
      have hempty : fields = [] := by simpa [Value.isTruthy] using hfalse
      subst hempty
      exact h
    | _ => cases h

/-- The rules of a list are its elements. -/
theorem rulesOf_list (rules : List Value) : rulesOf (.list rules) = .ok rules :=
  rulesOf_of_elements rfl

/-- Rules of which a load can tell: for each that fails its check there are words for its fault,
and the id that it is reported with has a text. -/
def Tellable (rules : List Value) : Prop :=
  ∀ rule ∈ rules, rule.ruleFault? ≠ none → ¬ rule.LacksWords ∧ rule.reportedId.HasFewDigits

/-- There is nothing to tell of rules that pass their check. -/
theorem tellable_of_allValid {rules : List Value} (h : AllValid rules) : Tellable rules :=
  fun rule hrule hinvalid => absurd (h rule hrule) hinvalid

/-- Rules with few digits can be told of. -/
theorem tellable_of_hasFewDigits {rules : List Value} (h : ∀ rule ∈ rules, rule.HasFewDigits) :
    Tellable rules :=
  fun rule hrule _ => ⟨(h rule hrule).not_lacksWords, (h rule hrule).reportedId⟩

/-- A warning goes through the complaints up to the first whose id has no text. -/
theorem outcome_warn (complaints : List Complaint) :
    (warn complaints).outcome =
      if ∀ c ∈ complaints, c.id.HasFewDigits then .ok ()
      else .error (.notWritable .tooManyDigits) := by
  induction complaints with
  | nil => rfl
  | cons c cs ih =>
    by_cases hfew : c.id.HasFewDigits
    · have hrest : (warn (c :: cs)).outcome = (warn cs).outcome := by
        rw [warn, Value.display_of_hasFewDigits hfew]
        rfl
      simp only [hrest, ih, List.forall_mem_cons, hfew, true_and]
    · have hstops : (warn (c :: cs)).outcome = .error (.notWritable .tooManyDigits) := by
        rw [warn, Value.display_of_not_hasFewDigits hfew]
        rfl
      simp only [hstops, List.forall_mem_cons, hfew, false_and, if_false]

/-- The ids in a report are those of the rules that fail their check. -/
theorem forall_id_iff {rules : List Value} {complaints : List Complaint}
    (h : Complaint.list rules = .ok complaints) :
    (∀ c ∈ complaints, c.id.HasFewDigits) ↔ Tellable rules := by
  have htells := Complaint.tells_of_list h
  have hwords := Complaint.exists_list_iff.mp ⟨complaints, h⟩
  constructor
  · intro hids rule hrule hinvalid
    refine ⟨hwords rule hrule, ?_⟩
    obtain ⟨index, hindex⟩ := List.mem_iff_getElem?.mp hrule
    obtain ⟨words, hmem⟩ := htells.exists_mem hindex hinvalid (hwords rule hrule)
    exact hids _ hmem
  · rintro htellable ⟨index, id, words⟩ hc
    obtain ⟨rule, hindex, hid, hcheck⟩ := (htells.tells_iff _ _ _).mp hc
    obtain ⟨fault, hfault, -⟩ := Value.ruleCheck_eq_some_iff.mp hcheck
    rw [Value.reportedAs_iff.mp hid]
    exact (htellable rule (List.mem_of_getElem? hindex) (by simp [hfault])).2

section Load

variable {rules : Value} {items : List Value} {nan : Identity} {engine : Engine}

/-- A load of rules that can be told of puts them in the engine, and comes to their report. -/
theorem outcome_load_of_tellable (hrules : rulesOf rules = .ok items) (h : Tellable items)
    (nan : Identity) (engine : Engine) :
    ∃ complaints, Complaint.list items = .ok complaints ∧
      (engine.load rules nan).outcome = .ok ({ engine with rules := items, nan }, complaints) := by
  obtain ⟨complaints, hlist⟩ := Complaint.exists_list_iff.mpr fun rule hrule hlacks =>
    (h rule hrule hlacks.ruleFault?_ne_none).1 hlacks
  refine ⟨complaints, hlist, ?_⟩
  have hwarn : (warn complaints).outcome = .ok () := by
    rw [outcome_warn, if_pos ((forall_id_iff hlist).mpr h)]
  rw [load, hrules]
  refine Report.outcome_bind_eq_ok.mpr ⟨items, rfl, ?_⟩
  rw [hlist]
  exact Report.outcome_bind_eq_ok.mpr ⟨_, rfl, Report.outcome_bind_eq_ok.mpr ⟨_, hwarn, rfl⟩⟩

/-- A load of other rules fails. -/
theorem outcome_load_of_not_tellable (hrules : rulesOf rules = .ok items) (h : ¬ Tellable items)
    (nan : Identity) (engine : Engine) :
    (engine.load rules nan).outcome = .error (.notWritable .tooManyDigits) := by
  rw [load, hrules]
  refine Report.outcome_bind_eq_error.mpr (.inr ⟨items, rfl, ?_⟩)
  cases hlist : Complaint.list items with
  | error f =>
    obtain ⟨-, rfl⟩ := Complaint.list_eq_error_iff.mp hlist
    rfl
  | ok complaints =>
    have hwarn : (warn complaints).outcome = .error (.notWritable .tooManyDigits) := by
      rw [outcome_warn, if_neg (mt (forall_id_iff hlist).mp h)]
    exact Report.outcome_bind_eq_error.mpr (.inr ⟨_, rfl, Report.outcome_bind_eq_error.mpr
      (.inl hwarn)⟩)

/-- What a load comes to: the engine with the rules that were given, which can be told of, and
their report. -/
theorem outcome_load_eq_ok_iff {loaded : Engine} {complaints : List Complaint} :
    (engine.load rules nan).outcome = .ok (loaded, complaints) ↔
      ∃ items, rulesOf rules = .ok items ∧ Tellable items ∧
        Complaint.list items = .ok complaints ∧ loaded = { engine with rules := items, nan } := by
  cases hrules : rulesOf rules with
  | error f =>
    rw [load, hrules]
    simp [Report.ofExcept]
  | ok items =>
    by_cases htellable : Tellable items
    · obtain ⟨complaints', hlist, hload⟩ := outcome_load_of_tellable hrules htellable nan engine
      simp [hload, hlist, htellable, eq_comm, and_comm]
    · simp [outcome_load_of_not_tellable hrules htellable, htellable]

/-- A new engine with a list that can be told of has its items as rules. -/
theorem create_list {rules : List Value} (h : Tellable rules) (nan : Identity)
    (amountField : Value) :
    (create (.list rules) nan amountField).outcome = .ok ⟨amountField, rules, nan⟩ := by
  obtain ⟨complaints, -, hload⟩ :=
    outcome_load_of_tellable (rulesOf_list rules) h nan
      ⟨amountField, [], nan⟩
  exact Report.outcome_bind_eq_ok.mpr ⟨_, hload, rfl⟩

/-- A new engine with the items of a list could tell of them. -/
theorem of_create_list {rules : List Value} {amountField : Value} {created : Engine}
    (h : (create (.list rules) nan amountField).outcome = .ok created) :
    created = ⟨amountField, rules, nan⟩ := by
  obtain ⟨⟨loaded, complaints⟩, hload, hcreated⟩ := Report.outcome_bind_eq_ok.mp h
  obtain ⟨items, hitems, -, -, rfl⟩ := outcome_load_eq_ok_iff.mp hload
  cases (rulesOf_list rules).symm.trans hitems
  cases hcreated
  rfl

end Load

/-- The report of two lists joined is that of the first and, raised by its length, that of the
second. It tells of each rule that fails its check and of no other, and there is one unless such
a rule lacks words. Every engine comes to the report of a list when it takes the list as its
rules, and it takes it if besides the ids in the report have texts; otherwise it fails. Whatever
else it is given, it comes to the report of the rules that it has then. -/
theorem load_complaints_joined (rules more : List Value) (nan : Identity) (engine : Engine) :
    (Complaint.list (rules ++ more) = do
        let front ← Complaint.list rules
        let back ← Complaint.list more
        return front ++ back.map (Complaint.raise rules.length)) ∧
      (∀ complaints, Complaint.list rules = .ok complaints → Complaint.Tells rules complaints) ∧
      (∀ f, Complaint.list rules = .error f ↔
        (∃ rule ∈ rules, rule.LacksWords) ∧ f = .notWritable .tooManyDigits) ∧
      (∀ loaded complaints, (engine.load (.list rules) nan).outcome = .ok (loaded, complaints) ↔
        Tellable rules ∧ Complaint.list rules = .ok complaints ∧
          loaded = { engine with rules, nan }) ∧
      (∀ f, (engine.load (.list rules) nan).outcome = .error f ↔
        ¬ Tellable rules ∧ f = .notWritable .tooManyDigits) ∧
      ∀ given loaded complaints, (engine.load given nan).outcome = .ok (loaded, complaints) →
        Complaint.list loaded.rules = .ok complaints := by
  have hrules := rulesOf_list rules
  refine ⟨Complaint.list_append rules more, fun _ => Complaint.tells_of_list,
    fun _ => Complaint.list_eq_error_iff, fun loaded complaints => ?_, fun f => ?_,
    fun given loaded complaints h => ?_⟩
  · simp [outcome_load_eq_ok_iff, hrules]
  · by_cases htellable : Tellable rules
    · obtain ⟨complaints, -, hload⟩ := outcome_load_of_tellable hrules htellable nan engine
      simp [hload, htellable]
    · simp [outcome_load_of_not_tellable hrules htellable, htellable, eq_comm]
  · obtain ⟨items, -, -, hlist, rfl⟩ := outcome_load_eq_ok_iff.mp h
    exact hlist

/-- The report of a rule with an id of a digit too many is there, but no engine takes the
rule. -/
theorem not_loaded_powerOfTen :
    Complaint.list [.object [("id", .int (10 ^ 4300))]] =
        .ok [⟨0, .int (10 ^ 4300), "Rule must have a condition field"⟩] ∧
      (load (.list [.object [("id", .int (10 ^ 4300))]]) .distinct
        ⟨defaultAmountField, [], .distinct⟩).outcome = .error (.notWritable .tooManyDigits) := by
  have hmany : ¬ (Value.int (10 ^ 4300)).HasFewDigits := Value.not_hasFewDigits_pow (Nat.le_refl _)
  have htruthy := Value.isTruthy_pow 4300
  generalize (10 : Int) ^ 4300 = n at hmany htruthy ⊢
  have hfault : (Value.object [("id", .int n)]).ruleFault? = some .noCondition := by
    have hgiven : (Value.int n).isGiven = true := htruthy
    change (if !(Value.int n).isGiven then some RuleFault.noId else some .noCondition) = _
    rw [hgiven]
    rfl
  have hid : (Value.object [("id", .int n)]).reportedId = .int n := by
    change (Value.int n).orElse (.text "unknown") = _
    rw [Value.orElse, if_pos htruthy]
  constructor
  · simp only [Complaint.list, Problem.list, Problem.listFrom, Problem.of?, hfault, hid]
    rfl
  · refine outcome_load_of_not_tellable (rulesOf_list _) (fun htellable => ?_) _ _
    have hfew := (htellable _ List.mem_cons_self (by simp [hfault])).2
    rw [hid] at hfew
    exact hmany hfew

end Loyalty.Engine
