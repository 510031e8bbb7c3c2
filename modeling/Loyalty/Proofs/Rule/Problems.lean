import Loyalty.Rule.Validity

/-!
# Reports of invalid rules

The report of a list has one problem for every rule that fails its check and none
for any other rule, in the order of the list. It is empty exactly if all rules
pass. The report of two lists joined is the report of the first and, with the
indices raised by its length, the report of the second.
-/

namespace Loyalty

/-- All of some rules pass their check. -/
def AllValid (rules : List Value) : Prop := ∀ rule ∈ rules, rule.ruleFault? = none

/-- The id that a rule is reported with: its own one if it is an object whose id counts as
true, and else a word for an unknown one. -/
inductive Value.ReportedAs : Value → Value → Prop
  /-- The rule has an id that counts as true. -/
  | own {fields : Fields} (h : (Fields.get fields "id").isTruthy = true) :
    ReportedAs (.object fields) (Fields.get fields "id")
  /-- The rule has no such id. -/
  | unknown {rule : Value}
    (h : ∀ fields, rule = .object fields → (Fields.get fields "id").isTruthy = false) :
    ReportedAs rule (.text "unknown")

/-- Each rule is reported with one id. -/
theorem Value.reportedAs_iff {rule id : Value} : ReportedAs rule id ↔ id = rule.reportedId := by
  constructor
  · rintro (h | h)
    · rw [reportedId, orElse, if_pos h]
    · cases rule with
      | object fields => rw [reportedId, orElse, h fields rfl, if_neg Bool.false_ne_true]
      | _ => rfl
  · rintro rfl
    cases rule with
    | object fields =>
      rw [reportedId, orElse]
      split
      · next h => exact .own h
      · next h =>
        refine .unknown fun _ heq => ?_
        cases heq
        exact Bool.eq_false_iff.mpr h
    | _ => exact .unknown fun _ heq => by cases heq

/-- The id that a rule is reported with has what its id has, if texts have it too. -/
theorem Value.reportedId_of_id {P : Value → Prop} {rule : Value} (htext : ∀ s, P (.text s))
    (hid : ∀ fields, rule = .object fields → P (Fields.get fields "id")) : P rule.reportedId := by
  cases rule with
  | object fields =>
    rw [reportedId, orElse]
    split
    · exact hid fields rfl
    · exact htext _
  | _ => exact htext _

namespace Problem

/-- The problems of a list: one with the index, the id and the fault of each rule
that fails its check, by ascending index. -/
structure IsReport (rules : List Value) (problems : List Problem) : Prop where
  mem_iff : ∀ p, p ∈ problems ↔
    ∃ rule, rules[p.index]? = some rule ∧ rule.ruleFault? = some p.fault ∧ p.id = rule.reportedId
  ascending : problems.Pairwise fun p q => p.index < q.index

/-- The problem of a rule has its index, its id and its fault. -/
theorem of?_eq_some_iff {index : Nat} {rule : Value} {p : Problem} :
    of? index rule = some p ↔
      p.index = index ∧ rule.ruleFault? = some p.fault ∧ p.id = rule.reportedId := by
  obtain ⟨i, id, fault⟩ := p
  rw [of?, Option.map_eq_some_iff]
  constructor
  · rintro ⟨_, hfault, h⟩
    cases h
    exact ⟨rfl, hfault, rfl⟩
  · rintro ⟨rfl, hfault, rfl⟩
    exact ⟨fault, hfault, rfl⟩

/-- The problem of a rule that stands further behind. -/
def raise (offset : Nat) (p : Problem) : Problem := { p with index := p.index + offset }

/-- A count from further behind raises the indices and changes nothing else. -/
theorem listFrom_add (index offset : Nat) (rules : List Value) :
    listFrom (index + offset) rules = (listFrom index rules).map (raise offset) := by
  induction rules generalizing index with
  | nil => rfl
  | cons rule rules ih =>
    have hfirst : of? (index + offset) rule = (of? index rule).map (raise offset) := by
      rw [of?, of?, Option.map_map]
      rfl
    rw [listFrom, listFrom, List.map_append, hfirst, Option.toList_map, Nat.add_right_comm, ih]

/-- Behind some rules the count goes on with their number. -/
theorem listFrom_append (index : Nat) (rules more : List Value) :
    listFrom index (rules ++ more) =
      listFrom index rules ++ listFrom (index + rules.length) more := by
  induction rules generalizing index with
  | nil => rfl
  | cons rule rules ih =>
    rw [List.cons_append, listFrom, listFrom, ih, List.append_assoc, List.length_cons,
      Nat.add_right_comm, Nat.add_assoc]

/-- The problems of two lists joined are those of the first and, raised by its length,
those of the second. -/
theorem list_append (rules more : List Value) :
    list (rules ++ more) = list rules ++ (list more).map (raise rules.length) := by
  rw [list, listFrom_append, listFrom_add]
  rfl

/-- A problem in a report counted from an index is the problem of the rule that
stands as far behind the first one. -/
theorem mem_listFrom_iff {index : Nat} {rules : List Value} {p : Problem} :
    p ∈ listFrom index rules ↔
      ∃ offset rule, rules[offset]? = some rule ∧ of? (index + offset) rule = some p := by
  induction rules generalizing index with
  | nil => simp [listFrom]
  | cons rule rules ih =>
    rw [listFrom, List.mem_append, Option.mem_toList, ih]
    constructor
    · rintro (hfirst | ⟨offset, other, hother, hp⟩)
      · exact ⟨0, rule, rfl, hfirst⟩
      · exact ⟨offset + 1, other, hother, by rwa [Nat.add_comm offset, ← Nat.add_assoc]⟩
    · rintro ⟨offset, other, hother, hp⟩
      cases offset with
      | zero =>
        cases hother
        exact .inl hp
      | succ offset =>
        exact .inr ⟨offset, other, hother, by rwa [Nat.add_assoc, Nat.add_comm 1]⟩

/-- Reports go through the rules in their order. -/
theorem pairwise_listFrom (index : Nat) (rules : List Value) :
    (listFrom index rules).Pairwise fun p q => p.index < q.index := by
  induction rules generalizing index with
  | nil => exact .nil
  | cons rule rules ih =>
    rw [listFrom, List.pairwise_append]
    refine ⟨?_, ih (index + 1), ?_⟩
    · cases of? index rule with
      | none => exact .nil
      | some p => exact List.pairwise_singleton _ _
    · intro p hp q hq
      obtain ⟨hindex, -⟩ := of?_eq_some_iff.mp (Option.mem_toList.mp hp)
      obtain ⟨offset, other, -, hother⟩ := mem_listFrom_iff.mp hq
      obtain ⟨hbehind, -⟩ := of?_eq_some_iff.mp hother
      omega

/-- The problems of a list are its report. -/
theorem isReport_list (rules : List Value) : IsReport rules (list rules) := by
  refine ⟨fun p => ?_, pairwise_listFrom 0 rules⟩
  rw [list, mem_listFrom_iff]
  simp only [Nat.zero_add, of?_eq_some_iff]
  constructor
  · rintro ⟨_, rule, hrule, rfl, h⟩
    exact ⟨rule, hrule, h⟩
  · rintro ⟨rule, hrule, h⟩
    exact ⟨p.index, rule, hrule, rfl, h⟩

/-- A report is empty exactly if all rules pass. -/
theorem IsReport.eq_nil_iff {rules : List Value} {problems : List Problem}
    (h : IsReport rules problems) : problems = [] ↔ AllValid rules := by
  rw [List.eq_nil_iff_forall_not_mem]
  constructor
  · intro hnone rule hrule
    obtain ⟨index, hindex⟩ := List.mem_iff_getElem?.mp hrule
    cases hfault : rule.ruleFault? with
    | none => rfl
    | some fault =>
      exact absurd ((h.mem_iff ⟨index, rule.reportedId, fault⟩).mpr ⟨rule, hindex, hfault, rfl⟩)
        (hnone _)
  · intro hvalid p hp
    obtain ⟨rule, hrule, hfault, -⟩ := (h.mem_iff p).mp hp
    rw [hvalid rule (List.mem_of_getElem? hrule)] at hfault
    cases hfault

/-- A list has one report only. -/
theorem IsReport.eq_list {rules : List Value} {problems : List Problem}
    (h : IsReport rules problems) : problems = list rules := by
  have hlist := isReport_list rules
  have hnodup : ∀ {ps}, IsReport rules ps → ps.Nodup := fun hps =>
    hps.ascending.imp fun hlt heq => absurd hlt (by rw [heq]; exact Nat.lt_irrefl _)
  have hperm : problems.Perm (list rules) :=
    (List.perm_ext_iff_of_nodup (hnodup h) (hnodup hlist)).mpr fun p => by
      rw [h.mem_iff, hlist.mem_iff]
  refine hperm.eq_of_pairwise ?_ h.ascending hlist.ascending
  intro p q _ _ hpq hqp
  omega

end Problem

end Loyalty
