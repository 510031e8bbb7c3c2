import Loyalty.Proofs.Engine.Priority

/-!
# Which rules are applied

The tally compares the id of a rule with those of the rules applied so far. The
law of selection speaks of the rules that hold so far instead, applied or not.
`Tally.Covers` ties the two together: every rule that holds has an applied one
with an equal id, because equality of ids is transitive.
-/

namespace Loyalty

namespace Rule

/-- Whether the condition of a rule holds of a record. -/
def holds (record : Value) (r : Rule) : Bool :=
  match (r.condition.evaluate .distinct record).outcome with
  | .ok b => b
  | .error _ => false

/-- What is told of a rule that was applied. -/
def toApplied (r : Rule) : Applied := ⟨r.id, r.description, r.effectiveDiscount, r.message⟩

/-- A rule that holds is applied, except that one which is not stackable must not
have the id of an earlier rule that holds. -/
def isSelected (nan : Identity) (record : Value) (earlier : List Rule) (r : Rule) : Bool :=
  r.holds record &&
    (r.isStackable || !earlier.any fun m => m.holds record && m.id.looseEq nan .shared r.id)

end Rule

/-- The rules among some, the first of them having an index in all, that are
applied. -/
def selectedFrom (nan : Identity) (record : Value) (all : List Rule) (index : Nat)
    (rules : List Rule) : List Rule :=
  ((rules.zipIdx index).filter fun p => p.1.isSelected nan record (all.take p.2)).map Prod.fst

/-- The rules that are applied, in the order in which they are taken: each is
looked at beside those in front of it. -/
def selected (nan : Identity) (record : Value) (rules : List Rule) : List Rule :=
  selectedFrom nan record rules 0 rules

/-- The first rule is selected beside those in front of it, the others after it. -/
theorem selectedFrom_cons (nan : Identity) (record : Value) (earlier : List Rule) (r : Rule)
    (rs : List Rule) :
    selectedFrom nan record (earlier ++ r :: rs) earlier.length (r :: rs) =
      (if r.isSelected nan record earlier then [r] else []) ++
        selectedFrom nan record ((earlier ++ [r]) ++ rs) (earlier ++ [r]).length rs := by
  have htake : (earlier ++ r :: rs).take earlier.length = earlier := by simp
  by_cases hr : r.isSelected nan record earlier = true
  · simp [selectedFrom, List.zipIdx_cons, htake, hr]
  · simp [selectedFrom, List.zipIdx_cons, htake, hr]

/-- A rule that is applied is one of the rules, and it holds. -/
theorem mem_of_mem_selected {nan : Identity} {record : Value} {rules : List Rule} {r : Rule}
    (h : r ∈ selected nan record rules) : r ∈ rules ∧ r.holds record = true := by
  rw [selected, selectedFrom, List.mem_map] at h
  obtain ⟨⟨_, index⟩, hmem, rfl⟩ := h
  obtain ⟨hrules, hselected⟩ := List.mem_filter.mp hmem
  rw [Rule.isSelected, Bool.and_eq_true] at hselected
  exact ⟨(List.mem_zipIdx' hrules).2 ▸ List.getElem_mem _, hselected.1⟩

namespace Tally

variable {nan : Identity} {record : Value}

/-- A rule that can be added comes last, with the discount that it counts with. -/
theorem push_eq {t t' : Tally} {r : Rule} (h : t.push r = .ok t') :
    t'.applied = t.applied ++ [r.toApplied] ∧
      t.total.add? r.effectiveDiscount = some t'.total := by
  unfold push at h
  cases hdiscount : r.discount with
  | error f =>
    rw [hdiscount] at h
    cases h
  | ok percent =>
    have hpercent : percent = r.effectiveDiscount := Value.finiteNumberOr_eq hdiscount
    subst hpercent
    cases htotal : t.total.add? r.effectiveDiscount with
    | none => simp [hdiscount, htotal, Bind.bind, Except.bind] at h
    | some total =>
      simp only [hdiscount, htotal, Bind.bind, Except.bind, Pure.pure, Except.pure,
        Except.ok.injEq] at h
      subst h
      exact ⟨rfl, rfl⟩

/-- What becomes of the first rule: it is added, or it is passed over because its
condition does not hold or its id is blocked. -/
theorem addAll_cons {t t' : Tally} {r : Rule} {rs : List Rule}
    (h : (addAll nan record t (r :: rs)).outcome = .ok t') :
    (r.holds record = true ∧ t.blocks nan r = false ∧
        ∃ t₁, t.push r = .ok t₁ ∧ (addAll nan record t₁ rs).outcome = .ok t') ∨
      ((r.holds record = false ∨ t.blocks nan r = true) ∧
        (addAll nan record t rs).outcome = .ok t') := by
  unfold addAll at h
  obtain ⟨b, hb, h⟩ := Report.outcome_bind_eq_ok.mp h
  have hholds : r.holds record = b := by simp only [Rule.holds, hb]
  cases b with
  | false => exact Or.inr ⟨Or.inl hholds, h⟩
  | true =>
    simp only [if_true] at h
    by_cases hblocks : t.blocks nan r = true
    · rw [if_pos hblocks] at h
      exact Or.inr ⟨Or.inr hblocks, h⟩
    · rw [if_neg hblocks] at h
      obtain ⟨t₁, hpush, h⟩ := Report.outcome_bind_eq_ok.mp h
      exact Or.inl ⟨hholds, by simpa using hblocks, t₁, hpush, h⟩

/-- The applied rules are rules that hold, and every rule that holds has an
applied one with its id or an equal one. -/
structure Covers (nan : Identity) (record : Value) (earlier : List Rule) (t : Tally) : Prop where
  sound : ∀ a ∈ t.applied, ∃ m ∈ earlier, m.holds record = true ∧ m.id = a.id
  complete : ∀ m ∈ earlier, m.holds record = true →
    ∃ a ∈ t.applied, a.id = m.id ∨ a.id.looseEq nan .shared m.id = true

/-- Nothing is covered by nothing. -/
theorem covers_empty : Covers nan record [] empty :=
  ⟨by simp [empty], by simp⟩

/-- Behind a covering tally, a rule that holds is passed over exactly when it is
not selected. -/
theorem Covers.isSelected_eq {earlier : List Rule} {t : Tally} (hcovers : t.Covers nan record earlier)
    {r : Rule} (hholds : r.holds record = true) :
    r.isSelected nan record earlier = !t.blocks nan r := by
  have hany : (earlier.any fun m => m.holds record && m.id.looseEq nan .shared r.id) =
      t.applied.any fun a => a.id.looseEq nan .shared r.id := by
    rw [Bool.eq_iff_iff, List.any_eq_true, List.any_eq_true]
    constructor
    · rintro ⟨m, hm, hmr⟩
      rw [Bool.and_eq_true] at hmr
      obtain ⟨a, ha, heq | hloose⟩ := hcovers.complete m hm hmr.1
      · exact ⟨a, ha, by rw [heq]; exact hmr.2⟩
      · exact ⟨a, ha, Value.looseEq_trans hloose hmr.2⟩
    · rintro ⟨a, ha, har⟩
      obtain ⟨m, hm, hmholds, hid⟩ := hcovers.sound a ha
      exact ⟨m, hm, by rw [hmholds, hid, har]; rfl⟩
  simp [Rule.isSelected, blocks, hholds, hany]

/-- Behind a covering tally, a rule that holds and is not blocked is selected. -/
theorem Covers.isSelected_of_take {earlier : List Rule} {t : Tally}
    (hcovers : t.Covers nan record earlier) {r : Rule} (hholds : r.holds record = true)
    (hblocks : t.blocks nan r = false) : r.isSelected nan record earlier = true := by
  rw [hcovers.isSelected_eq hholds, hblocks]
  rfl

/-- Behind a covering tally, a rule that does not hold or is blocked is not selected. -/
theorem Covers.isSelected_of_skip {earlier : List Rule} {t : Tally}
    (hcovers : t.Covers nan record earlier) {r : Rule}
    (hskip : r.holds record = false ∨ t.blocks nan r = true) :
    r.isSelected nan record earlier = false := by
  cases hholds : r.holds record with
  | false => simp [Rule.isSelected, hholds]
  | true =>
    have hblocks : t.blocks nan r = true := hskip.resolve_left (by simp [hholds])
    rw [hcovers.isSelected_eq hholds, hblocks]
    rfl

/-- Adding a rule that holds covers it. -/
theorem Covers.push {earlier : List Rule} {t t' : Tally} (hcovers : t.Covers nan record earlier)
    {r : Rule} (hholds : r.holds record = true) (hpush : t.push r = .ok t') :
    t'.Covers nan record (earlier ++ [r]) := by
  have happlied := (push_eq hpush).1
  constructor
  · intro a ha
    rw [happlied, List.mem_append, List.mem_singleton] at ha
    rcases ha with ha | rfl
    · obtain ⟨m, hm, hmholds, hid⟩ := hcovers.sound a ha
      exact ⟨m, by simp [hm], hmholds, hid⟩
    · exact ⟨r, by simp, hholds, rfl⟩
  · intro m hm hmholds
    rw [List.mem_append, List.mem_singleton] at hm
    rcases hm with hm | rfl
    · obtain ⟨a, ha, hid⟩ := hcovers.complete m hm hmholds
      exact ⟨a, by simp [happlied, ha], hid⟩
    · exact ⟨m.toApplied, by simp [happlied], Or.inl rfl⟩

/-- Passing over a rule keeps covering: it does not hold, or the rule that blocks
it covers it. -/
theorem Covers.skip {earlier : List Rule} {t : Tally} (hcovers : t.Covers nan record earlier)
    {r : Rule} (hskip : r.holds record = false ∨ t.blocks nan r = true) :
    t.Covers nan record (earlier ++ [r]) := by
  constructor
  · intro a ha
    obtain ⟨m, hm, hmholds, hid⟩ := hcovers.sound a ha
    exact ⟨m, by simp [hm], hmholds, hid⟩
  · intro m hm hmholds
    rw [List.mem_append, List.mem_singleton] at hm
    rcases hm with hm | rfl
    · exact hcovers.complete m hm hmholds
    · rcases hskip with hnot | hblocks
      · rw [hmholds] at hnot
        cases hnot
      · simp only [blocks, Bool.and_eq_true, List.any_eq_true] at hblocks
        obtain ⟨a, ha, har⟩ := hblocks.2
        exact ⟨a, ha, Or.inr har⟩

/-- A whole run adds the selected rules in their order, and their discounts from
the left. -/
theorem addAll_selected {earlier rules : List Rule} {t t' : Tally}
    (hcovers : t.Covers nan record earlier)
    (h : (addAll nan record t rules).outcome = .ok t') :
    t'.applied = t.applied ++
        (selectedFrom nan record (earlier ++ rules) earlier.length rules).map Rule.toApplied ∧
      ((selectedFrom nan record (earlier ++ rules) earlier.length rules).map
        Rule.effectiveDiscount).foldlM Number.add? t.total = some t'.total := by
  induction rules generalizing earlier t with
  | nil =>
    have ht : t = t' := Except.ok.inj h
    subst ht
    simp [selectedFrom]
  | cons r rs ih =>
    rw [selectedFrom_cons]
    rcases addAll_cons h with ⟨hholds, hblocks, t₁, hpush, hrest⟩ | ⟨hskip, hrest⟩
    · have hselected := hcovers.isSelected_of_take hholds hblocks
      obtain ⟨happlied, htotal⟩ := push_eq hpush
      obtain ⟨hrestApplied, hrestTotal⟩ := ih (hcovers.push hholds hpush) hrest
      refine ⟨?_, ?_⟩
      · rw [hrestApplied, happlied, if_pos hselected]
        simp
      · rw [if_pos hselected, List.singleton_append, List.map_cons, List.foldlM_cons, htotal]
        exact hrestTotal
    · rw [hcovers.isSelected_of_skip hskip]
      exact ih (hcovers.skip hskip) hrest

end Tally

/-- Whether not-a-number equals itself does not matter for the selection among
rules whose ids are without it. -/
theorem selected_of_hasNaN_eq_false {nan nan' : Identity} {record : Value} {rules : List Rule}
    (hids : ∀ r ∈ rules, r.id.hasNaN = false) :
    selected nan record rules = selected nan' record rules := by
  have hselected : ∀ (k : Nat) (r : Rule),
      r.isSelected nan record (rules.take k) = r.isSelected nan' record (rules.take k) := by
    intro k r
    have hany : ((rules.take k).any fun m => m.holds record && m.id.looseEq nan .shared r.id) =
        (rules.take k).any fun m => m.holds record && m.id.looseEq nan' .shared r.id :=
      Value.any_looseEq_of_hasNaN_eq_false (fun m hm => hids m (List.mem_of_mem_take hm)) _ _
    simp only [Rule.isSelected, hany]
  simp only [selected, selectedFrom, hselected]

namespace Engine

/-- What a calculation consists of. -/
theorem apply_eq_ok_iff {engine : Engine} {record : Value} {c : Calculation} :
    (engine.apply record).outcome = .ok c ↔
    ∃ rules t, byPriority (engine.rules.filterMap Rule.ofValue?) = .ok rules ∧
      recordAmount engine.amountField record = .ok c.amount ∧
      (Tally.empty.addAll engine.nan record rules).outcome = .ok t ∧
      discountAmount c.amount t.total = .ok c.discount ∧
      (Value.double (c.amount.sub c.discount)).round2 = .ok c.final ∧
      c.applied = t.applied ∧ c.total = t.total ∧ c.message = t.message := by
  constructor
  · intro h
    obtain ⟨rules, hrules, h⟩ := Report.outcome_bind_eq_ok.mp h
    obtain ⟨amount, hamount, h⟩ := Report.outcome_bind_eq_ok.mp h
    obtain ⟨t, ht, h⟩ := Report.outcome_bind_eq_ok.mp h
    obtain ⟨discount, hdiscount, h⟩ := Report.outcome_bind_eq_ok.mp h
    obtain ⟨final, hfinal, h⟩ := Report.outcome_bind_eq_ok.mp h
    have hc := Except.ok.inj h
    subst hc
    exact ⟨rules, t, hrules, hamount, ht, hdiscount, hfinal, rfl, rfl, rfl⟩
  · rintro ⟨rules, t, hrules, hamount, ht, hdiscount, hfinal, happlied, htotal, hmessage⟩
    obtain ⟨amount, applied, total, discount, final, message⟩ := c
    simp only at hamount hdiscount hfinal happlied htotal hmessage
    subst happlied htotal hmessage
    exact Report.outcome_bind_eq_ok.mpr ⟨rules, hrules, Report.outcome_bind_eq_ok.mpr
      ⟨amount, hamount, Report.outcome_bind_eq_ok.mpr ⟨t, ht, Report.outcome_bind_eq_ok.mpr
        ⟨discount, hdiscount, Report.outcome_bind_eq_ok.mpr ⟨final, hfinal, rfl⟩⟩⟩⟩⟩

/-- A calculation that returns took the rules in some priority order, and its
tally is a run over them. -/
theorem apply_eq_ok {engine : Engine} {record : Value} {c : Calculation}
    (h : (engine.apply record).outcome = .ok c) :
    ∃ rules t, byPriority (engine.rules.filterMap Rule.ofValue?) = .ok rules ∧
      (Tally.empty.addAll engine.nan record rules).outcome = .ok t ∧
      c.applied = t.applied ∧ c.total = t.total := by
  obtain ⟨rules, t, hrules, -, ht, -, -, happlied, htotal, -⟩ := apply_eq_ok_iff.mp h
  exact ⟨rules, t, hrules, ht, happlied, htotal⟩

/-- The law of selection. A calculation that returns applied, in the order of
priority, exactly the rules that hold and are stackable or have no earlier rule
that holds and has an equal id; its total is the sum of their discounts from the
left, beginning with the integer zero. -/
theorem apply_selects {engine : Engine} {record : Value} {c : Calculation}
    (hids : ∀ r ∈ engine.rules.filterMap Rule.ofValue?, r.id.hasNaN = false)
    (h : (engine.apply record).outcome = .ok c) :
    ∃ taken, InPriorityOrder (engine.rules.filterMap Rule.ofValue?) taken ∧
      c.applied = (selected .distinct record taken).map Rule.toApplied ∧
      ((selected .distinct record taken).map Rule.effectiveDiscount).foldlM Number.add? (.int 0) =
        some c.total := by
  obtain ⟨taken, t, htaken, ht, happlied, htotal⟩ := apply_eq_ok h
  have horder := inPriorityOrder_of_byPriority htaken
  have hnan : selected engine.nan record taken = selected .distinct record taken :=
    selected_of_hasNaN_eq_false fun r hr => hids r (horder.perm.mem_iff.mp hr)
  obtain ⟨hrun, hsum⟩ := Tally.addAll_selected Tally.covers_empty ht
  refine ⟨taken, horder, ?_, ?_⟩
  · rw [happlied, ← hnan]
    exact hrun
  · rw [htotal, ← hnan]
    exact hsum

end Engine

/-- A rule for gold that is not stackable. -/
def rivalRule (id priority discount : Value) : Rule :=
  ⟨[("id", id), ("priority", priority),
    ("condition", .object [("field", .text "tier"), ("operator", .text "=="),
      ("value", .text "gold")]),
    ("action", .object [("discountPercent", discount), ("stackable", .bool false)])]⟩

/-- Two rules whose ids are equal, the second one being taken first. -/
def rivals : List Rule :=
  [rivalRule (.int 1) (.int 2) (.int 10), rivalRule (.bool true) (.int 1) (.int 5)]

/-- An engine with the two rules. -/
def rivalEngine : Engine :=
  ⟨Engine.defaultAmountField, rivals.map fun r => .object r.fields, .shared⟩

/-- A booking for gold. -/
def goldRecord : Value := .object [("tier", .text "gold"), ("total_spend", .int 100)]

/-- The law of selection where one of two rules is passed over. -/
theorem apply_selects_rivals :
    (∀ r ∈ rivals, r.id.hasNaN = false) ∧
      ∃ c, (rivalEngine.apply goldRecord).outcome = .ok c ∧
        ∃ taken, InPriorityOrder rivals taken ∧
          c.applied = (selected .distinct goldRecord taken).map Rule.toApplied ∧
          ((selected .distinct goldRecord taken).map Rule.effectiveDiscount).foldlM
            Number.add? (.int 0) = some c.total := by
  have hids : ∀ r ∈ rivals, r.id.hasNaN = false := by decide
  obtain ⟨keyed, hkeyed⟩ := exists_ok_of_isOk (r := withPriorities rivals) (by decide +kernel)
  have hlater : Rule.mayPrecede (rivalRule (.int 1) (.int 2) (.int 10))
      (rivalRule (.bool true) (.int 1) (.int 5)) = false := by decide +kernel
  have htaken : byPriority rivals = .ok rivals.reverse := by
    rw [byPriority_eq hkeyed]
    simp [rivals, List.mergeSort, hlater]
  have hok : (rivalEngine.apply goldRecord).outcome.isOk = true := by
    change (Report.ofExcept (byPriority rivals) >>= _ : Report Calculation).outcome.isOk = true
    rw [htaken]
    decide +kernel
  obtain ⟨c, hc⟩ := exists_ok_of_isOk hok
  exact ⟨hids, c, hc, @Engine.apply_selects rivalEngine _ _ hids hc⟩

end Loyalty
