import Loyalty.Proofs.Action
import Loyalty.Proofs.Engine.Priority

/-!
# What an engine sees of its rules

An engine asks a rule for the place of its priority, for what its condition says
of a record, and for what an application of it shows. Two lists of rules that
answer alike give every record the same report.
-/

namespace Loyalty

namespace Rule

/-- All that an engine gets to know of a rule. -/
structure Meaning where
  /-- Where the priority stands, or the fault of reading it. -/
  place : Except Fault Int
  condition : Value → Report Bool
  isStackable : Bool
  discount : Except Fault Number
  id : Value
  description : Value
  message : Value

/-- What an engine gets to know of a rule. -/
def meaning (r : Rule) : Meaning where
  place := r.priority.map Number.units
  condition := r.condition.evaluate .distinct
  isStackable := r.isStackable
  discount := r.discount
  id := r.id
  description := r.description
  message := r.message

/-- Whether the place of one rule lets it be taken before another. -/
def Meaning.mayPrecede (m m' : Meaning) : Bool :=
  match m.place, m'.place with
  | .ok p, .ok q => p ≤ q
  | _, _ => false

end Rule

/-- What an engine sees of a list: the meanings of the objects in it. -/
def meanings (rules : List Value) : List Rule.Meaning :=
  (rules.filterMap Rule.ofValue?).map Rule.meaning

/-- Where priorities can be read, each rule has its effective one. -/
theorem priority_of_withPriorities {rules : List Rule} {keyed : List (Number × Rule)}
    (h : withPriorities rules = .ok keyed) : ∀ r ∈ rules, r.priority = .ok r.effectivePriority := by
  induction rules generalizing keyed with
  | nil => simp
  | cons r rs ih =>
    unfold withPriorities at h
    obtain ⟨p, hp, h⟩ := bind_eq_ok.mp h
    obtain ⟨others, hothers, -⟩ := bind_eq_ok.mp h
    intro r' hr'
    rcases List.mem_cons.mp hr' with rfl | hr'
    · have heffective : p = r'.effectivePriority := Value.finiteNumberOr_eq hp
      rw [hp, heffective]
    · exact ih hothers r' hr'

private theorem withPriorities_cons (r : Rule) (rs : List Rule) :
    (withPriorities (r :: rs)).map (fun _ => ()) =
      r.meaning.place.bind fun _ => (withPriorities rs).map fun _ => () := by
  rw [withPriorities, Rule.meaning]
  cases r.priority with
  | error f => rfl
  | ok p =>
    cases withPriorities rs with
    | error f => rfl
    | ok others => rfl

/-- Whether priorities can be read is a matter of meanings. -/
theorem withPriorities_congr {rules rules' : List Rule}
    (h : rules.map Rule.meaning = rules'.map Rule.meaning) :
    (withPriorities rules).map (fun _ => ()) = (withPriorities rules').map fun _ => () := by
  induction rules generalizing rules' with
  | nil =>
    have hnil : rules' = [] := List.map_eq_nil_iff.mp h.symm
    rw [hnil]
  | cons r rs ih =>
    cases rules' with
    | nil => cases h
    | cons r' rs' =>
      rw [List.map_cons, List.map_cons, List.cons.injEq] at h
      rw [withPriorities_cons, withPriorities_cons, h.1, ih h.2]

/-- Rules in a stable sort have their meanings in a stable sort. -/
private theorem map_meaning_mergeSort {rules : List Rule} {keyed : List (Number × Rule)}
    (h : withPriorities rules = .ok keyed) :
    (rules.mergeSort Rule.mayPrecede).map Rule.meaning =
      (rules.map Rule.meaning).mergeSort Rule.Meaning.mayPrecede := by
  refine List.map_mergeSort fun a ha b hb => ?_
  have hread := priority_of_withPriorities h
  simp only [Rule.mayPrecede, Rule.Meaning.mayPrecede, Rule.meaning, hread a ha, hread b hb,
    Except.map]

/-- Rules that mean the same are taken in the same order. -/
theorem byPriority_congr {rules rules' : List Rule}
    (h : rules.map Rule.meaning = rules'.map Rule.meaning) :
    (byPriority rules).map (List.map Rule.meaning) =
      (byPriority rules').map (List.map Rule.meaning) := by
  have hread := withPriorities_congr h
  cases hkeyed : withPriorities rules with
  | error f =>
    cases hkeyed' : withPriorities rules' with
    | error f' =>
      rw [hkeyed, hkeyed'] at hread
      cases hread
      rw [byPriority, byPriority, hkeyed, hkeyed']
    | ok keyed' =>
      rw [hkeyed, hkeyed'] at hread
      cases hread
  | ok keyed =>
    cases hkeyed' : withPriorities rules' with
    | error f' =>
      rw [hkeyed, hkeyed'] at hread
      cases hread
    | ok keyed' =>
      rw [byPriority_eq hkeyed, byPriority_eq hkeyed', Except.map, Except.map,
        map_meaning_mergeSort hkeyed, map_meaning_mergeSort hkeyed', h]

namespace Tally

variable {nan : Identity} {record : Value}

/-- Rules that mean the same are added in the same way. -/
theorem push_congr {r r' : Rule} (h : r.meaning = r'.meaning) (t : Tally) :
    t.push r = t.push r' := by
  have hdiscount : r.discount = r'.discount := congrArg Rule.Meaning.discount h
  have hid : r.id = r'.id := congrArg Rule.Meaning.id h
  have hdescription : r.description = r'.description := congrArg Rule.Meaning.description h
  have hmessage : r.message = r'.message := congrArg Rule.Meaning.message h
  rw [push, push, hdiscount, hid, hdescription, hmessage]

/-- Rules that mean the same are passed over together. -/
theorem blocks_congr {r r' : Rule} (h : r.meaning = r'.meaning) (t : Tally) :
    t.blocks nan r = t.blocks nan r' := by
  have hid : r.id = r'.id := congrArg Rule.Meaning.id h
  have hstackable : r.isStackable = r'.isStackable := congrArg Rule.Meaning.isStackable h
  rw [blocks, blocks, hid, hstackable]

/-- Runs over rules that mean the same are the same. -/
theorem addAll_congr {rules rules' : List Rule}
    (h : rules.map Rule.meaning = rules'.map Rule.meaning) (t : Tally) :
    addAll nan record t rules = addAll nan record t rules' := by
  induction rules generalizing rules' t with
  | nil =>
    have hnil : rules' = [] := List.map_eq_nil_iff.mp h.symm
    rw [hnil]
  | cons r rs ih =>
    cases rules' with
    | nil => cases h
    | cons r' rs' =>
      rw [List.map_cons, List.map_cons, List.cons.injEq] at h
      have hcondition : r.condition.evaluate .distinct record =
          r'.condition.evaluate .distinct record :=
        congrFun (congrArg Rule.Meaning.condition h.1) record
      have hrest : ∀ t, addAll nan record t rs = addAll nan record t rs' := ih h.2
      rw [addAll, addAll, hcondition, push_congr h.1, blocks_congr h.1]
      simp only [hrest]

end Tally

/-- Engines that see the same rules give every record the same report. -/
theorem Engine.apply_congr {engine engine' : Engine} {record : Value}
    (hfield : engine.amountField = engine'.amountField) (hnan : engine.nan = engine'.nan)
    (h : meanings engine.rules = meanings engine'.rules) :
    engine.apply record = engine'.apply record := by
  have horder := byPriority_congr h
  rw [apply, apply, hfield, hnan]
  cases htaken : byPriority (engine.rules.filterMap Rule.ofValue?) with
  | error f =>
    cases htaken' : byPriority (engine'.rules.filterMap Rule.ofValue?) with
    | error f' =>
      rw [htaken, htaken'] at horder
      cases horder
      rfl
    | ok taken' =>
      rw [htaken, htaken'] at horder
      cases horder
  | ok taken =>
    cases htaken' : byPriority (engine'.rules.filterMap Rule.ofValue?) with
    | error f' =>
      rw [htaken, htaken'] at horder
      cases horder
    | ok taken' =>
      rw [htaken, htaken', Except.map, Except.map, Except.ok.injEq] at horder
      have hrun : ∀ t, Tally.addAll engine'.nan record t taken =
          Tally.addAll engine'.nan record t taken' := Tally.addAll_congr horder
      simp only [Report.ofExcept, Report.bind_ok, hrun]

end Loyalty
