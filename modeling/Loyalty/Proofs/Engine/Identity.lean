import Loyalty.Proofs.Engine.Selection

/-!
# Rules without not-a-number

An engine knows whether not-a-number in its rules equals itself. It only asks
when the ids of rules are compared, so where there is none it does not matter.
-/

namespace Loyalty

variable {nan nan' : Identity}

/-- The id of a rule without not-a-number is without it. -/
theorem Rule.hasNaN_id {v : Value} {r : Rule} (hv : v.hasNaN = false)
    (hr : Rule.ofValue? v = some r) : r.id.hasNaN = false := by
  cases v with
  | object fields =>
    cases hr
    have hfields := Value.hasNaN_object.mp hv
    exact @Fields.get_of_forall (fun v => v.hasNaN = false) fields rfl hfields "id"
  | _ => cases hr

private theorem ofExcept_ok_bind {α β : Type} (a : α) (next : α → Report β) :
    (Report.ofExcept (.ok a) >>= next) = next a := by
  rw [Report.ofExcept, Report.bind_ok, List.nil_append]

namespace Tally

/-- Ids without not-a-number block in the same way. -/
theorem blocks_of_hasNaN_eq_false {t : Tally} (ht : ∀ a ∈ t.applied, a.id.hasNaN = false)
    (r : Rule) : t.blocks nan r = t.blocks nan' r := by
  have hany : (t.applied.any fun a => a.id.looseEq nan .shared r.id) =
      t.applied.any fun a => a.id.looseEq nan' .shared r.id := by
    simpa only [Bool.true_and] using
      Value.any_looseEq_of_hasNaN_eq_false ht (fun _ => true) r.id
  rw [blocks, blocks, hany]

/-- A run over rules whose ids are without not-a-number is the same run. -/
theorem addAll_of_hasNaN_eq_false {record : Value} {rules : List Rule}
    (hrules : ∀ r ∈ rules, r.id.hasNaN = false) {t : Tally}
    (ht : ∀ a ∈ t.applied, a.id.hasNaN = false) :
    addAll nan record t rules = addAll nan' record t rules := by
  induction rules generalizing t with
  | nil => rfl
  | cons r rs ih =>
    have hrest := fun (t : Tally) ht => @ih (fun r hr => hrules r (List.mem_cons_of_mem _ hr)) t ht
    have hblocks : t.blocks nan r = t.blocks nan' r := blocks_of_hasNaN_eq_false ht r
    have hpush : (Report.ofExcept (t.push r) >>= fun t' => addAll nan record t' rs) =
        Report.ofExcept (t.push r) >>= fun t' => addAll nan' record t' rs := by
      cases hadded : t.push r with
      | error f => rfl
      | ok t' =>
        have ht' : ∀ a ∈ t'.applied, a.id.hasNaN = false := by
          intro a ha
          rw [(push_eq hadded).1, List.mem_append, List.mem_singleton] at ha
          rcases ha with ha | rfl
          · exact ht a ha
          · exact hrules r List.mem_cons_self
        rw [ofExcept_ok_bind, ofExcept_ok_bind, hrest t' ht']
    simp only [addAll, hblocks, hrest t ht, hpush]

end Tally

namespace Engine

/-- An engine whose rules are without not-a-number gives every record the same
report whether that equals itself or not. -/
theorem apply_of_hasNaN_eq_false {engine : Engine}
    (hrules : ∀ v ∈ engine.rules, v.hasNaN = false) (nan : Identity) (record : Value) :
    { engine with nan := nan }.apply record = engine.apply record := by
  have hrun : ∀ rules, byPriority (engine.rules.filterMap Rule.ofValue?) = .ok rules →
      Tally.empty.addAll nan record rules = Tally.empty.addAll engine.nan record rules := by
    intro rules htaken
    have horder := inPriorityOrder_of_byPriority htaken
    refine Tally.addAll_of_hasNaN_eq_false ?_ (by simp [Tally.empty])
    intro r hr
    obtain ⟨v, hv, hrule⟩ := List.mem_filterMap.mp (horder.perm.mem_iff.mp hr)
    exact Rule.hasNaN_id (hrules v hv) hrule
  unfold apply
  cases htaken : byPriority (engine.rules.filterMap Rule.ofValue?) with
  | error f => rfl
  | ok rules => rw [ofExcept_ok_bind, ofExcept_ok_bind, hrun rules htaken]

end Engine

end Loyalty
