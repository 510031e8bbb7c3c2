import Loyalty.Proofs.Engine.Silence
import Loyalty.Proofs.Rule.Rereading
import Loyalty.Proofs.Service.History
import Loyalty.Proofs.Service.Rejection

/-!
# Circulation of rules

Rules get into a row by an update, and from there into an engine by a reload or a
start. An update lets only valid rules in, a row gives back what passes the check
exactly if what was written into it does, and an overwrite or a reload that is
skipped leaves rules that were valid before. So where all rules are valid at first
they stay so as long as no rule file is read, and no calculation has anything to
tell its operator.
-/

namespace Loyalty

/-- A value that holds only valid rules, if it can be gone through at all. -/
def Value.HoldsValid (v : Value) : Prop := ∀ rules, v.elements = .ok rules → AllValid rules

/-- What is stored for valid rules holds only valid ones. -/
theorem Value.holdsValid_of_stored {rules : List Value} (hvalid : AllValid rules) {v : Stored}
    (h : (list rules).stored = .ok v) : v.val.HoldsValid := by
  rw [stored_list h]
  rintro _ ⟨⟩
  exact (allValid_rereadItems rules).mpr hvalid

/-- A request that does not start the service with a rule file. -/
def Request.ReadsNoFile : Request → Prop
  | .startup file _ => file.contents = none
  | _ => True

/-- A request to calculate a discount. -/
def Request.IsCalculation : Request → Prop
  | .calculate .. => True
  | _ => False

/-- The report of a call, notices included. -/
def Call.report (call : Call) (s : Service) : Report (Option Response) :=
  (call.request.run { s with now := call.instant }).1

namespace Service

open Loyalty.Action

/-- The state after some calls. -/
def after (s : Service) (calls : List Call) : Service :=
  calls.foldl (fun s call => (call.serve s).2) s

/-- All rows hold only valid rules, and so does the engine in use. -/
structure OnlyValid (store : Store) (engine : Option Engine) : Prop where
  stored : ∀ row ∈ store.rows, row.rules.HoldsValid
  inUse : ∀ inUse, engine = some inUse → AllValid inUse.rules

/-- An update writes nothing but valid rules. -/
theorem onlyValid_updateRules {s : Service} (hs : OnlyValid s.store s.engine) (payload : Fields)
    (nan : Identity) : OnlyValid ((updateRules payload nan).result s).2.store
      ((updateRules payload nan).result s).2.engine := by
  rcases postedRules_cases payload with ⟨rules, -, hvalid, hof⟩ | ⟨_, _, -, hupdate, -⟩
  · rw [updateRules, hof]
    simp only
    rcases acceptRules_cases hvalid nan s with ⟨f, hf⟩ | ⟨row, store, hsaved, hresult⟩
    · rw [hf]
      exact hs
    · rw [hresult]
      -- The row may keep older rules that equal the posted ones loosely; these were valid.
      refine ⟨hsaved.forall_rules (fun v => Value.holdsValid_of_stored hvalid) hs.stored, ?_⟩
      intro inUse hinUse
      obtain ⟨engine, -, rfl⟩ := Option.map_eq_some_iff.mp hinUse
      exact hvalid
  · rw [hupdate nan]
    exact hs

/-- A reload takes rules from a row. -/
theorem onlyValid_reload {s : Service} (hs : OnlyValid s.store s.engine) (name : RuleSetName)
    (outOfOrder : Option String) : OnlyValid ((reload name outOfOrder).result s).2.store
      ((reload name outOfOrder).result s).2.engine := by
  rcases reload_cases name outOfOrder s with hsame | ⟨items, engine, hbrings, hloaded⟩
  · rwa [hsame]
  · obtain ⟨row, hrow, helements⟩ := hbrings.stored
    rw [hloaded]
    refine ⟨hs.stored, ?_⟩
    rintro _ ⟨⟩
    exact hs.stored row (Store.mem_of_find? hrow) items helements

/-- A start without a rule file takes the rules from a row, if there is one. -/
theorem onlyValid_startup {s : Service} (hs : OnlyValid s.store s.engine) {file : RuleFile}
    (hfile : file.contents = none) (reloadSeconds : Value) :
    OnlyValid ((startup file reloadSeconds).result s).2.store
      ((startup file reloadSeconds).result s).2.engine := by
  have hfilled : filled file s = (.ok (), s.store) := by
    rw [filled, hfile]
  have hstarted := startup_cases file reloadSeconds s
  generalize (startup file reloadSeconds).result s = result at hstarted
  cases hstarted with
  | notFilled h =>
    rw [hfilled] at h
    cases h
  | noRules h =>
    rw [hfilled] at h
    cases h
    exact hs
  | ready h hrules _ =>
    rw [hfilled] at h
    cases h
    refine ⟨hs.stored, ?_⟩
    rintro _ ⟨⟩
    unfold Store.rules at hrules
    split at hrules
    · rename_i row hrow
      exact hs.stored row (Store.mem_of_find? hrow) _ hrules
    · cases hrules
      simp [AllValid]

/-- A calculation for a booking with valid rules gives no notices. -/
private theorem silent_calculateBooking {engine : Engine} (hvalid : AllValid engine.rules)
    (tier : String) (amount : Double) (bookingDate : Value) (now : Moment) :
    Silent (calculateBooking engine tier amount bookingDate now) := by
  have hrest : ∀ date : Value, Silent (σ := Service) (do
      let day ← Action.ofExcept date.dayName
      let c ← Action.lift (engine.apply (bookingRecord tier amount date day))
      return calculated (bookingRecord tier amount date day) c) := fun date =>
    (silent_ofExcept _).bind fun _ =>
      (silent_lift (Engine.silent_apply hvalid _)).bind fun _ => silent_pure _
  unfold calculateBooking
  simp only
  split
  · exact (silent_pure _).bind hrest
  · exact (silent_ofExcept _).bind hrest

/-- A calculation with valid rules gives no notices. -/
theorem silent_calculate {s : Service} (hs : OnlyValid s.store s.engine) (payload : Fields)
    (now : Moment) : (calculate payload now s).1.Silent := by
  refine silent_get_bind ?_
  cases hengine : s.engine with
  | none => exact silent_ofExcept _
  | some engine =>
    simp only
    split
    · exact silent_ofExcept _
    · exact silent_ofExcept _
    · split
      · exact silent_ofExcept _
      · refine (silent_ofExcept _).bind fun amount => ?_
        split
        · exact silent_ofExcept _
        · split
          · exact silent_ofExcept _
          · split
            · exact silent_ofExcept _
            · exact silent_calculateBooking (hs.inUse engine hengine) _ _ _ _

/-- Every call that reads no file keeps all rules valid. -/
theorem onlyValid_serve {s : Service} (hs : OnlyValid s.store s.engine) {call : Call}
    (hcall : call.request.ReadsNoFile) :
    OnlyValid (call.serve s).2.store (call.serve s).2.engine := by
  obtain ⟨instant, request⟩ := call
  have hnow : OnlyValid { s with now := instant }.store { s with now := instant }.engine := hs
  have hkept : ∀ {action : Action Service (Option Response)},
      Preserves (fun s => OnlyValid s.store s.engine) action →
      OnlyValid (action.result { s with now := instant }).2.store
        (action.result { s with now := instant }).2.engine := fun h => h _ hnow
  cases request with
  | startup file reloadSeconds =>
    exact hkept (Preserves.bind (fun s hs => onlyValid_startup hs hcall reloadSeconds) fun _ =>
      preserves_pure _)
  | updateRules payload nan =>
    exact hkept (Preserves.bind (fun s hs => onlyValid_updateRules hs payload.fields nan) fun _ =>
      preserves_pure _)
  | validate payload =>
    exact hkept ((preserves_validate payload.fields).bind fun _ => preserves_pure _)
  | calculate payload now =>
    exact hkept ((preserves_calculate payload.fields now).bind fun _ => preserves_pure _)
  | health => exact hkept (preserves_health.bind fun _ => preserves_pure _)
  | getRules => exact hkept (preserves_getRules.bind fun _ => preserves_pure _)
  | reload name outOfOrder =>
    exact hkept (Preserves.bind (fun s hs => onlyValid_reload hs name outOfOrder) fun _ =>
      preserves_pure _)

/-- A run of such calls keeps all rules valid. -/
theorem onlyValid_run {s : Service} (hs : OnlyValid s.store s.engine) {calls : List Call}
    (hcalls : ∀ call ∈ calls, call.request.ReadsNoFile) :
    OnlyValid (s.after calls).store (s.after calls).engine := by
  induction calls generalizing s with
  | nil => exact hs
  | cons call calls ih =>
    obtain ⟨hfirst, hrest⟩ := List.forall_mem_cons.mp hcalls
    exact ih (onlyValid_serve hs hfirst) hrest

/-- A calculation gives no notices where all rules are valid. -/
theorem silent_report {s : Service} (hs : OnlyValid s.store s.engine) {call : Call}
    (hcall : call.request.IsCalculation) : (call.report s).Silent := by
  obtain ⟨instant, request⟩ := call
  cases request with
  | calculate payload now =>
    exact silent_bind (silent_calculate (s := { s with now := instant }) hs _ _) fun _ =>
      silent_pure _
  | _ => cases hcall

/-- Where all rows and the engine in use hold only valid rules at first, they do so
in every state that a run reaches in which no start reads a rule file, and no
calculation in the run gives a notice. -/
theorem onlyValid_after {s : Service} (hs : OnlyValid s.store s.engine) {calls : List Call}
    (hcalls : ∀ call ∈ calls, call.request.ReadsNoFile) :
    (∀ served, served <+: calls → OnlyValid (s.after served).store (s.after served).engine) ∧
      ∀ served call, served ++ [call] <+: calls → call.request.IsCalculation →
        (call.report (s.after served)).Silent := by
  have hreached : ∀ served, served <+: calls →
      OnlyValid (s.after served).store (s.after served).engine := fun served hserved =>
    onlyValid_run hs fun call hcall => hcalls call (hserved.subset hcall)
  refine ⟨hreached, fun served call hserved hcall => ?_⟩
  exact silent_report (hreached served ((List.prefix_append served [call]).trans hserved)) hcall

/-- A rule for gold on weekends or with a large amount. -/
def nestedRule : Value :=
  .object [("id", .text "NESTED"), ("condition", Condition.nestedCondition),
    ("action", .object [("discountPercent", .int 10)])]

/-- A service that stores this rule and has it in use. -/
def nestedService : Service := holding [nestedRule] [nestedRule]

/-- A payload with this rule. -/
def nestedPayload : Payload where
  fields := [("rules", .list [nestedRule])]
  wellFormed := by
    simp [nestedRule, Condition.nestedCondition, Value.list, Value.int, Value.WellFormed,
      Value.WellFormedItems, Value.WellFormedFields]

/-- A booking on a Friday with a large amount. -/
def goldPayload : Payload where
  fields := [("tier", .text "gold"), ("total_spend", .int 6000),
    ("booking_date", .text "2025-10-31")]
  wellFormed := by simp [Value.int, Value.WellFormed, Value.WellFormedFields]

/-- An update with the rule, a reload, and a calculation for the booking. -/
def nestedCalls : List Call :=
  [⟨nestedService.now, .updateRules nestedPayload .shared⟩,
    ⟨nestedService.now, .reload (some ruleSet) none⟩,
    ⟨nestedService.now, .calculate goldPayload nestedService.now.moment⟩]

/-- A run of these calls on this service. -/
theorem onlyValid_after_nested :
    OnlyValid nestedService.store nestedService.engine ∧
      (∀ call ∈ nestedCalls, call.request.ReadsNoFile) ∧
      (∀ served, served <+: nestedCalls →
        OnlyValid (nestedService.after served).store (nestedService.after served).engine) ∧
      ∀ served call, served ++ [call] <+: nestedCalls → call.request.IsCalculation →
        (call.report (nestedService.after served)).Silent := by
  have hvalid : AllValid [nestedRule] := by
    intro rule hrule
    rw [List.mem_singleton.mp hrule]
    rfl
  have hs : OnlyValid nestedService.store nestedService.engine := by
    constructor
    · intro row hrow
      rw [List.mem_singleton.mp hrow]
      rintro _ ⟨⟩
      exact hvalid
    · rintro _ ⟨⟩
      exact hvalid
  have hcalls : ∀ call ∈ nestedCalls, call.request.ReadsNoFile := by
    simp [nestedCalls, Request.ReadsNoFile]
  exact ⟨hs, hcalls, onlyValid_after hs hcalls⟩

end Service

end Loyalty
