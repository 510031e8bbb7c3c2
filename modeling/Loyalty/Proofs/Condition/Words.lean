import Loyalty.Condition.Validity
import Loyalty.Proofs.Action
import Loyalty.Proofs.Value.Spelling

/-!
# Words for the faults of conditions

Each fault of a condition can be said in words, but for an operator that is unknown
and has no text. The words are never empty.
-/

namespace Loyalty

/-- The fault of a node that cannot be said in words: its operator is unknown and has an
integer of too many digits in it. -/
inductive NodeFault.LacksWords : NodeFault → Prop
  | unknownOperator {operator : Value} (h : ¬ operator.HasFewDigits) :
    LacksWords (.unknownOperator operator)

namespace NodeFault

variable {fault : NodeFault} {f : Fault}

/-- Nothing but the digits of an unknown operator keeps a fault from being said. -/
theorem message_eq_error_iff :
    fault.message = .error f ↔ fault.LacksWords ∧ f = .notWritable .tooManyDigits := by
  cases fault with
  | unknownOperator operator =>
    rw [message, map_eq_error, Value.display_eq_error_iff]
    exact and_congr_left fun _ => ⟨.unknownOperator, fun ⟨h⟩ => h⟩
  | _ => exact iff_of_false nofun nofun

end NodeFault

namespace ConditionFault

variable {f : ConditionFault} {fault : Fault}

/-- Nothing but the digits of an unknown operator keeps a fault from being said. -/
theorem message_eq_error_iff :
    f.message = .error fault ↔ f.fault.LacksWords ∧ fault = .notWritable .tooManyDigits := by
  rw [message, map_eq_error, NodeFault.message_eq_error_iff]

end ConditionFault

namespace Condition

variable {c : Condition} {f : Fault}

/-- The check of a condition has no words exactly for a fault that lacks them. -/
theorem check_eq_error_iff :
    c.check = .error f ↔
      ∃ fault, c.fault? = some fault ∧ fault.fault.LacksWords ∧
        f = .notWritable .tooManyDigits := by
  rw [check]
  cases c.fault? with
  | none => simp
  | some fault => simp [map_eq_error, ConditionFault.message_eq_error_iff]

/-- The check of a condition finds nothing exactly if there is no fault. -/
theorem check_eq_none_iff : c.check = .ok none ↔ c.fault? = none := by
  rw [check]
  cases c.fault? with
  | none => simp
  | some fault => simp [map_eq_ok]

/-- The check of a condition says what its first fault is. -/
theorem check_eq_some_iff {words : String} :
    c.check = .ok (some words) ↔ ∃ fault, c.fault? = some fault ∧ fault.message = .ok words := by
  rw [check]
  cases c.fault? with
  | none => simp
  | some fault => simp [map_eq_ok]

end Condition

end Loyalty
