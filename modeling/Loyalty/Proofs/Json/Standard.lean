import Loyalty.Service.Response
import Loyalty.Proofs.Json.Documents
import Loyalty.Proofs.Value.Parts

/-!
# Standard JSON

Standard JSON has no text for infinities and not-a-numbers. A document in which there is none and
whose integers have few digits is sent as it is; any other one cannot be sent.
-/

namespace Loyalty

namespace Value

variable {v : Value} {f : Fault}

/-- Somewhere in a value there is an infinity or not-a-number. -/
def HasNonFinite (v : Value) : Prop := ∃ x : Double, x.isFinite = false ∧ IsPart (.double x) v

/-- A leaf is an infinity or not-a-number itself or has none in it. -/
theorem IsLeaf.hasNonFinite_iff (hleaf : v.IsLeaf) :
    v.HasNonFinite ↔ ∃ x : Double, x.isFinite = false ∧ v = .double x :=
  exists_congr fun _ => and_congr_right fun _ => hleaf.isPart_iff.trans eq_comm

/-- A leaf that is no double has neither in it. -/
theorem IsLeaf.not_hasNonFinite (hleaf : v.IsLeaf) (hdouble : ∀ x, v ≠ .double x) :
    ¬ v.HasNonFinite := by
  rw [hleaf.hasNonFinite_iff]
  rintro ⟨x, -, hx⟩
  exact hdouble x hx

/-- The infinities and not-a-numbers of an array are those of its items. -/
theorem hasNonFinite_array {kind : ArrayKind} {items : List Value} :
    (Value.array kind items).HasNonFinite ↔ ∃ v ∈ items, v.HasNonFinite := by
  simp only [HasNonFinite, isPart_array, double, reduceCtorEq, false_or]
  grind

/-- The infinities and not-a-numbers of an object are those of its fields. -/
theorem hasNonFinite_object {fields : Fields} :
    (Value.object fields).HasNonFinite ↔ ∃ p ∈ fields, p.2.HasNonFinite := by
  simp only [HasNonFinite, isPart_object, double, reduceCtorEq, false_or]
  grind

/-- The fault of some items is that of the first item with one. -/
theorem standardJsonFaultOfItems?_eq (items : List Value) :
    standardJsonFaultOfItems? items = items.findSome? standardJsonFault? := by
  induction items with
  | nil => rfl
  | cons v vs ih =>
    rw [standardJsonFaultOfItems?, List.findSome?_cons, ih]
    cases standardJsonFault? v <;> rfl

/-- The fault of some fields is that of the first field with one. -/
theorem standardJsonFaultOfFields?_eq (fields : Fields) :
    standardJsonFaultOfFields? fields = fields.findSome? fun p => standardJsonFault? p.2 := by
  induction fields with
  | nil => rfl
  | cons p fields ih =>
    rw [standardJsonFaultOfFields?, List.findSome?_cons, ih]
    cases standardJsonFault? p.2 <;> rfl

/-- A document has a text in standard JSON if its integers have few digits and its doubles are
finite, and only then. -/
theorem IsDocument.standardJsonFault?_eq_none_iff (h : v.IsDocument) :
    v.standardJsonFault? = none ↔ v.HasFewDigits ∧ ¬ v.HasNonFinite := by
  induction h with
  | null | bool | text =>
    exact iff_of_true rfl ⟨by simp [HasFewDigits, integers],
      IsLeaf.not_hasNonFinite trivial (by simp [double])⟩
  | number n =>
    cases n with
    | int n =>
      have hnone : ¬ (Value.number (.int n)).HasNonFinite :=
        IsLeaf.not_hasNonFinite trivial (by simp [double])
      simp [standardJsonFault?, hasFewDigits_number, hnone]
    | double x =>
      have hfew : (Value.number (.double x)).HasFewDigits := by simp [HasFewDigits, integers]
      have hleaf : (Value.number (.double x)).IsLeaf := trivial
      simp [standardJsonFault?, hleaf.hasNonFinite_iff, double, hfew]
  | list _ ih =>
    rw [standardJsonFault?, standardJsonFaultOfItems?_eq, List.findSome?_eq_none_iff,
      hasFewDigits_array, hasNonFinite_array]
    grind
  | object _ _ ih =>
    rw [standardJsonFault?, standardJsonFaultOfFields?_eq, List.findSome?_eq_none_iff,
      hasFewDigits_object, hasNonFinite_object]
    grind

/-- A document with no text in standard JSON has an infinity or not-a-number in it or an integer
with too many digits. -/
theorem IsDocument.standardJsonFault?_eq_some (h : v.IsDocument)
    (hfault : v.standardJsonFault? = some f) :
    f = .notFinite ∨ f = .notWritable .tooManyDigits := by
  induction h with
  | null | bool | text => cases hfault
  | number n =>
    cases n with
    | int n =>
      simp only [standardJsonFault?, Option.ite_none_right_eq_some, Option.some.injEq] at hfault
      exact .inr hfault.2.symm
    | double x =>
      simp only [standardJsonFault?, Option.ite_none_left_eq_some, Option.some.injEq] at hfault
      exact .inl hfault.2.symm
  | list _ ih =>
    rw [standardJsonFault?, standardJsonFaultOfItems?_eq] at hfault
    obtain ⟨v, hv, hfault⟩ := List.exists_of_findSome?_eq_some hfault
    exact ih v hv hfault
  | object _ _ ih =>
    rw [standardJsonFault?, standardJsonFaultOfFields?_eq] at hfault
    obtain ⟨p, hp, hfault⟩ := List.exists_of_findSome?_eq_some hfault
    exact ih p hp hfault

end Value

/-- A refusal whose body has no fault in standard JSON is sent with that body. -/
theorem Response.refusal_eq_ok {status : Nat} {v : Value} (h : v.IsDocument)
    (hfault : v.standardJsonFault? = none) : Response.refusal status v = .ok ⟨status, v⟩ := by
  rw [Response.refusal, hfault, h.reread_eq]

/-- A refusal is not sent if there is a fault in its body. -/
theorem Response.refusal_eq_error {status : Nat} {v : Value} {f : Fault}
    (hfault : v.standardJsonFault? = some f) : Response.refusal status v = .error f := by
  rw [Response.refusal, hfault]

/-- A refusal is sent if there is no fault in its body, and only then. -/
theorem Response.exists_refusal_eq_ok {status : Nat} {v : Value} :
    (∃ response, Response.refusal status v = .ok response) ↔ v.standardJsonFault? = none := by
  rw [Response.refusal]
  cases v.standardJsonFault? with
  | none => exact iff_of_true ⟨_, rfl⟩ rfl
  | some f => simp

end Loyalty
