import Loyalty.Proofs.Value.Tree

/-!
# Parts of values

The parts of a value are the value itself and the parts of its items and fields. A leaf, which
is neither an array nor an object, is the only part of itself.
-/

namespace Loyalty.Value

/-- A value that stands somewhere in another one, or is it. -/
inductive IsPart (part : Value) : Value → Prop
  /-- A value is a part of itself. -/
  | self : IsPart part part
  /-- The parts of an item are parts of the array. -/
  | item {kind : ArrayKind} {items : List Value} {v : Value} (hmem : v ∈ items)
    (h : IsPart part v) : IsPart part (.array kind items)
  /-- The parts of a field are parts of the object. -/
  | field {fields : Fields} {p : String × Value} (hmem : p ∈ fields) (h : IsPart part p.2) :
    IsPart part (.object fields)

/-- A value without items and fields. -/
def IsLeaf : Value → Prop
  | .array .. | .object _ => False
  | _ => True

/-- The parts of a part are parts. -/
theorem IsPart.trans {part v w : Value} (h : IsPart part v) (hv : IsPart v w) :
    IsPart part w := by
  induction hv with
  | self => exact h
  | item hmem _ ih => exact .item hmem ih
  | field hmem _ ih => exact .field hmem ih

/-- A leaf is the only part of itself. -/
theorem IsLeaf.isPart_iff {part v : Value} (hleaf : v.IsLeaf) : IsPart part v ↔ part = v := by
  constructor
  · intro h
    cases h with
    | self => rfl
    | item | field => exact hleaf.elim
  · rintro rfl
    exact .self

/-- An array has the parts of its items, and itself. -/
theorem isPart_array {part : Value} {kind : ArrayKind} {items : List Value} :
    IsPart part (.array kind items) ↔
      part = .array kind items ∨ ∃ v ∈ items, IsPart part v := by
  constructor
  · intro h
    cases h with
    | self => exact .inl rfl
    | item hmem h => exact .inr ⟨_, hmem, h⟩
  · rintro (rfl | ⟨v, hmem, h⟩)
    · exact .self
    · exact .item hmem h

/-- An object has the parts of its fields, and itself. -/
theorem isPart_object {part : Value} {fields : Fields} :
    IsPart part (.object fields) ↔
      part = .object fields ∨ ∃ p ∈ fields, IsPart part p.2 := by
  constructor
  · intro h
    cases h with
    | self => exact .inl rfl
    | field hmem h => exact .inr ⟨_, hmem, h⟩
  · rintro (rfl | ⟨p, hmem, h⟩)
    · exact .self
    · exact .field hmem h

end Loyalty.Value
