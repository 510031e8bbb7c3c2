import Loyalty.Proofs.Condition.Walks
import Loyalty.Proofs.Value.Parts

/-!
# Defaults of paths

What a path leads to in a record is found whatever the default is. Where nothing is found the
default is given back as it is, unless the first thing missing is a key of an object: then the
rest of the path is walked in the default, and where that leads is given back. An object or an
array in the place of the default can so be taken apart.
-/

namespace Loyalty.Value

variable {path record default v w : Value} {s t : Spot}

/-- A path on which the first thing missing from a record is a key of an object, and what is left
of the path behind that key. -/
def Loses (path record : Value) (rest : List (List Char)) : Prop :=
  path.isTruthy = true ∧ path.HasFewDigits ∧ ∃ segment fields,
    Relation.ReflTransGen Finds (path.segments, record) (segment :: rest, .object fields) ∧
      fields.lookup (String.ofList segment) = none

/-- A walk that finds everything so far comes to the same from there, whatever the default is. -/
theorem walk_eq_of_finds (h : Relation.ReflTransGen Finds s t) (default : Value) :
    walk default s.1 s.2 = walk default t.1 t.2 :=
  Comes.walk_eq (h.lift id fun _ _ => Step.finds)

/-- What is found in a value is a part of it. -/
theorem isPart_of_finds (h : Relation.ReflTransGen Finds s t) : IsPart t.2 s.2 := by
  induction h with
  | refl => exact .self
  | tail _ hfinds ih =>
    refine IsPart.trans ?_ ih
    cases hfinds with
    | field h => exact .field (Fields.mem_of_lookup h) .self
    | item _ h => exact .item (List.mem_of_getElem? h) .self

/-- Where a key is missing the rest of the path is walked in the default. -/
theorem Loses.resolve_eq {rest : List (List Char)} (h : path.Loses record rest)
    (default : Value) : path.resolve record default = walk default rest default := by
  obtain ⟨htruthy, hfew, segment, fields, hfinds, hlookup⟩ := h
  rw [resolve_of_isTruthy htruthy hfew]
  exact (walk_eq_of_finds hfinds default).trans (Step.lost hlookup).walk_eq

/-- A default that is a leaf is not taken apart. -/
theorem IsLeaf.walk_eq (hleaf : default.IsLeaf) (rest : List (List Char)) :
    walk default rest default = .ok default := by
  cases rest with
  | nil => rfl
  | cons segment rest => exact (Barred.leaf hleaf).walk_eq

/-- What a path comes to with any default: what it finds, the default, what is wrong with it or
with a false index, or where the rest of the path leads in the default. -/
theorem resolve_by_default (path record : Value) :
    (∃ v, IsPart v record ∧ ∀ default, path.resolve record default = .ok v) ∨
      (∀ default, path.resolve record default = .ok default) ∨
      (∃ f, ∀ default, path.resolve record default = .error f) ∨
      ∃ rest, path.Loses record rest := by
  by_cases hlacks : path.LacksText record
  · exact .inr (.inr (.inl ⟨_, fun default => hlacks.resolve_eq⟩))
  by_cases hnull : record = .null
  · exact .inr (.inl fun default => hnull ▸ resolve_null path default)
  cases htruthy : path.isTruthy with
  | false => exact .inr (.inl fun default => resolve_of_not_isTruthy htruthy)
  | true =>
    have hfew : path.HasFewDigits := by_contra fun hmany => hlacks ⟨htruthy, hnull, hmany⟩
    obtain ⟨t, hfinds, hstops⟩ :=
      exists_run Finds.exists_segment finds_or_stops (path.segments, record)
    have hresolve : ∀ default, path.resolve record default = walk default t.1 t.2 :=
      fun default => (resolve_of_isTruthy htruthy hfew).trans (walk_eq_of_finds hfinds default)
    cases hstops with
    | arrived v => exact .inl ⟨v, isPart_of_finds hfinds, hresolve⟩
    | barred h => exact .inr (.inl fun default => (hresolve default).trans h.walk_eq)
    | misled h =>
      obtain ⟨-, f, hread⟩ := isFalseIndex_iff.mp h
      exact .inr (.inr (.inl ⟨f, fun default =>
        (hresolve default).trans (walk_of_isFalseIndex h hread)⟩))
    | lost h => exact .inr (.inr (.inr ⟨_, htruthy, hfew, _, _, hfinds, h⟩))

/-- Defaults that are leaves are not taken apart: a path finds the same with all of them, or it
comes back with each as it is, or with what is wrong with it or a false index. -/
theorem resolve_by_leaf (path record : Value) :
    (∃ v, IsPart v record ∧ ∀ default, path.resolve record default = .ok v) ∨
      (∀ default, IsLeaf default → path.resolve record default = .ok default) ∨
      ∃ f, ∀ default, path.resolve record default = .error f := by
  rcases resolve_by_default path record with hfound | hdefault | hfault | ⟨rest, hloses⟩
  · exact .inl hfound
  · exact .inr (.inl fun default _ => hdefault default)
  · exact .inr (.inr hfault)
  · exact .inr (.inl fun default hleaf => (hloses.resolve_eq default).trans (hleaf.walk_eq rest))

/-- What is found by a path does not depend on the default. Where the mark of an absent field
comes back in the place of a default, another default comes back as it is exactly if the rest of
the path behind a missing key, if there is one, leads back to that default; in any case what comes
back is where that rest leads in it. So no default but an object or an array is ever changed. -/
theorem resolve_default_iff (hrecord : ¬ IsPart .missing record)
    (hv : path.resolve record .missing = .ok v) (hw : path.resolve record default = .ok w) :
    (v ≠ .missing → w = v) ∧
      (v = .missing → (w = default ↔
        ∀ rest, path.Loses record rest → walk default rest default = .ok default)) ∧
      (∀ rest, path.Loses record rest → walk default rest default = .ok w) ∧
      (IsLeaf default → v = .missing → w = default) := by
  have hrest : ∀ rest, path.Loses record rest → walk default rest default = .ok w :=
    fun rest h => (h.resolve_eq default).symm.trans hw
  have hcases : w = v ∧ v ≠ .missing ∨ v = .missing ∧
      ((∀ rest, path.Loses record rest → walk default rest default = .ok default) →
        w = default) := by
    rcases resolve_by_default path record with ⟨u, hpart, hu⟩ | hdefault | ⟨f, hf⟩ | ⟨rest, h⟩
    · cases hv.symm.trans (hu .missing)
      refine .inl ⟨Except.ok.inj (hw.symm.trans (hu default)), ?_⟩
      rintro rfl
      exact hrecord hpart
    · exact .inr ⟨Except.ok.inj (hv.symm.trans (hdefault .missing)),
        fun _ => Except.ok.inj (hw.symm.trans (hdefault default))⟩
    · cases hv.symm.trans (hf .missing)
    · -- The mark is a leaf, so the rest of the path leads back to it.
      have hmark := IsLeaf.walk_eq (show IsLeaf .missing from trivial) rest
      refine .inr ⟨Except.ok.inj (hv.symm.trans ((h.resolve_eq .missing).trans hmark)), ?_⟩
      exact fun hsame => Except.ok.inj ((hrest rest h).symm.trans (hsame rest h))
  rcases hcases with ⟨rfl, hfound⟩ | ⟨rfl, huntouched⟩
  · exact ⟨fun _ => rfl, fun h => absurd h hfound, hrest, fun _ h => absurd h hfound⟩
  · refine ⟨fun h => absurd rfl h, fun _ => ⟨?_, huntouched⟩, hrest,
      fun hleaf _ => huntouched fun rest _ => hleaf.walk_eq rest⟩
    rintro rfl rest h
    exact hrest rest h

/-- A record of a customer without a tier. -/
def tierless : Value := .object [("customer", .object [])]

/-- The tier to take where there is none. -/
def noTier : Value := .object [("name", .text "none")]

/-- Behind the key that a customer does not have, the name is looked up in the default. -/
theorem resolve_default_iff_tierName :
    ¬ IsPart .missing tierless ∧
      (text "customer.tier.name").resolve tierless .missing = .ok .missing ∧
      (text "customer.tier.name").resolve tierless noTier = .ok (.text "none") ∧
      (text "customer.tier.name").Loses tierless ["name".toList] ∧
      walk noTier ["name".toList] noTier = .ok (.text "none") := by
  have hrecord : ¬ IsPart .missing tierless := by
    simp only [tierless, isPart_object, List.mem_singleton, exists_eq_left,
      List.not_mem_nil, false_and, exists_false, reduceCtorEq, or_self, not_false_eq_true]
  have hmissing : (text "customer.tier.name").resolve tierless .missing = .ok .missing := rfl
  have hname : (text "customer.tier.name").resolve tierless noTier = .ok (.text "none") := rfl
  have hloses : (text "customer.tier.name").Loses tierless ["name".toList] :=
    ⟨rfl, hasFewDigits_text _, "tier".toList, [], .single (.field rfl), rfl⟩
  exact ⟨hrecord, hmissing, hname, hloses,
    (resolve_default_iff hrecord hmissing hname).2.2.1 _ hloses⟩

/-- An object that is given as the default is taken apart where a key is missing in front of the
end of a path. -/
theorem not_untouched_objectDefault :
    (text "a.b").resolve (.object []) .missing = .ok .missing ∧
      (text "a.b").resolve (.object []) (.object [("b", .int 1)]) = .ok (.int 1) :=
  ⟨rfl, rfl⟩

end Loyalty.Value
