import Loyalty.Proofs.Condition.Defaults

/-!
# Joined paths

A path of two parts with a point between them is walked in two legs: the joined path leads from a
record to where its second part leads from what the first one finds. What is missing on the first
leg is missing on the whole way, since the mark of an absent field has nothing to look into.
-/

namespace Loyalty.Value

variable {default : Value} {s t : Spot}

/-- A step is the same when more segments follow. -/
theorem Step.append (h : Step default s t) (later : List (List Char)) :
    Step default (s.1 ++ later, s.2) (t.1 ++ later, t.2) := by
  cases h with
  | finds h =>
    cases h with
    | field h => exact .finds (.field h)
    | item hindex h => exact .finds (.item hindex h)
  | lost h => exact .lost h

/-- A walk comes to the same spots when more segments follow. -/
theorem Comes.append (h : Comes default s t) (later : List (List Char)) :
    Comes default (s.1 ++ later, s.2) (t.1 ++ later, t.2) := by
  induction h with
  | refl => exact .refl
  | tail _ hstep ih => exact ih.tail (hstep.append later)

/-- A walk along some segments and others behind them goes on where the first ones lead. A
default that is a leaf is not taken apart, so it makes no difference where the walk gives up. -/
theorem IsLeaf.walk_append (hleaf : default.IsLeaf) (first later : List (List Char)) (v : Value) :
    walk default (first ++ later) v = walk default first v >>= walk default later := by
  obtain ⟨t, hcomes, hends⟩ := exists_comes_ends default (first, v)
  have hfirst : walk default first v = walk default t.1 t.2 := hcomes.walk_eq
  have hboth : walk default (first ++ later) v = walk default (t.1 ++ later) t.2 :=
    (hcomes.append later).walk_eq
  rw [hfirst, hboth]
  cases hends with
  | arrived w => rfl
  | barred h =>
    rw [h.walk_eq, List.cons_append, h.walk_eq]
    exact (hleaf.walk_eq later).symm
  | misled h =>
    obtain ⟨-, f, hread⟩ := isFalseIndex_iff.mp h
    rw [walk_of_isFalseIndex h hread, List.cons_append, walk_of_isFalseIndex h hread]
    rfl

/-- A text that is not empty is a path that is walked. -/
theorem resolve_text {s : String} (hs : s ≠ "") (record default : Value) :
    (text s).resolve record default = walk default (text s).segments record :=
  resolve_of_isTruthy (bne_iff_ne.mpr hs) (hasFewDigits_text s)

/-- The segments of a joined path are those of the one path and those of the other. -/
theorem segments_joined (p q : String) :
    (text (p ++ "." ++ q)).segments = (text p).segments ++ (text q).segments := by
  have hlist : (p ++ "." ++ q).toList = p.toList ++ '.' :: q.toList := by simp
  rw [segments, spelling, hlist, segments_append_cons]
  rfl

/-- A joined path with a point between its parts leads where the second part leads from what the
first one finds, in objects and arrays alike. -/
theorem resolve_joined_eq_bind {p q : String} (hp : p ≠ "") (hq : q ≠ "") (record : Value) :
    (text (p ++ "." ++ q)).resolve record .missing =
      (text p).resolve record .missing >>= fun v => (text q).resolve v .missing := by
  have hjoined : p ++ "." ++ q ≠ "" := by simp [hp]
  have hmark : IsLeaf .missing := trivial
  simp only [resolve_text hp, resolve_text hq, resolve_text hjoined, segments_joined,
    hmark.walk_append]

/-- A joined path misses a field if its first part does, and otherwise leads where its second part
leads from what the first one finds. It has no value where the first part has none. -/
theorem resolve_joined {p q : String} (hp : p ≠ "") (hq : q ≠ "") (record : Value) :
    ((text p).resolve record .missing = .ok .missing →
        (text (p ++ "." ++ q)).resolve record .missing = .ok .missing) ∧
      (∀ v, (text p).resolve record .missing = .ok v →
        (text (p ++ "." ++ q)).resolve record .missing = (text q).resolve v .missing) ∧
      ∀ f, (text p).resolve record .missing = .error f →
        (text (p ++ "." ++ q)).resolve record .missing = .error f := by
  have hjoined := resolve_joined_eq_bind hp hq record
  refine ⟨fun hmissing => ?_, fun v hv => ?_, fun f hf => ?_⟩
  · have hmark := IsLeaf.walk_eq (show IsLeaf .missing from trivial) (text q).segments
    rw [hjoined, hmissing]
    exact (resolve_text hq _ _).trans hmark
  · rw [hjoined, hv]
    rfl
  · rw [hjoined, hf]
    rfl

/-- The tiers of a customer. -/
def heldTiers : Value := .list [.object [("name", .text "gold")], .null]

/-- A record of a customer with tiers. -/
def tieredRecord : Value := .object [("customer", .object [("tiers", heldTiers)])]

/-- The name of the first tier is found from the tiers. -/
theorem resolve_joined_tiers :
    "customer.tiers" ≠ "" ∧ "0.name" ≠ "" ∧
      (text "customer.tiers").resolve tieredRecord .missing = .ok heldTiers ∧
      (text "0.name").resolve heldTiers .missing = .ok (.text "gold") ∧
      (text ("customer.tiers" ++ "." ++ "0.name")).resolve tieredRecord .missing =
        (text "0.name").resolve heldTiers .missing := by
  have htiers : (text "customer.tiers").resolve tieredRecord .missing = .ok heldTiers := rfl
  exact ⟨by decide, by decide, htiers, rfl,
    (resolve_joined (by decide) (by decide) tieredRecord).2.1 _ htiers⟩

end Loyalty.Value
