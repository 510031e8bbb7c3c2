import Loyalty.Condition.Path
import Loyalty.Proofs.Text.Digits
import Loyalty.Proofs.Text.Segments
import Loyalty.Proofs.Value.Parts
import Loyalty.Proofs.Value.Spelling
import Mathlib.Logic.Relation

/-!
# Walks along paths

A walk goes from spot to spot: what is left of the path, and the value that it has come to. A
step takes the next segment, as a key of an object or as an index within the bounds of an
array. Where an object has no such key the walk goes on in the default. It ends with the value
at the end of the path, or with the default where it is barred; it comes to nothing only at an
array, with a segment of digits that spells no index.
-/

namespace Loyalty

/-- A segment that spells an index: decimal digits, of any script, and no more of them than
are read. -/
structure SpellsIndex (segment : List Char) (index : Nat) : Prop where
  nonempty : segment ≠ []
  digits : ∀ c ∈ segment, (decimalDigit? c).isSome = true
  short : segment.length ≤ Json.digitLimit
  value : ofDigits (segment.filterMap decimalDigit?) = index

/-- A segment of digits only that spells no index: one of them has no decimal place, or there
are more of them than are read. -/
structure IsFalseIndex (segment : List Char) : Prop where
  nonempty : segment ≠ []
  digits : ∀ c ∈ segment, isAnyDigit c = true
  unread : (∃ c ∈ segment, decimalDigit? c = none) ∨ Json.digitLimit < segment.length

/-- A segment can be an index if it consists of digits. -/
theorem isIndex_iff {segment : List Char} :
    isIndex segment = true ↔ segment ≠ [] ∧ ∀ c ∈ segment, isAnyDigit c = true := by
  simp [isIndex]

/-- Decimal digits are taken off a text as a whole. -/
theorem takeDigits_of_decimal {cs : List Char}
    (h : ∀ c ∈ cs, (decimalDigit? c).isSome = true) :
    takeDigits decimalDigit? cs = (cs.filterMap decimalDigit?, []) := by
  induction cs with
  | nil => rfl
  | cons c cs ih =>
    obtain ⟨hc, hcs⟩ := List.forall_mem_cons.mp h
    obtain ⟨d, hd⟩ := Option.isSome_iff_exists.mp hc
    rw [takeDigits, hd, List.filterMap_cons_some hd, ih hcs]

/-- What spells an index can be one. -/
theorem SpellsIndex.isIndex_eq {segment : List Char} {index : Nat}
    (h : SpellsIndex segment index) : isIndex segment = true := by
  refine isIndex_iff.mpr ⟨h.nonempty, fun c hc => ?_⟩
  rw [isAnyDigit, h.digits c hc, Bool.true_or]

/-- The index that a segment spells is read of it. -/
theorem SpellsIndex.readIndex_eq {segment : List Char} {index : Nat}
    (h : SpellsIndex segment index) : readIndex segment = .ok index := by
  have hlength : (segment.filterMap decimalDigit?).length = segment.length :=
    List.filterMap_length_eq_length.mpr h.digits
  rw [readIndex, takeDigits_of_decimal h.digits]
  simp only [hlength, if_neg (Nat.not_lt.mpr h.short), List.isEmpty_nil, if_true, h.value]

/-- Every index that is read is spelled by the segment. -/
theorem spellsIndex_of_readIndex {segment : List Char} {index : Nat}
    (hindex : isIndex segment = true) (h : readIndex segment = .ok index) :
    SpellsIndex segment index := by
  cases htake : takeDigits decimalDigit? segment with
  | mk ds rest =>
    simp only [readIndex, htake] at h
    split at h
    · cases h
    · rename_i hshort
      split at h
      · rename_i hrest
        cases h
        obtain ⟨digits, hsegment, hds, -⟩ := exists_of_takeDigits htake
        rw [List.isEmpty_iff.mp hrest, List.append_nil] at hsegment
        have hlength : segment.length = ds.length := by
          simpa [hsegment] using congrArg List.length hds
        refine ⟨(isIndex_iff.mp hindex).1, fun c hc => ?_, by omega, ?_⟩
        · have hmem : decimalDigit? c ∈ ds.map some := by
            rw [← hds, ← hsegment]
            exact List.mem_map_of_mem hc
          obtain ⟨d, -, hd⟩ := List.mem_map.mp hmem
          rw [← hd]
          rfl
        · have hvalues : (digits.map decimalDigit?).filterMap id = digits.filterMap decimalDigit? :=
            List.filterMap_map
          rw [hsegment, ← hvalues, hds, List.filterMap_map]
          exact congrArg ofDigits List.filterMap_some
      · cases h

/-- A false index is a segment that can be an index and is read as none. -/
theorem isFalseIndex_iff {segment : List Char} :
    IsFalseIndex segment ↔ isIndex segment = true ∧ ∃ f, readIndex segment = .error f := by
  constructor
  · rintro ⟨hnonempty, hdigits, hunread⟩
    have hindex : isIndex segment = true := isIndex_iff.mpr ⟨hnonempty, hdigits⟩
    refine ⟨hindex, ?_⟩
    cases hread : readIndex segment with
    | error f => exact ⟨f, rfl⟩
    | ok index =>
      have hspells := spellsIndex_of_readIndex hindex hread
      rcases hunread with ⟨c, hc, hnone⟩ | hlong
      · have hsome := hspells.digits c hc
        rw [hnone] at hsome
        cases hsome
      · exact absurd hspells.short (Nat.not_le.mpr hlong)
  · rintro ⟨hindex, f, hread⟩
    obtain ⟨hnonempty, hdigits⟩ := isIndex_iff.mp hindex
    refine ⟨hnonempty, hdigits, ?_⟩
    by_contra hall
    simp only [not_or, not_exists, not_and, Nat.not_lt] at hall
    have hspells : SpellsIndex segment _ :=
      ⟨hnonempty, fun c hc => Option.isSome_iff_ne_none.mpr (hall.1 c hc), hall.2, rfl⟩
    cases hspells.readIndex_eq.symm.trans hread

namespace Value

/-! ## Steps -/

/-- Where a walk is: the segments that are left of its path, and the value it has come to. -/
abbrev Spot := List (List Char) × Value

/-- A step that finds what it looks for: the field under a key of an object, or the item at an
index within the bounds of an array. -/
inductive Finds : Spot → Spot → Prop
  | field {segment : List Char} {rest : List (List Char)} {fields : Fields} {v : Value}
    (h : fields.lookup (String.ofList segment) = some v) :
    Finds (segment :: rest, .object fields) (rest, v)
  | item {segment : List Char} {rest : List (List Char)} {kind : ArrayKind} {items : List Value}
    {index : Nat} {v : Value} (hindex : SpellsIndex segment index) (h : items[index]? = some v) :
    Finds (segment :: rest, .array kind items) (rest, v)

/-- A step of a walk: it finds what it looks for, or goes on in the default, which stands in the
place of every absent field. -/
inductive Step (default : Value) : Spot → Spot → Prop
  | finds {s t : Spot} (h : Finds s t) : Step default s t
  | lost {segment : List Char} {rest : List (List Char)} {fields : Fields}
    (h : fields.lookup (String.ofList segment) = none) :
    Step default (segment :: rest, .object fields) (rest, default)

/-- A segment has nowhere to go from a value: it is neither an object nor an array, or it is an
array and the segment has another character than digits or lies behind its bounds. -/
inductive Barred (segment : List Char) : Value → Prop
  | leaf {v : Value} (h : v.IsLeaf) : Barred segment v
  | notIndex {kind : ArrayKind} {items : List Value} (h : isIndex segment = false) :
    Barred segment (.array kind items)
  | outside {kind : ArrayKind} {items : List Value} {index : Nat}
    (hindex : SpellsIndex segment index) (h : items.length ≤ index) :
    Barred segment (.array kind items)

/-- A spot from which no step finds anything. -/
inductive Stops : Spot → Prop
  /-- The path is at its end. -/
  | arrived (v : Value) : Stops ([], v)
  /-- The next segment has nowhere to go. -/
  | barred {segment : List Char} {rest : List (List Char)} {v : Value} (h : Barred segment v) :
    Stops (segment :: rest, v)
  /-- The next segment consists of digits and spells no index, where there has to be one. -/
  | misled {segment : List Char} {rest : List (List Char)} {kind : ArrayKind}
    {items : List Value} (h : IsFalseIndex segment) : Stops (segment :: rest, .array kind items)
  /-- The next segment is a key that the object does not have. -/
  | lost {segment : List Char} {rest : List (List Char)} {fields : Fields}
    (h : fields.lookup (String.ofList segment) = none) : Stops (segment :: rest, .object fields)

variable {default : Value} {s t : Spot}

/-- Every spot has a step that finds something, or stops the walk. -/
theorem finds_or_stops (s : Spot) : (∃ t, Finds s t) ∨ Stops s := by
  obtain ⟨segments, v⟩ := s
  cases segments with
  | nil => exact .inr (.arrived v)
  | cons segment rest =>
    cases v with
    | object fields =>
      cases hlookup : fields.lookup (String.ofList segment) with
      | none => exact .inr (.lost hlookup)
      | some w => exact .inl ⟨_, .field hlookup⟩
    | array kind items =>
      cases hindex : isIndex segment with
      | false => exact .inr (.barred (.notIndex hindex))
      | true =>
        cases hread : readIndex segment with
        | error f => exact .inr (.misled (isFalseIndex_iff.mpr ⟨hindex, f, hread⟩))
        | ok index =>
          have hspells := spellsIndex_of_readIndex hindex hread
          cases hitem : items[index]? with
          | none =>
            exact .inr (.barred (.outside hspells (List.getElem?_eq_none_iff.mp hitem)))
          | some w => exact .inl ⟨_, .item hspells hitem⟩
    | _ => exact .inr (.barred (.leaf trivial))

/-- Finding something uses a segment up. -/
theorem Finds.exists_segment (h : Finds s t) : ∃ segment, s.1 = segment :: t.1 := by
  cases h with
  | field => exact ⟨_, rfl⟩
  | item => exact ⟨_, rfl⟩

/-- Every step uses a segment up. -/
theorem Step.exists_segment (h : Step default s t) : ∃ segment, s.1 = segment :: t.1 := by
  cases h with
  | finds h => exact h.exists_segment
  | lost => exact ⟨_, rfl⟩

/-- From the next spot a walk comes to the same. -/
theorem Step.walk_eq (h : Step default s t) : walk default s.1 s.2 = walk default t.1 t.2 := by
  cases h with
  | finds h =>
    cases h with
    | field h => simp only [walk, h, Option.getD_some]
    | item hindex h => simp only [walk, hindex.isIndex_eq, if_true, hindex.readIndex_eq, h]
  | lost h => simp only [walk, h, Option.getD_none]

/-- A barred walk ends with the default. -/
theorem Barred.walk_eq {segment : List Char} {rest : List (List Char)} {v : Value}
    (h : Barred segment v) : walk default (segment :: rest) v = .ok default := by
  cases h with
  | leaf h =>
    cases v with
    | object | array => exact h.elim
    | _ => rfl
  | notIndex h => simp only [walk, h, Bool.false_eq_true, if_false]
  | outside hindex h =>
    simp only [walk, hindex.isIndex_eq, if_true, hindex.readIndex_eq,
      List.getElem?_eq_none_iff.mpr h]

/-- A misled walk comes to nothing. -/
theorem walk_of_isFalseIndex {segment : List Char} {rest : List (List Char)} {kind : ArrayKind}
    {items : List Value} {f : Fault} (h : IsFalseIndex segment)
    (hread : readIndex segment = .error f) :
    walk default (segment :: rest) (.array kind items) = .error f := by
  simp only [walk, (isFalseIndex_iff.mp h).1, if_true, hread]

/-! ## Runs -/

/-- The spots that a walk comes to. -/
def Comes (default : Value) : Spot → Spot → Prop := Relation.ReflTransGen (Step default)

/-- Where every spot has a step that uses a segment up, or is an end, a run of such steps comes
to an end. -/
theorem exists_run {R : Spot → Spot → Prop} {End : Spot → Prop}
    (hsegment : ∀ {s t}, R s t → ∃ segment, s.1 = segment :: t.1)
    (hnext : ∀ s, (∃ t, R s t) ∨ End s) (s : Spot) :
    ∃ t, Relation.ReflTransGen R s t ∧ End t := by
  obtain ⟨segments, v⟩ := s
  induction segments generalizing v with
  | nil =>
    rcases hnext ([], v) with ⟨t, ht⟩ | hend
    · obtain ⟨segment, h⟩ := hsegment ht
      cases h
    · exact ⟨_, .refl, hend⟩
  | cons segment rest ih =>
    rcases hnext (segment :: rest, v) with ⟨⟨rest', w⟩, ht⟩ | hend
    · obtain ⟨segment', h⟩ := hsegment ht
      cases h
      obtain ⟨t, hrun, hend⟩ := ih w
      exact ⟨t, .head ht hrun, hend⟩
    · exact ⟨_, .refl, hend⟩

/-- From every spot that a walk comes to it comes to the same. -/
theorem Comes.walk_eq (h : Comes default s t) : walk default s.1 s.2 = walk default t.1 t.2 := by
  induction h with
  | refl => rfl
  | tail _ hstep ih => rw [ih, hstep.walk_eq]

/-- What is left of a path was in it before. -/
theorem Comes.subset (h : Comes default s t) : t.1 ⊆ s.1 := by
  induction h with
  | refl => exact List.Subset.refl _
  | tail _ hstep ih =>
    obtain ⟨segment, hsegment⟩ := hstep.exists_segment
    rw [hsegment] at ih
    exact List.Subset.trans (List.subset_cons_self _ _) ih

/-- The ends of a walk: the end of its path, or a spot where it is barred or misled. -/
inductive Ends : Spot → Prop
  | arrived (v : Value) : Ends ([], v)
  | barred {segment : List Char} {rest : List (List Char)} {v : Value} (h : Barred segment v) :
    Ends (segment :: rest, v)
  | misled {segment : List Char} {rest : List (List Char)} {kind : ArrayKind}
    {items : List Value} (h : IsFalseIndex segment) : Ends (segment :: rest, .array kind items)

/-- A walk comes to an end. -/
theorem exists_comes_ends (default : Value) (s : Spot) : ∃ t, Comes default s t ∧ Ends t := by
  refine exists_run Step.exists_segment (fun s => ?_) s
  rcases finds_or_stops s with ⟨t, ht⟩ | hstops
  · exact .inl ⟨t, .finds ht⟩
  · cases hstops with
    | arrived v => exact .inr (.arrived v)
    | barred h => exact .inr (.barred h)
    | misled h => exact .inr (.misled h)
    | lost h => exact .inl ⟨_, .lost h⟩

/-! ## Paths -/

variable {path record : Value}

/-- The segments of a path as it is spelled. -/
def segments (path : Value) : List (List Char) := Loyalty.segments '.' path.spelling.toList

/-- A path has a first segment. -/
theorem segments_ne_nil (path : Value) : path.segments ≠ [] :=
  Loyalty.segments_ne_nil '.' path.spelling.toList

/-- A path that is given is walked if it has a text. -/
theorem resolve_of_isTruthy (h : path.isTruthy = true) (hfew : path.HasFewDigits) :
    path.resolve record default = walk default path.segments record := by
  cases record with
  | null =>
    obtain ⟨segment, rest, hsegments⟩ := List.exists_cons_of_ne_nil (segments_ne_nil path)
    simp only [resolve, h, hsegments, walk]
  | _ =>
    simp only [resolve, h, display_of_hasFewDigits hfew]
    rfl

/-- A path that is not given leads to the default. -/
theorem resolve_of_not_isTruthy (h : path.isTruthy = false) :
    path.resolve record default = .ok default := by
  simp only [resolve, h]

/-- In the place of a record null leads to the default. -/
theorem resolve_null (path default : Value) : path.resolve .null default = .ok default := by
  cases h : path.isTruthy with
  | false => exact resolve_of_not_isTruthy h
  | true => simp only [resolve, h]

/-- A path that is given and has no text, where there is a record to walk into. -/
structure LacksText (path record : Value) : Prop where
  given : path.isTruthy = true
  record : record ≠ .null
  manyDigits : ¬ path.HasFewDigits

/-- A path without a text resolves to nothing. -/
theorem LacksText.resolve_eq (h : path.LacksText record) :
    path.resolve record default = .error (.notWritable .tooManyDigits) := by
  cases record with
  | null => exact absurd rfl h.record
  | _ =>
    simp only [resolve, h.given, display_of_not_hasFewDigits h.manyDigits]
    rfl

/-- A path whose walk into a record comes to an array with a false index. The walk may have gone
on in the default. -/
def Misleads (path record default : Value) : Prop :=
  path.isTruthy = true ∧ path.HasFewDigits ∧ ∃ segment rest kind items,
    Comes default (path.segments, record) (segment :: rest, .array kind items) ∧
      IsFalseIndex segment

/-- A path that misleads resolves to nothing. -/
theorem Misleads.exists_error (h : path.Misleads record default) :
    ∃ f, path.resolve record default = .error f := by
  obtain ⟨htruthy, hfew, segment, rest, kind, items, hcomes, hfalse⟩ := h
  obtain ⟨-, f, hread⟩ := isFalseIndex_iff.mp hfalse
  refine ⟨f, ?_⟩
  rw [resolve_of_isTruthy htruthy hfew, ← walk_of_isFalseIndex hfalse hread]
  exact hcomes.walk_eq

/-- What a path comes to in a record: the value at its end, the default, what is wrong with a
false index, or what is wrong with a path that has no text. -/
theorem resolve_cases (path record default : Value) :
    (∃ v, Comes default (path.segments, record) ([], v) ∧
        path.resolve record default = .ok v) ∨
      path.resolve record default = .ok default ∨
      (path.Misleads record default ∧ ∃ segment ∈ path.segments, ∃ f,
        IsFalseIndex segment ∧ readIndex segment = .error f ∧
          path.resolve record default = .error f) ∨
      path.LacksText record := by
  by_cases hnull : record = .null
  · exact .inr (.inl (hnull ▸ resolve_null path default))
  cases htruthy : path.isTruthy with
  | false => exact .inr (.inl (resolve_of_not_isTruthy htruthy))
  | true =>
    by_cases hfew : path.HasFewDigits
    · obtain ⟨t, hcomes, hends⟩ := exists_comes_ends default (path.segments, record)
      have hresolve : path.resolve record default = walk default t.1 t.2 :=
        (resolve_of_isTruthy htruthy hfew).trans hcomes.walk_eq
      cases hends with
      | arrived v => exact .inl ⟨v, hcomes, hresolve⟩
      | barred h => exact .inr (.inl (hresolve.trans h.walk_eq))
      | misled h =>
        obtain ⟨-, f, hread⟩ := isFalseIndex_iff.mp h
        exact .inr (.inr (.inl ⟨⟨htruthy, hfew, _, _, _, _, hcomes, h⟩, _,
          hcomes.subset List.mem_cons_self, f, h, hread,
          hresolve.trans (walk_of_isFalseIndex h hread)⟩))
    · exact .inr (.inr (.inr ⟨htruthy, hnull, hfew⟩))

/-- A path resolves to a value unless it has no text or misleads. All indices that are taken on
its way are spelled by decimal digits and lie within the bounds of their arrays, and the walk
ends at the end of the path or with the default. Only a path with a false index in it can
mislead, and only one with an integer of too many digits in it has no text. -/
theorem exists_resolve_iff_not_misleads (path record default : Value) :
    ((∃ v, path.resolve record default = .ok v) ↔
        ¬ path.LacksText record ∧ ¬ path.Misleads record default) ∧
      (∀ v, path.resolve record default = .ok v →
        Comes default (path.segments, record) ([], v) ∨ v = default) ∧
      ∀ f, path.resolve record default = .error f →
        (path.LacksText record ∧ f = .notWritable .tooManyDigits) ∨
          ∃ segment ∈ path.segments, IsFalseIndex segment ∧ readIndex segment = .error f := by
  have hnot : ∀ {v}, path.resolve record default = .ok v →
      ¬ path.LacksText record ∧ ¬ path.Misleads record default := by
    refine fun {v} hv => ⟨fun hlacks => ?_, fun hmisleads => ?_⟩
    · cases hv.symm.trans hlacks.resolve_eq
    · obtain ⟨f, hf⟩ := hmisleads.exists_error
      cases hv.symm.trans hf
  rcases resolve_cases path record default with
    ⟨v, hcomes, hv⟩ | hdefault | ⟨hmisleads, segment, hmem, f, hfalse, hread, hf⟩ | hlacks
  · refine ⟨iff_of_true ⟨v, hv⟩ (hnot hv), fun w hw => ?_, fun f hf => ?_⟩
    · cases hv.symm.trans hw
      exact .inl hcomes
    · cases hv.symm.trans hf
  · refine ⟨iff_of_true ⟨default, hdefault⟩ (hnot hdefault), fun w hw => ?_, fun f hf => ?_⟩
    · exact .inr (Except.ok.inj (hw.symm.trans hdefault))
    · cases hdefault.symm.trans hf
  · refine ⟨iff_of_false ?_ fun h => h.2 hmisleads, fun v hv => ?_, fun f' hf' => ?_⟩
    · rintro ⟨v, hv⟩
      exact (hnot hv).2 hmisleads
    · exact absurd hmisleads (hnot hv).2
    · cases hf.symm.trans hf'
      exact .inr ⟨segment, hmem, hfalse, hread⟩
  · refine ⟨iff_of_false ?_ fun h => h.1 hlacks, fun v hv => ?_, fun f hf => ?_⟩
    · rintro ⟨v, hv⟩
      exact (hnot hv).1 hlacks
    · exact absurd hlacks (hnot hv).1
    · exact .inl ⟨hlacks, Except.error.inj (hf.symm.trans hlacks.resolve_eq)⟩

/-- A superscript two in the place of an index is no missing field. -/
theorem not_exists_resolve_superscript :
    (Value.text "segments.²").resolve (.object [("segments", .list [.int 1])]) .null =
      .error (.badIndex ['²']) := by
  rfl

end Value

end Loyalty
