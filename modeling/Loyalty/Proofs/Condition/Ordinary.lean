import Loyalty.Proofs.Condition.Defaults
import Loyalty.Proofs.Condition.Formula
import Loyalty.Proofs.Condition.Nodes
import Loyalty.Proofs.Condition.Paths
import Loyalty.Proofs.Number.Values

/-!
# Conditions on ordinary data

Ordinary data are JSON documents whose integers stay below two to the power 1023 and whose
texts are no dates in the first or the last year of the calendar. All amounts and points of
time in them can be read. So the evaluation of an ordinary condition on an ordinary record can
only break off on the way to a field, and where paths are ASCII only on an index that has
more digits than are read.
-/

namespace Loyalty

namespace Moment

/-- No date begins with a character that is no digit. -/
theorem read?_of_not_digit {c : Char} (hc : asciiDigit? c = none) (cs : List Char) :
    read? (c :: cs) = none := by
  have hdate : ∀ k, readDate? ((c :: cs).take k) = none := by
    intro k
    cases k with
    | zero => rfl
    | succ k =>
      rw [List.take_succ_cons, readDate?, readDigits?, List.take_succ_cons, takeDigits, hc]
      rfl
  rw [read?, hdate]
  rfl

/-- A text denotes no date if its first character is neither blank nor a digit. -/
theorem ofText?_of_not_digit {s : String} {c : Char} {cs : List Char} (hs : s.toList = c :: cs)
    (hblank : isBlank c = false) (hc : asciiDigit? c = none) : ofText? s = none := by
  obtain ⟨trimmed, htrimmed⟩ : ∃ trimmed, strip (c :: cs) = c :: trimmed := by
    refine ⟨(cs.reverse.dropWhile isBlank).reverse, ?_⟩
    rw [strip, trimBoth, List.dropWhile_cons_of_neg (by simp [hblank]), List.reverse_cons,
      List.dropWhile_append]
    split
    · rename_i hempty
      rw [List.isEmpty_iff] at hempty
      simp [hempty, hblank]
    · simp
  -- In place of a final letter for UTC stands its offset, which begins with no digit either.
  have hoffset : ∀ {z : Char} {rest : List Char}, (c :: trimmed).reverse = z :: rest →
      read? (rest.reverse ++ ['+', '0', '0', ':', '0', '0']) = none := by
    intro z rest hrest
    rw [List.reverse_eq_iff, List.reverse_cons] at hrest
    cases hfirst : rest.reverse with
    | nil => exact read?_of_not_digit rfl _
    | cons first others =>
      rw [hfirst, List.cons_append, List.cons.injEq] at hrest
      rw [← hrest.1]
      exact read?_of_not_digit hc _
  rw [ofText?, hs, htrimmed]
  unfold expandZulu
  split
  · rename_i hrest
    exact hoffset hrest
  · rename_i hrest
    exact hoffset hrest
  · exact read?_of_not_digit hc trimmed

end Moment

namespace Value

/-- A JSON document without integers from two to the power 1023 on, and without texts of dates
in the first or the last year. -/
inductive IsOrdinary : Value → Prop where
  | null : IsOrdinary .null
  | bool (b : Bool) : IsOrdinary (.bool b)
  | int (n : Int) (h : n.natAbs < 2 ^ 1023) : IsOrdinary (.number (.int n))
  | double (x : Double) : IsOrdinary (.number (.double x))
  | text (s : String)
      (h : ∀ m, Moment.ofText? s = some m → m.date.year ≠ 1 ∧ m.date.year ≠ 9999) :
      IsOrdinary (.text s)
  | list {items : List Value} (hitems : ∀ v ∈ items, IsOrdinary v) :
      IsOrdinary (.array .list items)
  | object {fields : Fields} (hkeys : (fields.map Prod.fst).Nodup)
      (hfields : ∀ p ∈ fields, IsOrdinary p.2) : IsOrdinary (.object fields)

namespace IsOrdinary

variable {v : Value}

/-- Ordinary integers have doubles in their places. -/
theorem not_isTooLarge (h : v.IsOrdinary) : ¬ v.IsTooLarge := by
  rintro ⟨n, rfl, hn⟩
  cases h with
  | int _ hsmall =>
    obtain ⟨k, hk⟩ : ∃ k, k = 970 := ⟨_, rfl⟩
    have hlt : |(n : ℚ)| < 2 ^ 1023 := by
      rw [← Int.cast_abs, Int.abs_eq_natAbs, Int.cast_natCast]
      exact_mod_cast hsmall
    have hpow : (0 : ℚ) < 2 ^ k := by positivity
    rw [Double.ofInt?_eq_none_iff, show 1024 = 54 + k by omega, ← hk, pow_add] at hn
    rw [show 1023 = 53 + k by omega, pow_add] at hlt
    norm_num at hn hlt
    linarith

/-- Ordinary integers have few digits. -/
theorem hasFewDigits (h : v.IsOrdinary) : v.HasFewDigits := by
  induction h with
  | int n hsmall =>
    obtain ⟨k, hk⟩ : ∃ k, k = 1023 := ⟨_, rfl⟩
    rw [← hk] at hsmall
    have hpow : 2 ^ k ≤ 10 ^ k := Nat.pow_le_pow_left (by decide) k
    have hlimit : 10 ^ k ≤ 10 ^ Json.digitLimit :=
      Nat.pow_le_pow_right (by decide) (by rw [hk]; decide)
    intro m hm
    rw [List.mem_singleton.mp hm]
    exact (digitCount_le_iff (by decide)).mpr
      (Nat.lt_of_lt_of_le hsmall (Nat.le_trans hpow hlimit))
  | list _ ih => exact hasFewDigits_array.mpr ih
  | object _ _ ih => exact hasFewDigits_object.mpr ih
  | _ => exact hasFewDigits_of_integers_eq_nil rfl

/-- Ordinary texts stay in the calendar. -/
theorem not_leavesCalendar (h : v.IsOrdinary) : ¬ v.LeavesCalendar := by
  rintro ⟨m, hm, houtside⟩
  cases h with
  | text s hyear =>
    have hread : Moment.ofText? s = some m := by simpa using hm
    obtain ⟨hfirst, hlast⟩ := hyear m hread
    have hinside := Moment.utcMicros_of_year hfirst hlast
    omega
  | _ => simp at hm

/-- The fields of an ordinary object are ordinary, those that it does not have included. -/
theorem get {fields : Fields} (h : (Value.object fields).IsOrdinary) (key : String) :
    (fields.get key).IsOrdinary := by
  cases h with
  | object _ hfields => exact Fields.get_of_forall .null hfields key

/-- The parts of an ordinary value are ordinary. -/
theorem of_isPart {part : Value} (h : IsPart part v) (hv : v.IsOrdinary) : part.IsOrdinary := by
  induction h with
  | self => exact hv
  | item hmem _ ih =>
    cases hv with
    | list hitems => exact ih (hitems _ hmem)
  | field hmem _ ih =>
    cases hv with
    | object _ hfields => exact ih (hfields _ hmem)

/-- What a path leads to in an ordinary record can be read. -/
theorem readable_of_resolve {path record data : Value} (hrecord : record.IsOrdinary)
    (hdata : path.resolve record .missing = .ok data) :
    ¬ data.IsTooLarge ∧ ¬ data.LeavesCalendar ∧ data.HasFewDigits := by
  have hmissing : ¬ Value.missing.IsTooLarge ∧ ¬ Value.missing.LeavesCalendar ∧
      Value.missing.HasFewDigits :=
    ⟨by simp [IsTooLarge], by simp [LeavesCalendar], hasFewDigits_of_integers_eq_nil rfl⟩
  rcases resolve_by_leaf path record with ⟨v, hpart, hv⟩ | hdefault | ⟨f, hf⟩
  · cases hdata.symm.trans (hv .missing)
    have hordinary := of_isPart hpart hrecord
    exact ⟨hordinary.not_isTooLarge, hordinary.not_leavesCalendar, hordinary.hasFewDigits⟩
  · cases hdata.symm.trans (hdefault .missing trivial)
    exact hmissing
  · cases hdata.symm.trans (hf .missing)

/-- The parts of every simple node of an ordinary condition are ordinary. -/
theorem forallTests (h : v.IsOrdinary) :
    (Condition.ofValue v).ForallTests fun field operator value =>
      field.IsOrdinary ∧ operator.IsOrdinary ∧ value.IsOrdinary := by
  have hmalformed : ∀ raw fault, (Condition.malformed raw fault).ForallTests
      fun field operator value =>
        field.IsOrdinary ∧ operator.IsOrdinary ∧ value.IsOrdinary := by
    intro raw fault _ _ _ hnode
    cases hnode
  induction v using Condition.nodeInduction with
  | node v ih =>
    cases v with
    | object fields =>
      have hread := Condition.isRead fields
      generalize Condition.ofValue (.object fields) = read at hread ⊢
      cases hread with
      | compound hunites =>
        rw [Condition.forallTests_compound, List.forall_mem_map]
        exact fun item hitem => ih _ _ hunites item hitem (of_isPart (hunites.isPart hitem) h)
      | simple =>
        exact Condition.forallTests_simple.mpr ⟨h.get "field", h.get "operator", h.get "value"⟩
      | noConditions | neitherShape => exact hmalformed _ _
    | _ => exact hmalformed _ _

end IsOrdinary

end Value

namespace Condition

variable {marks : Identity} {record : Value}

/-- The paths of all simple nodes are ASCII. -/
def HasAsciiPaths : Condition → Prop := ForallTests fun field _ _ => IsAscii field.spelling.toList

/-- An operator reads what it finds in ordinary data. -/
theorem not_breaks_of_isOrdinary {op : Operator} {field value data : Value}
    (hvalue : value.IsOrdinary) (hrecord : record.IsOrdinary)
    (hdata : field.resolve record .missing = .ok data) : ¬ op.Breaks data value := by
  obtain ⟨hlarge, hleaves, hfew⟩ := hrecord.readable_of_resolve hdata
  cases op with
  | greater | less | greaterOrEqual | lessOrEqual =>
    exact not_or.mpr ⟨hlarge, hvalue.not_isTooLarge⟩
  | isWeekend => exact hleaves
  | dateRange =>
    rintro ⟨fields, rfl, hdate | hstart | hend⟩
    · exact hleaves hdate
    · exact (hvalue.get "start").not_leavesCalendar hstart
    · exact (hvalue.get "end").not_leavesCalendar hend
  | contains | startsWith | endsWith =>
    rintro ⟨-, -, hmany | hmany⟩
    · exact hmany hfew
    · exact hmany hvalue.hasFewDigits
  | _ => exact not_false

/-- A simple node on ordinary data breaks only where its path overruns. -/
theorem breaks_iff_overruns {field operator value : Value}
    (hnode : field.IsOrdinary ∧ operator.IsOrdinary ∧ value.IsOrdinary)
    (hrecord : record.IsOrdinary) (hpath : IsAscii field.spelling.toList) :
    (Condition.simple field operator value).Breaks record ↔
      (∃ op, Operator.ofValue? operator = some op) ∧ field.Overruns record := by
  obtain ⟨hfield, hoperator, hvalue⟩ := hnode
  rw [← Value.stumbles_iff_overruns hfield.hasFewDigits hpath]
  constructor
  · rintro (⟨hop, h⟩ | ⟨hop, hdata, h⟩ | ⟨-, h⟩)
    · exact ⟨⟨_, hop⟩, h⟩
    · exact absurd h (not_breaks_of_isOrdinary hvalue hrecord hdata)
    · exact absurd hoperator.hasFewDigits h
  · rintro ⟨⟨op, hop⟩, h⟩
    exact .path hop h

/-- The fault of a simple node on ordinary data names the digits of an index. -/
theorem indexTooLong_of_shows_fault {field operator value : Value}
    (hnode : field.IsOrdinary ∧ operator.IsOrdinary ∧ value.IsOrdinary)
    (hrecord : record.IsOrdinary) (hpath : IsAscii field.spelling.toList) {f : Fault}
    (h : (evaluateSimple marks record field operator value).Shows (.fault f)) :
    ∃ segment ∈ field.segments, Json.digitLimit < segment.length ∧
      f = .indexTooLong segment.length := by
  obtain ⟨hfield, hoperator, hvalue⟩ := hnode
  rw [evaluateSimple] at h
  cases hop : Operator.ofValue? operator with
  | none =>
    rw [hop, Value.display_of_hasFewDigits hoperator.hasFewDigits] at h
    cases h
  | some op =>
    rw [hop] at h
    cases hdata : field.resolve record .missing with
    | ok data =>
      rw [hdata] at h
      have htest : op.test marks data value = .error f := h
      exact absurd (Operator.test_eq_error_iff.mp ⟨f, htest⟩)
        (not_breaks_of_isOrdinary hvalue hrecord hdata)
    | error f' =>
      rw [hdata] at h
      cases h
      obtain ⟨segment, hmem, hindex⟩ := (Value.exists_of_resolve_eq_error hdata).resolve_left
        fun hlacks => hlacks.manyDigits hfield.hasFewDigits
      have hlong :=
        (Value.readIndex_eq_error_iff (Value.isAscii_of_mem_segments hpath hmem)).mp hindex
      exact ⟨segment, hmem, hlong.2⟩

/-- An ordinary condition comes to an answer on an ordinary record unless it visits a test
whose ASCII path overruns, in particular whenever no segment of a path is longer than an index
can be; and the length of an index is all that it can break off on. -/
theorem exists_outcome_iff_of_isOrdinary {v : Value} (hv : v.IsOrdinary)
    (hrecord : record.IsOrdinary) (hpaths : (ofValue v).HasAsciiPaths) :
    ((∃ answer, ((ofValue v).evaluate marks record).outcome = .ok answer) ↔
      ∀ field operator value op, Visits marks record (ofValue v) (.simple field operator value) →
        Operator.ofValue? operator = some op → ¬ field.Overruns record) ∧
    (((ofValue v).ForallTests fun field _ _ =>
        ∀ segment ∈ field.segments, segment.length ≤ Json.digitLimit) →
      ∃ answer, ((ofValue v).evaluate marks record).outcome = .ok answer) ∧
    ∀ f, ((ofValue v).evaluate marks record).outcome = .error f →
      ∃ digits, Json.digitLimit < digits ∧ f = .indexTooLong digits := by
  -- What is said of one simple node holds of every one that is visited.
  have hnode : ∀ {field operator value},
      Visits marks record (ofValue v) (.simple field operator value) →
        ((Condition.simple field operator value).Breaks record ↔
          (∃ op, Operator.ofValue? operator = some op) ∧ field.Overruns record) :=
    fun hvisits => breaks_iff_overruns (hv.forallTests _ _ _ hvisits.hasNode) hrecord
      (hpaths _ _ _ hvisits.hasNode)
  have hiff : (∃ answer, ((ofValue v).evaluate marks record).outcome = .ok answer) ↔
      ∀ field operator value op, Visits marks record (ofValue v) (.simple field operator value) →
        Operator.ofValue? operator = some op → ¬ field.Overruns record := by
    rw [exists_evaluate_iff]
    constructor
    · intro h field operator value op hvisits hop hoverruns
      exact h _ hvisits ((hnode hvisits).mpr ⟨⟨op, hop⟩, hoverruns⟩)
    · intro h node hvisits hbreaks
      cases node with
      | simple field operator value =>
        obtain ⟨⟨op, hop⟩, hoverruns⟩ := (hnode hvisits).mp hbreaks
        exact h field operator value op hvisits hop hoverruns
      | compound c children => cases hbreaks
      | malformed raw fault => cases hbreaks
  refine ⟨hiff, ?_, ?_⟩
  · intro hshort
    rw [hiff]
    rintro field operator value op hvisits -
      ⟨-, before, segment, after, kind, items, hsegments, -, -, hlong⟩
    have hmem : segment ∈ field.segments := by simp [hsegments]
    exact absurd (hshort _ _ _ hvisits.hasNode segment hmem) (Nat.not_le.mpr hlong)
  · intro f hf
    have hfault : ((ofValue v).evaluate marks record).Shows (.fault f) := hf
    obtain ⟨leaf, hvisits, hleaf, hshows⟩ := shows_evaluate_iff.mp hfault
    cases leaf with
    | simple field operator value =>
      obtain ⟨segment, -, hlong, hdigits⟩ := indexTooLong_of_shows_fault
        (hv.forallTests _ _ _ hvisits.hasNode) hrecord (hpaths _ _ _ hvisits.hasNode) hshows
      exact ⟨_, hlong, hdigits⟩
    | compound c children => cases hleaf
    | malformed raw fault => cases (shows_fault_leaf hleaf).mp ⟨f, hshows⟩

/-- A text of a word is ordinary. -/
private theorem isOrdinary_word {s : String} {c : Char} {cs : List Char} (hs : s.toList = c :: cs)
    (hc : isBlank c = false ∧ asciiDigit? c = none) : (Value.text s).IsOrdinary := by
  refine .text s fun m hm => ?_
  rw [Moment.ofText?_of_not_digit hs hc.1 hc.2] at hm
  cases hm

/-- Small integers are ordinary. -/
private theorem isOrdinary_int {n : Int} (h : n.natAbs < 2 ^ 20) : (Value.int n).IsOrdinary := by
  obtain ⟨k, hk⟩ : ∃ k, k = 1023 := ⟨_, rfl⟩
  refine .int n ?_
  rw [← hk]
  exact Nat.lt_of_lt_of_le h (Nat.pow_le_pow_right (by decide) (by omega))

/-- The condition for gold on weekends or by a large amount is ordinary. -/
private theorem isOrdinary_nested : nestedCondition.IsOrdinary := by
  have hgold : (Value.object [("field", .text "tier"), ("operator", .text "=="),
      ("value", .text "gold")]).IsOrdinary := by
    refine .object (by decide) ?_
    simp only [List.forall_mem_cons]
    exact ⟨isOrdinary_word rfl (by decide), isOrdinary_word rfl (by decide),
      isOrdinary_word rfl (by decide), List.forall_mem_nil _⟩
  have hweekend : (Value.object [("field", .text "booking_date"),
      ("operator", .text "IS_WEEKEND")]).IsOrdinary := by
    refine .object (by decide) ?_
    simp only [List.forall_mem_cons]
    exact ⟨isOrdinary_word rfl (by decide), isOrdinary_word rfl (by decide), List.forall_mem_nil _⟩
  have hspend : (Value.object [("field", .text "total_spend"), ("operator", .text ">"),
      ("value", .int 5000)]).IsOrdinary := by
    refine .object (by decide) ?_
    simp only [List.forall_mem_cons]
    exact ⟨isOrdinary_word rfl (by decide), isOrdinary_word rfl (by decide),
      isOrdinary_int (by decide), List.forall_mem_nil _⟩
  have hnode : ∀ {c : Connective} {children : List Value},
      (∀ v ∈ children, v.IsOrdinary) → (node c children).IsOrdinary := by
    intro c children h
    refine .object (by simp) ?_
    simp only [List.forall_mem_cons]
    refine ⟨?_, .list h, List.forall_mem_nil _⟩
    cases c with
    | all => exact isOrdinary_word rfl (by decide)
    | any => exact isOrdinary_word rfl (by decide)
  refine @hnode .all _ ?_
  simp only [List.forall_mem_cons]
  refine ⟨hgold, @hnode .any _ ?_, List.forall_mem_nil _⟩
  simp only [List.forall_mem_cons]
  exact ⟨hweekend, hspend, List.forall_mem_nil _⟩

/-- A booking on a Saturday is ordinary. -/
private theorem isOrdinary_saturday : saturdayRecord.IsOrdinary := by
  have hdate : (Value.text "2025-11-01").IsOrdinary := by
    refine .text _ fun m hm => ?_
    have hyear : (Moment.ofText? "2025-11-01").map (fun m => m.date.year) = some 2025 := by
      decide +kernel
    rw [hm, Option.map_some, Option.some.injEq] at hyear
    omega
  refine .object (by decide) ?_
  simp only [List.forall_mem_cons]
  exact ⟨isOrdinary_word rfl (by decide), isOrdinary_int (by decide), hdate, List.forall_mem_nil _⟩

/-- The condition for gold on weekends or by a large amount comes to an answer on a Saturday. -/
theorem exists_outcome_iff_of_isOrdinary_nested :
    nestedCondition.IsOrdinary ∧ saturdayRecord.IsOrdinary ∧
      (ofValue nestedCondition).HasAsciiPaths ∧
      ((ofValue nestedCondition).ForallTests fun field _ _ =>
        ∀ segment ∈ field.segments, segment.length ≤ Json.digitLimit) ∧
      ∃ answer, ((ofValue nestedCondition).evaluate .distinct saturdayRecord).outcome =
        .ok answer := by
  have hpaths : (ofValue nestedCondition).HasAsciiPaths := by
    simp only [ofValue_nestedCondition, HasAsciiPaths, forallTests_compound, forallTests_simple,
      List.forall_mem_cons]
    exact ⟨by decide, ⟨by decide, by decide, List.forall_mem_nil _⟩, List.forall_mem_nil _⟩
  have hshort : (ofValue nestedCondition).ForallTests fun field _ _ =>
      ∀ segment ∈ field.segments, segment.length ≤ Json.digitLimit := by
    simp only [ofValue_nestedCondition, forallTests_compound, forallTests_simple,
      List.forall_mem_cons]
    exact ⟨by decide, ⟨by decide, by decide, List.forall_mem_nil _⟩, List.forall_mem_nil _⟩
  exact ⟨isOrdinary_nested, isOrdinary_saturday, hpaths, hshort,
    (exists_outcome_iff_of_isOrdinary isOrdinary_nested isOrdinary_saturday hpaths).2.1 hshort⟩

/-- The path to one of the segments of a customer. -/
def segmentPath (index : List Char) : String :=
  String.ofList ("segments".toList ++ '.' :: index)

/-- A test of that segment. -/
def segmentCondition (index : List Char) : Value :=
  .object [("field", .text (segmentPath index)), ("operator", .text "=="), ("value", .int 1)]

/-- A customer without segments. -/
def segmentsRecord : Value := .object [("segments", .list [])]

section

variable {index : List Char} (hdigits : ∀ c ∈ index, c.isDigit = true)

include hdigits

/-- The test is an ordinary condition with an ASCII path. -/
private theorem isOrdinary_segmentCondition :
    (segmentCondition index).IsOrdinary ∧ IsAscii (segmentPath index).toList := by
  have hpath : (segmentPath index).toList = 's' :: ("egments".toList ++ '.' :: index) :=
    String.toList_ofList
  refine ⟨.object (by simp) ?_, ?_⟩
  · simp only [List.forall_mem_cons]
    exact ⟨isOrdinary_word hpath (by decide), isOrdinary_word rfl (by decide),
      isOrdinary_int (by decide), List.forall_mem_nil _⟩
  · rw [hpath]
    simp only [isAscii_cons, isAscii_append]
    exact ⟨by decide, by decide, by decide, isAscii_of_isDigit hdigits⟩

/-- With too many digits the path leads to no value of the customer. -/
private theorem resolve_segmentPath (hlong : Json.digitLimit < index.length) :
    (Value.text (segmentPath index)).isTruthy = true ∧
      (Value.text (segmentPath index)).resolve segmentsRecord .missing =
        .error (.indexTooLong index.length) := by
  have hpath : (segmentPath index).toList = "segments".toList ++ '.' :: index :=
    String.toList_ofList
  have htruthy : (Value.text (segmentPath index)).isTruthy = true := by
    rw [Value.isTruthy, bne_iff_ne]
    intro hempty
    rw [hempty] at hpath
    cases hpath
  obtain ⟨hindex, hread⟩ : isIndex index = true ∧
      readIndex index = .error (.indexTooLong index.length) :=
    (Value.readIndex_eq_error_iff (isAscii_of_isDigit hdigits)).mpr ⟨hdigits, hlong, rfl⟩
  have hsegments : (Value.text (segmentPath index)).segments = ["segments".toList, index] := by
    have hdot : '.' ∉ index := fun hdot => absurd (hdigits _ hdot) (by decide)
    rw [Value.segments, Value.spelling, hpath, segments_append (by decide),
      segments_of_not_mem hdot]
  refine ⟨htruthy, ?_⟩
  have hwalk : Value.walk .missing [index] (.list []) = .error (.indexTooLong index.length) := by
    simp only [Value.walk, Value.list, hindex, hread, if_true]
  rw [Value.resolve_of_isTruthy htruthy (Value.hasFewDigits_text _), hsegments]
  exact hwalk

/-- With too many digits the test breaks off on the customer. -/
private theorem evaluate_segmentCondition (hlong : Json.digitLimit < index.length) :
    (ofValue (segmentCondition index)).HasAsciiPaths ∧
      ((ofValue (segmentCondition index)).evaluate marks segmentsRecord).outcome =
        .error (.indexTooLong index.length) := by
  obtain ⟨htruthy, hresolve⟩ := resolve_segmentPath hdigits hlong
  have hshape : ∀ field : Value, field.isTruthy = true →
      Shape.of (.object [("field", field), ("operator", .text "=="), ("value", .int 1)]) =
        .simple field (.text "==") (.int 1) := fun field h => if_pos h
  have hop : Operator.ofValue? (.text "==") = some .equal := rfl
  rw [segmentCondition, ofValue_eq, hshape _ htruthy]
  refine ⟨forallTests_simple.mpr (isOrdinary_segmentCondition hdigits).2, ?_⟩
  simp only [evaluate, evaluateSimple, hop, hresolve]
  rfl

end

/-- An index with one digit too many breaks the test off, although condition and customer are
ordinary and the path is ASCII. -/
theorem not_exists_outcome_longIndex :
    (segmentCondition (List.replicate (Json.digitLimit + 1) '1')).IsOrdinary ∧
      segmentsRecord.IsOrdinary ∧
      (ofValue (segmentCondition (List.replicate (Json.digitLimit + 1) '1'))).HasAsciiPaths ∧
      ((ofValue (segmentCondition (List.replicate (Json.digitLimit + 1) '1'))).evaluate
        .distinct segmentsRecord).outcome = .error (.indexTooLong (Json.digitLimit + 1)) := by
  have hrecord : segmentsRecord.IsOrdinary := by
    refine .object (by simp) ?_
    simp only [List.forall_mem_cons]
    exact ⟨.list (List.forall_mem_nil _), List.forall_mem_nil _⟩
  obtain ⟨index, hindex⟩ : ∃ index, index = List.replicate (Json.digitLimit + 1) '1' := ⟨_, rfl⟩
  have hlength : index.length = Json.digitLimit + 1 := by rw [hindex, List.length_replicate]
  have hdigits : ∀ c ∈ index, c.isDigit = true := by
    intro c hc
    rw [hindex] at hc
    rw [List.eq_of_mem_replicate hc]
    rfl
  obtain ⟨hpaths, hbreaks⟩ := @evaluate_segmentCondition .distinct index hdigits (by omega)
  rw [← hindex, ← hlength]
  exact ⟨(isOrdinary_segmentCondition hdigits).1, hrecord, hpaths, hbreaks⟩

end Condition

end Loyalty
