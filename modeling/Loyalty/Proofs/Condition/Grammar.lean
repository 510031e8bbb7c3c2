import Loyalty.Proofs.Condition.Nodes
import Loyalty.Proofs.Condition.Words
import Mathlib.Data.List.Lex

/-!
# The grammar of conditions

A condition is a tree of objects: a node unites the conditions in its array by a connective,
or asks about a field with one of the operators and a value that suits it. The check of a
condition accepts these trees and no other value. Of any other value it says what is wrong
with the first node in reading order that is flawed itself, behind the indices that lead
there. It fails if that is an unknown operator without a text.
-/

namespace Loyalty

namespace Condition

/-! ## Well-formed trees and flawed nodes -/

/-- A well-formed tree. -/
inductive Grammatical : Value → Prop
  /-- One or more trees are united. -/
  | compound {v : Value} {c : Connective} {items : List Value} (h : Unites v c items)
    (hne : items ≠ []) (hitems : ∀ item ∈ items, Grammatical item) : Grammatical v
  /-- Something is asked about a field. -/
  | simple {fields : Fields} {op : Operator} (hfield : (fields.get "field").isTruthy = true)
    (hoperator : fields.get "operator" = .text op.symbol)
    (hvalue : op.Suits (fields.get "value")) : Grammatical (.object fields)

/-- A node that is flawed whatever stands below it, and what is said of it: some words, or the
fault of an operator that has no text. -/
inductive Flawed : Value → Except Fault String → Prop
  | notObject {v : Value} (h : ∀ fields, v ≠ .object fields) :
    Flawed v (.ok "Condition must be an object")
  | noConditions {fields : Fields} {c : Connective}
    (hoperator : fields.get "operator" = .text c.symbol)
    (h : ∀ kind items, fields.get "conditions" ≠ .array kind items) :
    Flawed (.object fields) (.ok (c.symbol ++ " requires a conditions array"))
  | noChildren {v : Value} {c : Connective} (h : Unites v c []) :
    Flawed v (.ok (c.symbol ++ " requires at least one condition"))
  | neitherShape {fields : Fields}
    (hconnective : ∀ c : Connective, fields.get "operator" ≠ .text c.symbol)
    (hfield : (fields.get "field").isTruthy = false) :
    Flawed (.object fields)
      (.ok "Condition must have either a field (simple) or operator with conditions (compound)")
  | noOperator {fields : Fields} (hfield : (fields.get "field").isTruthy = true)
    (hoperator : (fields.get "operator").isTruthy = false) :
    Flawed (.object fields) (.ok "Simple condition must have an operator")
  | unknownOperator {fields : Fields} (hfield : (fields.get "field").isTruthy = true)
    (htruthy : (fields.get "operator").isTruthy = true)
    (hconnective : ∀ c : Connective, fields.get "operator" ≠ .text c.symbol)
    (hoperator : ∀ op : Operator, fields.get "operator" ≠ .text op.symbol) :
    Flawed (.object fields)
      ((fields.get "operator").display.map fun text => "Unknown operator: " ++ text)
  | arrayRequired {fields : Fields} {op : Operator}
    (hfield : (fields.get "field").isTruthy = true)
    (hoperator : fields.get "operator" = .text op.symbol) (hop : op = .isIn ∨ op = .notIn)
    (hvalue : ¬ op.Suits (fields.get "value")) :
    Flawed (.object fields) (.ok (op.symbol ++ " operator requires an array value"))
  | rangeRequired {fields : Fields} (hfield : (fields.get "field").isTruthy = true)
    (hoperator : fields.get "operator" = .text Operator.dateRange.symbol)
    (hvalue : ¬ Operator.dateRange.Suits (fields.get "value")) :
    Flawed (.object fields) (.ok "DATE_RANGE requires value with start and end properties")

/-- The node of a tree that some indices lead to. -/
inductive At : Value → List Nat → Value → Prop
  /-- No index leads to the root. -/
  | root (v : Value) : At v [] v
  /-- The first index picks one of the conditions that the root unites. -/
  | child {v item node : Value} {c : Connective} {items : List Value} {index : Nat}
    {path : List Nat} (h : Unites v c items) (hitem : items[index]? = some item)
    (hnode : At item path node) : At v (index :: path) node

/-- The first flawed node of a tree in reading order. Reading order is that of the paths as
words of indices: a node comes before those below it, and before those in the later items
of a node above it. -/
structure FirstFlaw (v : Value) (path : List Nat) (node : Value) (flaw : Except Fault String) :
    Prop where
  reached : At v path node
  flawed : Flawed node flaw
  first : ∀ earlier other said, At v earlier other → earlier < path → ¬ Flawed other said

/-- How the path to a node is told. -/
def pathText (path : List Nat) : String :=
  String.join (path.map fun index => "Condition[" ++ toString index ++ "]: ")

/-! ## The flaws of one node -/

variable {v : Value} {c : Connective} {items : List Value}

/-- What is wrong with a node itself makes it flawed. -/
theorem flawed_of_nodeFault? {f : NodeFault} (h : (ofValue v).nodeFault? = some f) :
    Flawed v f.message := by
  cases v with
  | object fields =>
    have hread := isRead fields
    generalize ofValue (.object fields) = read at h hread
    cases hread with
    | @compound c items hunites =>
      cases items with
      | nil =>
        cases h
        exact .noChildren hunites
      | cons item items => cases h
    | noConditions hoperator hconditions =>
      cases h
      exact .noConditions hoperator hconditions
    | neitherShape hconnective hfield =>
      cases h
      exact .neitherShape hconnective hfield
    | simple hconnective hfield =>
      rw [nodeFault?, simpleFault?] at h
      split at h
      · rename_i htruthy
        cases hop : Operator.ofValue? (Fields.get fields "operator") with
        | none =>
          rw [hop] at h
          cases h
          exact .unknownOperator hfield htruthy hconnective
            (Operator.ofValue?_eq_none_iff.mp hop)
        | some op =>
          have hoperator := Operator.ofValue?_eq_some_iff.mp hop
          simp only [hop] at h
          have hvalue : ¬ op.Suits (Fields.get fields "value") := by
            rw [← valueFault?_eq_none_iff, h]
            exact Option.some_ne_none f
          rcases valueFault?_eq_some h with ⟨hmember, rfl⟩ | ⟨rfl, rfl⟩
          · exact .arrayRequired hfield hoperator hmember hvalue
          · exact .rangeRequired hfield hoperator hvalue
      · rename_i hfalsy
        cases h
        exact .noOperator hfield (Bool.not_eq_true _ ▸ hfalsy)
  | _ =>
    cases h
    exact .notObject (by simp)

/-- A flawed node has something wrong with itself. -/
theorem nodeFault?_of_flawed {flaw : Except Fault String} (h : Flawed v flaw) :
    ∃ f, (ofValue v).nodeFault? = some f ∧ f.message = flaw := by
  cases h with
  | notObject h =>
    cases v with
    | object fields => exact absurd rfl (h fields)
    | _ => exact ⟨.shape .notObject, rfl, rfl⟩
  | @noConditions fields c hoperator h =>
    rw [(IsRead.noConditions hoperator h).ofValue_eq]
    exact ⟨.shape (.noConditions c), rfl, rfl⟩
  | noChildren h =>
    rw [h.ofValue_eq]
    exact ⟨.noChildren _, rfl, rfl⟩
  | neitherShape hconnective hfield =>
    rw [(IsRead.neitherShape hconnective hfield).ofValue_eq]
    exact ⟨.shape .neitherShape, rfl, rfl⟩
  | @noOperator fields hfield hoperator =>
    have hconnective : ∀ c : Connective, fields.get "operator" ≠ .text c.symbol := by
      intro c hword
      rw [hword] at hoperator
      cases c <;> cases hoperator
    rw [(IsRead.simple hconnective hfield).ofValue_eq, nodeFault?, simpleFault?, hoperator]
    exact ⟨.noOperator, rfl, rfl⟩
  | @unknownOperator fields hfield htruthy hconnective hoperator =>
    rw [(IsRead.simple hconnective hfield).ofValue_eq, nodeFault?, simpleFault?, htruthy,
      Operator.ofValue?_eq_none_iff.mpr hoperator]
    exact ⟨.unknownOperator (fields.get "operator"), rfl, rfl⟩
  | @arrayRequired fields op hfield hoperator hop hvalue =>
    obtain ⟨f, hf⟩ := Option.ne_none_iff_exists'.mp (mt valueFault?_eq_none_iff.mp hvalue)
    refine ⟨f, nodeFault?_of_operator hfield hoperator hf, ?_⟩
    rcases valueFault?_eq_some hf with ⟨-, rfl⟩ | ⟨rfl, -⟩
    · rfl
    · simp at hop
  | @rangeRequired fields hfield hoperator hvalue =>
    obtain ⟨f, hf⟩ := Option.ne_none_iff_exists'.mp (mt valueFault?_eq_none_iff.mp hvalue)
    refine ⟨f, nodeFault?_of_operator hfield hoperator hf, ?_⟩
    rcases valueFault?_eq_some hf with ⟨hmember, -⟩ | ⟨-, rfl⟩
    · simp at hmember
    · rfl

/-! ## The first flaw -/

/-- A fault of the root is reported without a path. -/
theorem fault?_of_nodeFault? {c : Condition} {f : NodeFault} (h : c.nodeFault? = some f) :
    c.fault? = some ⟨[], f⟩ := by
  cases c with
  | simple field operator value =>
    rw [nodeFault?] at h
    rw [fault?, h]
    rfl
  | compound c children =>
    cases children with
    | nil =>
      cases h
      rfl
    | cons child children => cases h
  | malformed raw fault =>
    cases h
    rfl

/-- Where the root has no fault, the faults are those of the children. -/
theorem fault?_of_unites (h : Unites v c items) (hroot : (ofValue v).nodeFault? = none) :
    (ofValue v).fault? = childFault? 0 (items.map ofValue) := by
  rw [h.ofValue_eq] at hroot ⊢
  cases items with
  | nil => cases hroot
  | cons item items => rfl

/-- Where the root has no fault, a fault is one of a child. -/
theorem exists_unites_of_fault? {f : ConditionFault} (hroot : (ofValue v).nodeFault? = none)
    (h : (ofValue v).fault? = some f) : ∃ c items, Unites v c items := by
  cases v with
  | object fields =>
    have hread := isRead fields
    generalize ofValue (.object fields) = read at h hroot hread
    cases hread with
    | compound hunites => exact ⟨_, _, hunites⟩
    | simple =>
      rw [nodeFault?] at hroot
      rw [fault?, hroot] at h
      cases h
    | _ => cases hroot
  | _ => cases hroot

/-- The first fault among some children is that of the first child with a fault. -/
theorem childFault?_eq_some {index : Nat} {children : List Condition} {f : ConditionFault}
    (h : childFault? index children = some f) :
    ∃ offset child g, children[offset]? = some child ∧ child.fault? = some g ∧
      f = ⟨(index + offset) :: g.path, g.fault⟩ ∧
      ∀ earlier other, earlier < offset → children[earlier]? = some other →
        other.fault? = none := by
  induction children generalizing index with
  | nil => cases h
  | cons child children ih =>
    rw [childFault?] at h
    cases hfirst : child.fault? with
    | some g =>
      rw [hfirst] at h
      cases h
      exact ⟨0, child, g, rfl, hfirst, rfl, fun _ _ hearlier => absurd hearlier (Nat.not_lt_zero _)⟩
    | none =>
      rw [hfirst] at h
      obtain ⟨offset, other, g, hother, hg, hf, hbefore⟩ := ih h
      refine ⟨offset + 1, other, g, hother, hg, by rw [hf]; congr 2; omega, ?_⟩
      intro earlier another hearlier hanother
      cases earlier with
      | zero =>
        cases hanother
        exact hfirst
      | succ earlier => exact hbefore earlier another (Nat.lt_of_succ_lt_succ hearlier) hanother

/-- A node that passes the check has no flawed node in its tree. -/
theorem not_flawed_of_fault?_eq_none (hvalid : (ofValue v).fault? = none) {path : List Nat}
    {node : Value} {flaw : Except Fault String} (h : At v path node) : ¬ Flawed node flaw := by
  induction h with
  | root v =>
    intro hflawed
    obtain ⟨f, hf, -⟩ := nodeFault?_of_flawed hflawed
    rw [fault?_of_nodeFault? hf] at hvalid
    cases hvalid
  | child hunites hitem _ ih =>
    rw [hunites.ofValue_eq, fault?_compound_eq_none, List.forall_mem_map] at hvalid
    exact ih (hvalid.2 _ (List.mem_of_getElem? hitem))

/-- A flaw below an unflawed root is the first one if it is the first one in its child and the
children before it have none. -/
theorem FirstFlaw.below {item node : Value} {index : Nat} {path : List Nat}
    {flaw : Except Fault String} (h : FirstFlaw item path node flaw) (hunites : Unites v c items)
    (hitem : items[index]? = some item) (hroot : (ofValue v).nodeFault? = none)
    (hbefore : ∀ earlier other, earlier < index → items[earlier]? = some other →
      (ofValue other).fault? = none) : FirstFlaw v (index :: path) node flaw := by
  refine ⟨.child hunites hitem h.reached, h.flawed, ?_⟩
  intro earlier other text hreached hearlier
  cases hreached with
  | root =>
    intro hflawed
    obtain ⟨f, hf, -⟩ := nodeFault?_of_flawed hflawed
    rw [hroot] at hf
    cases hf
  | child hunites' hitem' hnode =>
    cases hunites.unique hunites'
    rcases List.cons_lt_cons_iff.mp hearlier with hlt | ⟨rfl, hlt⟩
    · exact not_flawed_of_fault?_eq_none (hbefore _ _ hlt hitem') hnode
    · cases hitem.symm.trans hitem'
      exact h.first _ _ _ hnode hlt

/-- The check reports the first flaw. -/
theorem firstFlaw_of_fault? {f : ConditionFault} (h : (ofValue v).fault? = some f) :
    ∃ node, FirstFlaw v f.path node f.fault.message := by
  induction v using nodeInduction generalizing f with
  | node v ih =>
    cases hroot : (ofValue v).nodeFault? with
    | some g =>
      rw [fault?_of_nodeFault? hroot] at h
      cases h
      exact ⟨v, .root v, flawed_of_nodeFault? hroot,
        fun earlier _ _ _ hearlier => absurd hearlier (List.not_lt_nil earlier)⟩
    | none =>
      obtain ⟨c, items, hunites⟩ := exists_unites_of_fault? hroot h
      rw [fault?_of_unites hunites hroot] at h
      obtain ⟨index, child, g, hchild, hg, rfl, hbefore⟩ := childFault?_eq_some h
      rw [List.getElem?_map, Option.map_eq_some_iff] at hchild
      obtain ⟨item, hitem, rfl⟩ := hchild
      obtain ⟨node, hfirst⟩ := ih c items hunites item (List.mem_of_getElem? hitem) hg
      refine ⟨node, ?_⟩
      rw [Nat.zero_add]
      refine hfirst.below hunites hitem hroot fun earlier other hearlier hother => ?_
      exact hbefore earlier _ hearlier (by rw [List.getElem?_map, hother]; rfl)

/-- The check passes the well-formed trees. -/
theorem fault?_eq_none_of_grammatical (h : Grammatical v) : (ofValue v).fault? = none := by
  induction h with
  | compound hunites hne _ ih =>
    rw [hunites.ofValue_eq, fault?_compound_eq_none, List.forall_mem_map]
    exact ⟨by simpa using hne, ih⟩
  | @simple fields op hfield hoperator hvalue =>
    rw [(IsRead.simple (ne_symbol hoperator) hfield).ofValue_eq, fault?,
      Option.map_eq_none_iff, simpleFault?_eq_none_iff]
    exact ⟨op, hoperator, hvalue⟩

/-- Nothing else passes the check. -/
theorem grammatical_of_fault?_eq_none (h : (ofValue v).fault? = none) : Grammatical v := by
  induction v using nodeInduction with
  | node v ih =>
    cases v with
    | object fields =>
      have hread := isRead fields
      generalize ofValue (.object fields) = read at h hread
      cases hread with
      | compound hunites =>
        rw [fault?_compound_eq_none, List.forall_mem_map] at h
        exact .compound hunites (by simpa using h.1)
          fun item hitem => ih _ _ hunites item hitem (h.2 item hitem)
      | simple hconnective hfield =>
        rw [fault?, Option.map_eq_none_iff, simpleFault?_eq_none_iff] at h
        obtain ⟨op, hoperator, hvalue⟩ := h
        exact .simple hfield hoperator hvalue
      | _ => cases h
    | _ => cases h

/-- The nodes of a tree are parts of it. -/
theorem At.isPart {path : List Nat} {node : Value} (h : At v path node) : Value.IsPart node v := by
  induction h with
  | root v => exact .self
  | child hunites hitem _ ih => exact ih.trans (hunites.isPart (List.mem_of_getElem? hitem))

/-- Some indices lead to one node. -/
theorem At.unique {path : List Nat} {node node' : Value} (h : At v path node)
    (h' : At v path node') : node = node' := by
  induction h with
  | root v =>
    cases h'
    rfl
  | child hunites hitem _ ih =>
    cases h' with
    | child hunites' hitem' hnode' =>
      cases hunites.unique hunites'
      cases hitem.symm.trans hitem'
      exact ih hnode'

/-- One thing is said of a flawed node. -/
theorem Flawed.unique {flaw flaw' : Except Fault String} (h : Flawed v flaw) (h' : Flawed v flaw') :
    flaw = flaw' := by
  obtain ⟨f, hf, rfl⟩ := nodeFault?_of_flawed h
  obtain ⟨f', hf', rfl⟩ := nodeFault?_of_flawed h'
  cases hf.symm.trans hf'
  rfl

/-- A tree has one first flaw. -/
theorem FirstFlaw.unique {path path' : List Nat} {node node' : Value}
    {flaw flaw' : Except Fault String} (h : FirstFlaw v path node flaw)
    (h' : FirstFlaw v path' node' flaw') :
    path = path' ∧ flaw = flaw' := by
  rcases lt_trichotomy path path' with hlt | rfl | hlt
  · exact absurd h.flawed (h'.first _ _ _ h.reached hlt)
  · cases h.reached.unique h'.reached
    exact ⟨rfl, h.flawed.unique h'.flawed⟩
  · exact absurd h'.flawed (h.first _ _ _ h'.reached hlt)

/-- A fault is told behind the path to it. -/
theorem message_eq (f : ConditionFault) :
    f.message = f.fault.message.map fun flaw => pathText f.path ++ flaw := by
  obtain ⟨path, fault⟩ := f
  have hpath : ∀ text, path.foldr (fun i text => "Condition[" ++ natText i ++ "]: " ++ text) text =
      pathText path ++ text := by
    intro text
    induction path with
    | nil => simp [pathText]
    | cons index path ih =>
      rw [List.foldr_cons, ih, pathText, pathText, List.map_cons, String.join_cons]
      simp only [String.append_assoc]
      rfl
  simp only [ConditionFault.message, hpath]

/-- A node that is not told what is wrong with has an operator with too many digits in it. -/
theorem Flawed.of_error {f : Fault} (h : Flawed v (.error f)) :
    ∃ fields, v = .object fields ∧ ¬ (Fields.get fields "operator").HasFewDigits ∧
      f = .notWritable .tooManyDigits := by
  generalize hflaw : (.error f : Except Fault String) = flaw at h
  cases h with
  | unknownOperator =>
    obtain ⟨hmany, hf⟩ := Value.display_eq_error_iff.mp (map_eq_error.mp hflaw.symm)
    exact ⟨_, rfl, hmany, hf⟩
  | _ => cases hflaw

/-- A fault of a tree with few digits can be said in words. -/
theorem not_lacksWords_of_hasFewDigits (hfew : v.HasFewDigits) {f : ConditionFault}
    (h : (ofValue v).fault? = some f) : ¬ f.fault.LacksWords := by
  intro hlacks
  obtain ⟨node, hfirst⟩ := firstFlaw_of_fault? h
  rw [NodeFault.message_eq_error_iff.mpr ⟨hlacks, rfl⟩] at hfirst
  obtain ⟨fields, rfl, hmany, -⟩ := hfirst.flawed.of_error
  exact hmany ((hfew.of_isPart hfirst.reached.isPart).get "operator")

/-- The check comes to the first flaw. -/
theorem fault?_eq_some_iff {r : Except Fault String} :
    (∃ f, (ofValue v).fault? = some f ∧ f.message = r) ↔
      ∃ path node flaw, FirstFlaw v path node flaw ∧
        r = flaw.map fun text => pathText path ++ text := by
  constructor
  · rintro ⟨f, hf, rfl⟩
    obtain ⟨node, hfirst⟩ := firstFlaw_of_fault? hf
    exact ⟨f.path, node, _, hfirst, message_eq f⟩
  · rintro ⟨path, node, flaw, hfirst, rfl⟩
    cases hfault : (ofValue v).fault? with
    | none => exact absurd hfirst.flawed (not_flawed_of_fault?_eq_none hfault hfirst.reached)
    | some f =>
      obtain ⟨node', hfirst'⟩ := firstFlaw_of_fault? hfault
      obtain ⟨rfl, rfl⟩ := hfirst.unique hfirst'
      exact ⟨f, rfl, message_eq f⟩

/-- The check of a condition decides the grammar: it passes the well-formed trees and no other
value. Any other value has a first flawed node in reading order, and the check tells the path
to that node and what is wrong with it. It fails if the operator of that node is an unknown one
with an integer of too many digits in it, and on no other value. -/
theorem check_decides_grammar (v : Value) :
    ((ofValue v).check = .ok none ↔ Grammatical v) ∧
      (∀ text, (ofValue v).check = .ok (some text) ↔
        ∃ path node flaw, FirstFlaw v path node (.ok flaw) ∧ text = pathText path ++ flaw) ∧
      ∀ f, (ofValue v).check = .error f ↔
        ∃ path fields, FirstFlaw v path (.object fields) (.error f) ∧
          ¬ (Fields.get fields "operator").HasFewDigits ∧ f = .notWritable .tooManyDigits := by
  refine ⟨?_, fun text => ?_, fun f => ?_⟩
  · rw [check_eq_none_iff]
    exact ⟨grammatical_of_fault?_eq_none, fault?_eq_none_of_grammatical⟩
  · rw [check_eq_some_iff, fault?_eq_some_iff]
    refine exists_congr fun path => exists_congr fun node => ?_
    constructor
    · rintro ⟨flaw, hfirst, htext⟩
      obtain ⟨words, rfl, rfl⟩ := map_eq_ok.mp htext.symm
      exact ⟨words, hfirst, rfl⟩
    · rintro ⟨words, hfirst, rfl⟩
      exact ⟨.ok words, hfirst, rfl⟩
  · have hcheck : (ofValue v).check = .error f ↔
        ∃ fault, (ofValue v).fault? = some fault ∧ fault.message = .error f := by
      simp only [check_eq_error_iff, ConditionFault.message_eq_error_iff]
    rw [hcheck, fault?_eq_some_iff]
    refine exists_congr fun path => ?_
    constructor
    · rintro ⟨node, flaw, hfirst, hf⟩
      obtain rfl := map_eq_error.mp hf.symm
      obtain ⟨fields, rfl, hmany, hfault⟩ := hfirst.flawed.of_error
      exact ⟨fields, hfirst, hmany, hfault⟩
    · rintro ⟨fields, hfirst, -⟩
      exact ⟨_, _, hfirst, rfl⟩

/-- An unknown operator that is an integer with a digit too many is not told. -/
theorem not_checked_powerOfTen :
    (ofValue (.object [("field", .text "x"), ("operator", .int (10 ^ 4300))])).check =
      .error (.notWritable .tooManyDigits) := by
  have hmany : ¬ (Value.int (10 ^ 4300)).HasFewDigits := Value.not_hasFewDigits_pow (Nat.le_refl _)
  have htruthy := Value.isTruthy_pow 4300
  generalize (10 : Int) ^ 4300 = n at hmany htruthy ⊢
  have hflaw : FirstFlaw (.object [("field", .text "x"), ("operator", .int n)]) [] _
      ((Value.int n).display.map fun text => "Unknown operator: " ++ text) :=
    ⟨.root _, .unknownOperator rfl htruthy (fun c => nofun) (fun op => nofun),
      fun _ _ _ _ hearlier => absurd hearlier (List.not_lt_nil _)⟩
  obtain ⟨f, hf, hmessage⟩ := fault?_eq_some_iff.mpr ⟨_, _, _, hflaw, rfl⟩
  rw [Value.display_of_not_hasFewDigits hmany] at hmessage
  rw [check, hf]
  exact congrArg (Except.map some) hmessage

/-- The later of two flaws is not told. -/
example :
    (ofValue (.object [("operator", .text "AND"), ("conditions", .list [
      .object [("operator", .text "OR"), ("conditions", .list [
        .object [("field", .text "tier"), ("operator", .text "=="), ("value", .text "gold")],
        .object [("field", .text "tier"), ("operator", .list [.text "AND"])]])],
      .null])])).check =
      .ok (some "Condition[0]: Condition[1]: Unknown operator: ['AND']") := by rfl

end Condition

end Loyalty
