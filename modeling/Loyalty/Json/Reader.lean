import Loyalty.Json.Lexeme
import Loyalty.Value.Basic

/-!
# Reading JSON

A document is read in one pass from its characters. Besides standard JSON the
words `NaN`, `Infinity` and `-Infinity` are numbers. Of fields with the same key
the last value counts, in the place of the first. Every part leaves a shorter
text behind, which is why the reading ends.
-/

namespace Loyalty.Json

/-- The white space between the parts of a document. -/
def isSpace (c : Char) : Bool := c = ' ' || c = '\t' || c = '\n' || c = '\r'

/-- Drops leading white space. -/
def skipSpace (cs : List Char) : List Char := cs.dropWhile isSpace

/-- White space is all that skipping can drop. -/
theorem length_skipSpace_le (cs : List Char) : (skipSpace cs).length ≤ cs.length :=
  (List.dropWhile_sublist _).length_le

/-- A character found after white space leaves a shorter text behind. -/
theorem length_lt_of_skipSpace {cs rest : List Char} {c : Char} (h : skipSpace cs = c :: rest) :
    rest.length < cs.length := by
  have := length_skipSpace_le cs
  rw [h] at this
  exact this

/-- A text that is shorter than another. -/
abbrev Shorter (cs : List Char) := { rest : List Char // rest.length < cs.length }

/-- The words that are values, with what they stand for. -/
def words : List (List Char × Value) :=
  [("null".toList, .null), ("true".toList, .bool true), ("false".toList, .bool false),
    ("NaN".toList, .double .nan), ("Infinity".toList, .double (.infinity false)),
    ("-Infinity".toList, .double (.infinity true))]

/-- Reads a word or a number at the start of a text. -/
def readScalar (cs : List Char) : Except Stop (Value × Shorter cs) :=
  match words.find? fun word => word.1.isPrefixOf cs with
  | some (word, value) =>
    if h : (cs.drop word.length).length < cs.length then .ok (value, ⟨cs.drop word.length, h⟩)
    else .error ⟨.valueExpected, cs.length⟩
  | none =>
    match h : readNumberText? cs with
    | none => .error ⟨.valueExpected, cs.length⟩
    | some (t, rest) =>
      match t.number with
      | .ok n => .ok (.number n, ⟨rest, length_of_readNumberText h⟩)
      | .error kind => .error ⟨kind, cs.length⟩

/-- Reads a text after its opening quote. -/
def readString (cs : List Char) : Except Stop (String × Shorter cs) :=
  match h : readPieces (cs.length + 1) cs with
  | .ok (pieces, rest) => .ok (String.ofList (joinUnits pieces), ⟨rest, length_of_readPieces h⟩)
  | .error stop => .error stop

mutual

/-- Reads the value at the start of a text. -/
def readValue (cs : List Char) : Except Stop (Value × Shorter cs) :=
  match cs with
  | '"' :: body =>
    match readString body with
    | .ok (s, ⟨rest, h⟩) => .ok (.text s, ⟨rest, Nat.lt_succ_of_lt h⟩)
    | .error stop => .error stop
  | '[' :: body =>
    match hskip : skipSpace body with
    | ']' :: rest => .ok (.list [], ⟨rest, by
        have := length_lt_of_skipSpace hskip
        simp only [List.length_cons]
        omega⟩)
    | items =>
      have hitems : items.length < ('[' :: body).length := by
        have := length_skipSpace_le body
        rw [hskip] at this
        simp only [List.length_cons]
        omega
      match readItems items with
      | .ok (vs, ⟨rest, h⟩) => .ok (.list vs, ⟨rest, Nat.lt_trans h hitems⟩)
      | .error stop => .error stop
  | '\x7b' :: body =>
    match hskip : skipSpace body with
    | '\x7d' :: rest => .ok (.object [], ⟨rest, by
        have := length_lt_of_skipSpace hskip
        simp only [List.length_cons]
        omega⟩)
    | fields =>
      have hfields : fields.length < ('\x7b' :: body).length := by
        have := length_skipSpace_le body
        rw [hskip] at this
        simp only [List.length_cons]
        omega
      match readFields fields with
      | .ok (fs, ⟨rest, h⟩) => .ok (.object (Fields.ofList fs), ⟨rest, Nat.lt_trans h hfields⟩)
      | .error stop => .error stop
  | cs => readScalar cs
termination_by (cs.length, 0)

/-- Reads the items of an array that has some, up to its closing bracket. -/
def readItems (cs : List Char) : Except Stop (List Value × Shorter cs) :=
  match readValue cs with
  | .error stop => .error stop
  | .ok (v, ⟨rest, hv⟩) =>
    match hskip : skipSpace rest with
    | ']' :: tail => .ok ([v], ⟨tail, Nat.lt_trans (length_lt_of_skipSpace hskip) hv⟩)
    | ',' :: tail =>
      have htail : (skipSpace tail).length < cs.length :=
        Nat.lt_of_le_of_lt (length_skipSpace_le tail)
          (Nat.lt_trans (length_lt_of_skipSpace hskip) hv)
      match readItems (skipSpace tail) with
      | .ok (vs, ⟨tail', h⟩) => .ok (v :: vs, ⟨tail', Nat.lt_trans h htail⟩)
      | .error stop => .error stop
    | other => .error ⟨.commaExpected, other.length⟩
termination_by (cs.length, 1)

/-- Reads the fields of an object that has some, up to its closing brace. -/
def readFields (cs : List Char) : Except Stop (List (String × Value) × Shorter cs) :=
  match cs with
  | '"' :: body =>
    match readString body with
    | .error stop => .error stop
    | .ok (key, ⟨afterKey, hkey⟩) =>
      match hskip : skipSpace afterKey with
      | ':' :: afterColon =>
        have hvalue : (skipSpace afterColon).length < ('"' :: body).length :=
          Nat.lt_of_le_of_lt (length_skipSpace_le afterColon)
            (Nat.lt_trans (length_lt_of_skipSpace hskip) (Nat.lt_succ_of_lt hkey))
        match readValue (skipSpace afterColon) with
        | .error stop => .error stop
        | .ok (v, ⟨rest, hv⟩) =>
          match hend : skipSpace rest with
          | '\x7d' :: tail => .ok ([(key, v)], ⟨tail,
              Nat.lt_trans (length_lt_of_skipSpace hend) (Nat.lt_trans hv hvalue)⟩)
          | ',' :: tail =>
            have htail : (skipSpace tail).length < ('"' :: body).length :=
              Nat.lt_of_le_of_lt (length_skipSpace_le tail)
                (Nat.lt_trans (length_lt_of_skipSpace hend) (Nat.lt_trans hv hvalue))
            match readFields (skipSpace tail) with
            | .ok (fs, ⟨tail', h⟩) => .ok ((key, v) :: fs, ⟨tail', Nat.lt_trans h htail⟩)
            | .error stop => .error stop
          | other => .error ⟨.commaExpected, other.length⟩
      | other => .error ⟨.colonExpected, other.length⟩
  | other => .error ⟨.nameExpected, other.length⟩
termination_by (cs.length, 1)

end

/-- A fault with its place in the text, lines and columns counted from one. -/
structure Fault where
  kind : FaultKind
  line : Nat
  column : Nat
  offset : Nat
  deriving DecidableEq

/-- The place of a fault in a whole text. -/
def Stop.locate (stop : Stop) (cs : List Char) : Fault :=
  let before := cs.take (cs.length - stop.remaining)
  { kind := stop.kind
    line := before.count '\n' + 1
    column := (before.reverse.takeWhile (· ≠ '\n')).length + 1
    offset := before.length }

/-- Reads a whole document: one value with white space around it. -/
def read (text : String) : Except Fault Value :=
  let cs := text.toList
  if cs.head? = some '\ufeff' then .error (Stop.locate ⟨.byteOrderMark, cs.length⟩ cs)
  else match readValue (skipSpace cs) with
    | .error stop => .error (stop.locate cs)
    | .ok (v, ⟨rest, _⟩) =>
      match skipSpace rest with
      | [] => .ok v
      | extra => .error (Stop.locate ⟨.extraData, extra.length⟩ cs)

end Loyalty.Json
