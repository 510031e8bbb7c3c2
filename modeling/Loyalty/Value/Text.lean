import Loyalty.Fault

/-!
# Texts of values

The text of a value is what diagnostics show and what conditions on texts look
at. Inside arrays and objects a text stands in quotes, and dates and moments are
written by their parts. A value has no text if there is an integer with too many
digits in it, wherever it stands: then asking for the text is a fault.
-/

namespace Loyalty

/-- Texts with a comma and a space between them. -/
def commaList (texts : List String) : String := ", ".intercalate texts

/-- The parts of an offset: whole days, seconds of the day and microseconds, those
that are zero left out. -/
def UtcOffset.parts (o : UtcOffset) : String :=
  let magnitude := o.micros + (if o.micros < 0 then (microsPerDay : Int) else 0)
  let seconds := magnitude / 1000000
  let micros := magnitude % 1000000
  let days := if o.micros < 0 then ["days=-1"] else []
  let seconds := if seconds = 0 then [] else ["seconds=" ++ intText seconds]
  let micros := if micros = 0 then [] else ["microseconds=" ++ intText micros]
  commaList (days ++ seconds ++ micros)

/-- How an offset is written inside arrays and objects. -/
def UtcOffset.quoted (o : UtcOffset) : String :=
  if o.micros = 0 then "datetime.timezone.utc"
  else "datetime.timezone(datetime.timedelta(" ++ o.parts ++ "))"

/-- How a date is written inside arrays and objects. -/
def Date.quoted (d : Date) : String :=
  "datetime.date(" ++ commaList ([d.year, d.month, d.day].map fun (n : Nat) => intText n) ++ ")"

/-- How a moment is written inside arrays and objects: seconds and microseconds
only if needed. -/
def Moment.quoted (m : Moment) : String :=
  let t := m.time
  let small :=
    if t.micro = 0 then (if t.second = 0 then [] else [t.second]) else [t.second, t.micro]
  let parts := [m.date.year, m.date.month, m.date.day, t.hour, t.minute] ++ small
  let zone := match m.offset with
    | some o => ["tzinfo=" ++ o.quoted]
    | none => []
  "datetime.datetime(" ++ commaList (parts.map (fun (n : Nat) => intText n) ++ zone) ++ ")"

/-- A double without a fraction as its exact integer, and other numbers as they
are. -/
def Number.plainText : Number → String
  | .int n => intText n
  | .double x =>
    match x.toInt? with
    | some n => intText n
    | none => x.text

namespace Value

mutual

/-- How a value is written inside arrays and objects. -/
def quoted : Value → String
  | .null => "None"
  | .bool b => if b then "True" else "False"
  | .number n => n.text
  | .text s => String.ofList (Loyalty.quoted s.toList)
  | .array .list items => "[" ++ commaList (quotedItems items) ++ "]"
  | .array .tuple items =>
    let parts := quotedItems items
    "(" ++ commaList parts ++ (if parts.length = 1 then ",)" else ")")
  | .object fields => "\x7b" ++ commaList (quotedFields fields) ++ "\x7d"
  | .date d => d.quoted
  | .moment m => m.quoted
  | .missing => "MISSING"

/-- The items of an array, each as it is written inside it. -/
def quotedItems : List Value → List String
  | [] => []
  | v :: vs => quoted v :: quotedItems vs

/-- The fields of an object, each with its key. -/
def quotedFields : List (String × Value) → List String
  | [] => []
  | (key, v) :: rest =>
    (String.ofList (Loyalty.quoted key.toList) ++ ": " ++ quoted v) :: quotedFields rest

end

/-- How a value is spelled in messages, however many digits its integers have. -/
def spelling : Value → String
  | .text s => s
  | .date d => String.ofList d.iso
  | .moment m => String.ofList (m.iso ' ')
  | v => v.quoted

mutual

/-- The integers in a value. -/
def integers : Value → List Int
  | .number (.int n) => [n]
  | .array _ items => itemIntegers items
  | .object fields => fieldIntegers fields
  | _ => []

/-- The integers in some values. -/
def itemIntegers : List Value → List Int
  | [] => []
  | v :: vs => integers v ++ itemIntegers vs

/-- The integers in the values of some fields. -/
def fieldIntegers : List (String × Value) → List Int
  | [] => []
  | (_, v) :: rest => integers v ++ fieldIntegers rest

end

/-- No integer in a value has more digits than the limit. -/
def HasFewDigits (v : Value) : Prop := ∀ n ∈ v.integers, digitCount n.natAbs ≤ Json.digitLimit

instance (v : Value) : Decidable v.HasFewDigits :=
  List.decidableBAll (fun n : Int => digitCount n.natAbs ≤ Json.digitLimit) v.integers

/-- The text of a value in messages. -/
def display (v : Value) : Except Fault String :=
  if v.HasFewDigits then .ok v.spelling else .error (.notWritable .tooManyDigits)

/-- The text of a value that conditions on texts look at: truth values in lower
case, and a double without a fraction as its exact integer. -/
def plainText (v : Value) : Except Fault String :=
  match v with
  | .bool b => .ok (if b then "true" else "false")
  | .number (.double x) => .ok (Number.double x).plainText
  | v => v.display

end Value

end Loyalty
