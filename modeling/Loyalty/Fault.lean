import Loyalty.Json.Reader
import Loyalty.Json.Writer
import Loyalty.Number.Shortest
import Loyalty.Text.Quoted

/-!
# Faults

Everything that can stop an operation, as its cause. The wording is in one
place, `Fault.message`; the place of a JSON fault is worded by
`Json.Fault.message`.
-/

namespace Loyalty

/-- A natural number in decimal. -/
def natText (n : Nat) : String := String.ofList (Nat.toDigits 10 n)

/-- What a reading of JSON expected. -/
def Json.FaultKind.message : Json.FaultKind → String
  | .valueExpected => "Expecting value"
  | .commaExpected => "Expecting ',' delimiter"
  | .nameExpected => "Expecting property name enclosed in double quotes"
  | .colonExpected => "Expecting ':' delimiter"
  | .extraData => "Extra data"
  | .unterminatedText => "Unterminated string starting at"
  | .controlCharacter => "Invalid control character at"
  | .badEscape => "Invalid \\escape"
  | .badUnicodeEscape => "Invalid \\uXXXX escape"
  | .byteOrderMark => "Unexpected UTF-8 BOM (decode using utf-8-sig)"
  | .tooManyDigits count =>
    "Exceeds the limit (4300 digits) for integer string conversion: value has " ++
      natText count ++ " digits; use sys.set_int_max_str_digits() to increase the limit"

/-- What a reading of JSON expected and where; the limit on digits has no place. -/
def Json.Fault.message (f : Json.Fault) : String :=
  match f.kind with
  | .tooManyDigits count => (Json.FaultKind.tooManyDigits count).message
  | kind =>
    kind.message ++ ": line " ++ natText f.line ++ " column " ++ natText f.column ++
      " (char " ++ natText f.offset ++ ")"

/-- What an engine is needed for. -/
inductive EngineUse where
  | load
  | list
  | apply
  deriving DecidableEq

/-- The word for what an engine is needed for. -/
def EngineUse.word : EngineUse → String
  | .load => "load_rules"
  | .list => "get_rules"
  | .apply => "apply_rules"

/-- Why an operation stopped. -/
inductive Fault where
  /-- An integer is too large for the double it has to become. -/
  | integerTooLarge
  /-- An integer is too wide for the word it is stored in. -/
  | integerTooWide
  /-- A moment leaves the calendar on its way to UTC. -/
  | momentOutOfRange
  /-- A path segment of digits, not all decimal, stands where an index has to. -/
  | badIndex (segment : List Char)
  /-- A path segment has more digits than an index can. -/
  | indexTooLong (digits : Nat)
  /-- A number has no multiple of a cent near it that can be written. -/
  | notRoundable
  /-- A value to be rounded is no number. -/
  | notDecimal
  /-- A value that is no sequence stands where one has to. -/
  | notIterable (kind : ValueKind)
  /-- A value without a length stands where one is counted. -/
  | noLength (kind : ValueKind)
  /-- A value that is no object is asked for a field. -/
  | notObject (kind : ValueKind)
  /-- A value that is no object is asked for a field that has to be there. -/
  | notIndexable (kind : ValueKind)
  /-- A field that has to be there is absent. -/
  | fieldMissing (key : String)
  /-- A row was to be overwritten, and is not there. -/
  | rowMissing
  /-- There is no engine in use. -/
  | engineMissing (use : EngineUse)
  /-- The database refused a query. -/
  | queryFailed (text : String)
  /-- A value that cannot be written, as JSON or in decimal digits. -/
  | notWritable (reason : Json.Unwritable)
  /-- A value that no column of texts holds. -/
  | notStorable (kind : ValueKind)
  /-- A value that is in no order with a number. -/
  | notOrdered (kind : ValueKind)
  /-- A value that is no number of seconds. -/
  | intervalNotNumber (kind : ValueKind)
  /-- Not-a-number in place of a number of seconds. -/
  | intervalNaN
  /-- An infinity in place of a number of seconds. -/
  | intervalInfinite
  /-- An interval has too many days. -/
  | intervalTooLong (days : Int)
  /-- Jobs are being run already. -/
  | alreadyRunning
  /-- An infinity or not-a-number in the body of an error. -/
  | notFinite
  /-- A text that is no JSON document. -/
  | badJson (fault : Json.Fault)
  /-- A file that is not UTF-8. -/
  | notUtf8
  /-- A file that does not exist. -/
  | fileMissing (path : String)
  /-- The server failed. -/
  | serverFailed (status : Int) (reason url : String)
  /-- The server was not reached. -/
  | connectionFailed (text : String)
  /-- A request of a kind that is not made. -/
  | unsupportedMethod (method : String)
  /-- The service refused the rules. -/
  | rulesRefused
  /-- The run ended with an exit status. -/
  | exit (status : Nat)

/-- The name of a kind of value without the calendar module it lives in. -/
def ValueKind.shortName : ValueKind → String
  | .date => "date"
  | .moment => "datetime"
  | kind => kind.name

/-- The wording of a fault about the days of an interval, which are not told when
they take more than 32 bits. -/
def tooManyDays (days : Int) : String :=
  if -2147483648 ≤ days ∧ days ≤ 2147483647 then
    "days=" ++ intText days ++ "; must have magnitude <= 999999999"
  else "Python int too large to convert to C int"

/-- The wording of a fault. -/
def Fault.message : Fault → String
  | .integerTooLarge => "int too large to convert to float"
  | .integerTooWide => "Python int too large to convert to SQLite INTEGER"
  | .momentOutOfRange => "date value out of range"
  | .badIndex segment =>
    "invalid literal for int() with base 10: " ++ String.ofList ((quoted segment).take 200)
  | .indexTooLong digits => (Json.FaultKind.tooManyDigits digits).message
  | .notRoundable => "[<class 'decimal.InvalidOperation'>]"
  | .notDecimal => "[<class 'decimal.ConversionSyntax'>]"
  | .notIterable kind => "'" ++ kind.name ++ "' object is not iterable"
  | .noLength kind => "object of type '" ++ kind.name ++ "' has no len()"
  | .notObject kind => "'" ++ kind.name ++ "' object has no attribute 'get'"
  | .notIndexable .text => "string indices must be integers, not 'str'"
  | .notIndexable .list => "list indices must be integers or slices, not str"
  | .notIndexable kind => "'" ++ kind.name ++ "' object is not subscriptable"
  | .fieldMissing key => "'" ++ key ++ "'"
  | .rowMissing => "'NoneType' object has no attribute 'rules'"
  | .engineMissing use => "'NoneType' object has no attribute '" ++ use.word ++ "'"
  | .queryFailed text => text
  | .notWritable (.kind kind) =>
    "Object of type " ++ kind.shortName ++ " is not JSON serializable"
  | .notWritable .tooManyDigits =>
    "Exceeds the limit (4300 digits) for integer string conversion; " ++
      "use sys.set_int_max_str_digits() to increase the limit"
  | .notStorable kind => "Error binding parameter: type '" ++ kind.name ++ "' is not supported"
  | .notOrdered kind =>
    "'>' not supported between instances of '" ++ kind.name ++ "' and 'int'"
  | .intervalNotNumber kind =>
    "unsupported type for timedelta seconds component: " ++ kind.name
  | .intervalNaN => "cannot convert float NaN to integer"
  | .intervalInfinite => "cannot convert float infinity to integer"
  | .intervalTooLong days => tooManyDays days
  | .alreadyRunning => "Scheduler is already running"
  | .notFinite => "Out of range float values are not JSON compliant"
  | .badJson fault => fault.message
  | .notUtf8 => ""
  | .fileMissing path => "[Errno 2] No such file or directory: '" ++ path ++ "'"
  | .serverFailed status reason url =>
    intText status ++ " Server Error: " ++ reason ++ " for url: " ++ url
  | .connectionFailed text => text
  | .unsupportedMethod method => "Unsupported method: " ++ method
  | .rulesRefused => "Rule validation failed"
  | .exit status => natText status

end Loyalty
