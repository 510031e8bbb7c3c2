import Loyalty.Service.Basic
import Loyalty.Service.Response

/-!
# Bookings

A posted booking names a tier and an amount, and perhaps a date, today in UTC
unless given. The rules in use are applied to the record made of it. The tier is
checked before the amount, and the amount before the date is looked at.
-/

namespace Loyalty

/-- The posted amount that a value denotes: numbers, truth values, and texts that
are numbers. -/
def Value.postedAmount : Value → Except Fault (Option Double)
  | .text s => .ok (postedAmount? s.toList)
  | .bool b => (Value.bool b).amount.map some
  | .number n => (Value.number n).amount.map some
  | _ => .ok none

namespace Service

/-- The tiers that a booking can have. -/
def tiers : List String := ["silver", "gold", "platinum"]

/-- The record that the rules are applied to for a booking. -/
def bookingRecord (tier : String) (amount : Double) (bookingDate : Value)
    (day : Option String) : Value :=
  .object [("tier", .text tier), ("total_spend", .double amount), ("booking_date", bookingDate),
    ("day_of_week", (day.map Value.text).getD .null)]

/-- The answer that tells a calculation. -/
def calculated (record : Value) (c : Calculation) : Response :=
  .ok (.object [("success", .bool true), ("input", record),
    ("result", .object [("original_amount", .double c.amount),
      ("discount_percent", .number c.total), ("discount_amount", .double c.discount),
      ("final_amount", .double c.final), ("applied_rules", .list (c.applied.map Applied.toValue)),
      ("message", c.message)])])

/-- The answer to a booking without its tier or its amount. -/
def missingFields : Except Fault Response :=
  Response.refusal 400 (.object [("error", .text "Missing required fields: tier and total_spend"),
    ("example", .object [("tier", .text "gold"), ("total_spend", .int 1000),
      ("booking_date", .text "2025-10-31")])])

/-- The tier that a value names, in any case. -/
def tier? : Value → Option String
  | .text s => tiers.find? fun tier => isWord tier s.toList
  | _ => none

/-- Applies the rules of an engine to a booking whose tier and amount are good. -/
def calculateBooking (engine : Engine) (tier : String) (amount : Double) (bookingDate : Value)
    (now : Moment) : Action Service Response := do
  let bookingDate ←
    if bookingDate.isTruthy then pure bookingDate else Action.ofExcept (now.utcDate.map Value.text)
  let day ← Action.ofExcept bookingDate.dayName
  let record := bookingRecord tier amount bookingDate day
  let c ← Action.lift (engine.apply record)
  return calculated record c

/-- Calculates the discount of a booking. -/
def calculate (payload : Fields) (now : Moment) : Action Service Response := do
  match (← Action.get).engine with
  | none => Action.ofExcept (Response.because 500 "Rule engine not initialized")
  | some engine =>
    match (payload.get "tier").isTruthy, payload.get "total_spend" with
    | false, _ => Action.ofExcept missingFields
    | _, .null => Action.ofExcept missingFields
    | true, posted =>
      match tier? (payload.get "tier") with
      | none =>
        Action.ofExcept (Response.because 400 ("Invalid tier. Must be one of: " ++ commaList tiers))
      | some tier =>
        match ← Action.ofExcept posted.postedAmount with
        | none => Action.ofExcept (Response.because 400 "total_spend must be a number")
        | some amount =>
          if !amount.isFinite then
            Action.ofExcept (Response.because 400 "total_spend must be a number")
          else if amount.lt (.zero false) then
            Action.ofExcept (Response.because 400 "total_spend must be a positive number")
          else calculateBooking engine tier amount (payload.get "booking_date") now

end Service

end Loyalty
