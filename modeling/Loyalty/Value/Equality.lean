import Loyalty.Value.Basic

/-!
# Equality of values

Two values are loosely equal when they have the same shape and equal leaves,
where a truth value counts as the integer 0 or 1 and numbers compare by exact
value; the order of an object's fields does not matter. Strict equality, the one
of conditions, differs at the top only: there a truth value equals no number.

Not-a-number and the mark of an absent field say nothing but what they are, so
equality has to be told whether those on its two sides are the same one.
-/

namespace Loyalty

/-- Whether values without contents of their own are the same one on two sides. -/
inductive Identity where
  /-- There is one of them, and it equals itself. -/
  | shared
  /-- Each side has its own, and they differ. -/
  | distinct
  deriving DecidableEq

namespace Value

/-- The number that a value counts as in a comparison. -/
def number? : Value → Option Number
  | .bool b => some (.int (if b then 1 else 0))
  | .number n => some n
  | _ => none

/-- Equality of two leaves that count as numbers. -/
def numberEq (nan : Identity) (x y : Number) : Bool :=
  x.eq y || (nan = .shared && x.isNaN && y.isNaN)

mutual

/-- Equality by shape and by the value of the leaves. -/
def looseEq (nan marks : Identity) : Value → Value → Bool
  | .null, .null => true
  | .bool a, w =>
    match w.number? with
    | some y => numberEq nan (.int (if a then 1 else 0)) y
    | none => false
  | .number x, w =>
    match w.number? with
    | some y => numberEq nan x y
    | none => false
  | .text s, .text t => s == t
  | .array k xs, .array l ys => k = l && looseEqItems nan marks xs ys
  | .object fs, .object gs => fs.length == gs.length && looseEqFields nan marks gs fs
  | .date d, .date e => d = e
  | .moment m, .moment n => m.same n
  | .missing, .missing => marks = .shared
  | _, _ => false

/-- Item by item equality of two arrays. -/
def looseEqItems (nan marks : Identity) : List Value → List Value → Bool
  | [], [] => true
  | x :: xs, y :: ys => looseEq nan marks x y && looseEqItems nan marks xs ys
  | _, _ => false

/-- Whether every field has an equal one under its key in another object. -/
def looseEqFields (nan marks : Identity) (others : Fields) : List (String × Value) → Bool
  | [] => true
  | (key, v) :: rest =>
    (match others.lookup key with
      | some w => looseEq nan marks v w
      | none => false) && looseEqFields nan marks others rest

end

/-- The equality of conditions: a truth value is only equal to a truth value, and
not-a-number to nothing. -/
def strictEq (marks : Identity) (v w : Value) : Bool :=
  v.isBool == w.isBool && looseEq .distinct marks v w

end Value

end Loyalty
