import Progression.Conversion

/-! # Intervals

An interval, both ends included, moves every value into itself: either to the nearer end, or by walking
round the interval as a cycle of integer steps. Its ends are mostly integers, but may be any values that
can be ordered. -/

namespace Progression

/-- An interval; it wraps if `wraps` counts as true. -/
structure Interval where
  least : Value
  greatest : Value
  wraps : Value
  ordered : least.greater greatest = .ok false
  deriving DecidableEq

/-- Where a value lies with respect to an interval. -/
inductive Side where
  | below
  | within
  | above
  deriving DecidableEq

def Side.name : Side → String
  | below => "BELOW"
  | within => "WITHIN"
  | above => "ABOVE"

namespace Interval

/-- The interval between two values; the first must not be the greater one. -/
def ofEnds (least greatest wraps : Value) : Except Fault Interval :=
  match h : least.greater greatest with
  | .ok false => .ok ⟨least, greatest, wraps, h⟩
  | .ok true => .error (Fault.emptyInterval least greatest).worded
  | .error f => .error f

/-- The length of the cycle: how many integers an interval between integers holds. -/
def size (i : Interval) : Except Fault Value := do
  Value.operate .plus (← Value.operate .minus i.greatest i.least) (.int 1)

def side (i : Interval) (n : Value) : Except Fault Side := do
  if ← n.less i.least then return .below
  if ← n.greater i.greatest then return .above
  return .within

/-- How far a value beyond an end is past that end, whole cycles not counted. -/
def past (i : Interval) (upper lower : Value) : Except Fault Value := do
  Value.operate .modulo (← Value.operate .minus upper lower) (← i.size)

/-- Moves a value into the interval. Going round, the distance to the end it lies beyond is counted off
from the other end. -/
def apply (i : Interval) (n : Value) : Except Fault Value := do
  match ← i.side n with
  | .within => return n
  | .below =>
    if !i.wraps.isTruthy then return i.least
    let past ← i.past i.least n
    if past.same (.int 0) then return i.least
    Value.operate .plus (← Value.operate .minus i.greatest past) (.int 1)
  | .above =>
    if !i.wraps.isTruthy then return i.greatest
    let past ← i.past n i.greatest
    if past.same (.int 0) then return i.greatest
    Value.operate .minus (← Value.operate .plus i.least past) (.int 1)

/-- The form in which messages quote an interval. -/
def quoted (i : Interval) : Except Fault String := do
  return "Bound(min=" ++ (← i.least.quote) ++ ", max=" ++ (← i.greatest.quote) ++ ", wrap=" ++
    (← i.wraps.quote) ++ ")"

/-- A saved interval; without a word on it, it does not wrap. -/
structure Saved where
  least : Option Value
  greatest : Option Value
  wraps : Option Value
  deriving DecidableEq

def save (i : Interval) : Saved := ⟨some i.least, some i.greatest, some i.wraps⟩

def restore (saved : Saved) : Except Fault Interval :=
  match saved.least, saved.greatest with
  | none, _ => .error (.missing "min")
  | _, none => .error (.missing "max")
  | some least, some greatest => ofEnds least greatest (saved.wraps.getD (.truth false))

end Interval
end Progression
