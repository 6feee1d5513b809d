import Progression.Double.Decimal

/-! # Shortest decimal text

A finite double is written with the digits of the coarsest decimal grid that holds a number reading
back as the double: of the two neighbours on that grid the one nearer to it, and of two equally near
ones the even. Where the point stands, and when an exponent is written, is for a layout to say. -/

namespace Progression.Double

/-- The decimal number `coefficient * 10 ^ exponent`. -/
structure DecimalDigits where
  coefficient : Nat
  exponent : Int
  deriving DecidableEq, Repr

/-- The multiple of `10 ^ e` next to the magnitude `r` of the given rank that reads back as it, if one
of the two neighbours does. -/
def gridPoint? (rank : Nat) (r : Rat) (e : Int) : Option Nat :=
  let below := (if 0 ≤ e then r / decimalRat 1 e else r * decimalRat 1 (-e)).floor.toNat
  let readsBack (c : Nat) : Bool := c != 0 && binary64.rankOf (decimalRat c e) == rank
  let belowReads := readsBack below
  let aboveReads := readsBack (below + 1)
  if belowReads && aboveReads then
    let toBelow := r - decimalRat below e
    let toAbove := decimalRat (below + 1) e - r
    if toBelow < toAbove ∨ (toBelow = toAbove ∧ below % 2 = 0) then some below else some (below + 1)
  else if belowReads then some below
  else if aboveReads then some (below + 1)
  else none

/-- The first hit on the grids of `10 ^ e`, `10 ^ (e - 1)` and so on. -/
def searchGrids (rank : Nat) (r : Rat) : Nat → Int → Option DecimalDigits
  | 0, _ => none
  | tries + 1, e =>
    match gridPoint? rank r e with
    | some c => some ⟨c, e⟩
    | none => searchGrids rank r tries (e - 1)

/-- All digits of the exact number `m * 2 ^ q`. -/
def exactDigits (m : Nat) (q : Int) : DecimalDigits :=
  if 0 ≤ q then ⟨m * Nat.pow 2 q.toNat, 0⟩ else ⟨m * Nat.pow 5 (-q).toNat, q⟩

/-- An exponent of ten at or above that of the leading digit of `r`: `3 / 10` is about `log10 2`, and
the error of that is less than one for the logarithms of doubles. -/
def gridStart (r : Rat) : Int :=
  let bits : Int := (r.num.natAbs.log2 : Int) - r.den.log2 + 1
  (bits * 30103) / 100000 + 1

/-- How many grids are tried: seventeen digits always suffice, and the first grids may be too coarse
to hold any digit. -/
def gridTries : Nat := 21

/-- The digits that a magnitude is written with. -/
def shortestDigits (rank : Nat) : DecimalDigits :=
  let r := binary64.magnitude rank
  (searchGrids rank r gridTries (gridStart r)).getD
    (exactDigits (binary64.significand rank) (binary64.exponent rank))

end Progression.Double
