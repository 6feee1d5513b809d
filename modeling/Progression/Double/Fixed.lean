import Progression.Double.Layout

/-! # Doubles to a fixed number of places

A finite double is rounded to a number of decimal places, or to a number of digits behind the leading
one. The rounding is that of the exact value, a tie going to the even digit. -/

namespace Progression.Double

/-- The integer nearest to `r * 10 ^ e`, for `r` not negative. -/
def scaledRound (r : Rat) (e : Int) : Nat :=
  let s := r * decimalRat 1 e
  roundQuotient s.num.natAbs s.den

/-- The digits of `n` with a point in front of the last `places` of them. -/
def withPoint (n places : Nat) : List Char :=
  let ds := Text.decimalDigits n
  let padded := zeros (places + 1 - ds.length) ++ ds
  let whole := padded.length - places
  padded.take whole ++ '.' :: padded.drop whole

/-- The text of a magnitude with `places` digits behind the point. -/
def fixedMagnitude (places : Nat) (r : Rat) : List Char := withPoint (scaledRound r places) places

/-- The largest `e` with `10 ^ e ≤ r`, looked for from an upper bound downwards. -/
def leadExponent (r : Rat) : Nat → Int → Int
  | 0, e => e
  | tries + 1, e => if decimalRat 1 e ≤ r then e else leadExponent r tries (e - 1)

/-- The text of a magnitude with one digit in front of the point, `places` behind it, and an exponent. -/
def scientificMagnitude (places : Nat) (r : Rat) : List Char :=
  if r = 0 then withPoint 0 places ++ exponentText 0
  else
    let lead := leadExponent r gridTries (gridStart r)
    let n := scaledRound r (places - lead)
    if n = Nat.pow 10 (places + 1) then withPoint (n / 10) places ++ exponentText (lead + 1)
    else withPoint n places ++ exponentText lead

/-- The text of a double whose magnitude is written by `magnitude`. -/
def formatted (magnitude : Rat → List Char) : Double → List Char
  | .finite s rank => (if s then ['-'] else []) ++ magnitude (binary64.magnitude rank)
  | v => v.chars

/-- The text of a double with `places` digits behind the point. -/
def fixed (places : Nat) (v : Double) : List Char := formatted (fixedMagnitude places) v

/-- The text of a double with an exponent and `places` digits behind the point. -/
def scientificText (places : Nat) (v : Double) : List Char := formatted (scientificMagnitude places) v

end Progression.Double
