import Progression.Double.Basic
import Progression.Text.Numeral

/-! # Reading decimal numbers

A decimal `coefficient * 10 ^ exponent` is read as the nearest double, ties to even. Exponents so large
or so small that the answer is plain from the sizes alone are decided without computing the power. -/

namespace Progression

/-- The exact number `c * 10 ^ e`. -/
def decimalRat (c : Nat) (e : Int) : Rat :=
  mkRat (c * Nat.pow 10 e.toNat : Nat) (Nat.pow 10 (-e).toNat)

namespace Double

/-- The double nearest to `±c * 10 ^ e`. Since `8 < 10`, the number is at least `2 ^ 1024` if
`log2 c + 3 e` is at least 1024 and `e` is not negative, and below `2 ^ -1075` if `e` is negative and
`log2 c + 1 + 3 e` is at most -1075. -/
def ofDecimal (negative : Bool) (c : Nat) (e : Int) : Double :=
  if c = 0 then zero negative
  else if 0 ≤ e ∧ 1024 ≤ c.log2 + 3 * e then .infinite negative
  else if e < 0 ∧ c.log2 + 1 + 3 * e ≤ -1075 then zero negative
  else signed negative (decimalRat c e)

end Double

namespace Text.Literal

/-- The double nearest to the number that a literal writes. -/
def toDouble (l : Literal) : Double := Double.ofDecimal l.negative l.coefficient l.scale

end Text.Literal

namespace Double

/-- The number that a word without its sign names. -/
def ofWord? (cs : List Char) : Option Double :=
  let word := cs.map Char.toLower
  if word = "inf".toList ∨ word = "infinity".toList then some (.infinite false)
  else if word = "nan".toList then some .nan
  else none

/-- The double that a free text writes: a literal, an infinity or not-a-number. -/
def read? (cs : List Char) : Option Double :=
  (Text.numeral? cs).bind fun cs =>
    match Text.Literal.ofText? cs with
    | some l => some l.toDouble
    | none =>
      let (sign, word) := Text.Sign.scan cs
      (ofWord? word).map fun v => if sign = .minus then -v else v

end Double
end Progression
