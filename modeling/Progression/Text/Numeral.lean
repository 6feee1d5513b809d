import Progression.Text.Blank
import Progression.Text.Literal

/-! # Numerals in free text

A numeral typed by a user may stand between blanks, and single underscores may group its digits. An integer
must not have too many digits; a number with a point may. -/

namespace Progression.Text

/-- Drops the underscores that stand between two digits; any other underscore is refused. The flag
says that the character before was a digit. -/
def ungroupFrom? : Bool → List Char → Option (List Char)
  | _, [] => some []
  | afterDigit, '_' :: c :: cs =>
    if afterDigit && isDigit c then (ungroupFrom? true cs).map (c :: ·) else none
  | _, c :: cs => if c = '_' then none else (ungroupFrom? (isDigit c) cs).map (c :: ·)

/-- The numeral in a free text, without blanks and underscores. -/
def numeral? (cs : List Char) : Option (List Char) := ungroupFrom? false (trim isNumeralBlank cs)

/-- The integer that a sign and digits write. -/
def signedDigits? (cs : List Char) : Option Int :=
  let (sign, digits) := Sign.scan cs
  if digits.isEmpty || !digits.all isDigit then none
  else if sign = .minus then some (-(digitsValue digits : Int)) else some (digitsValue digits)

/-- The digits that a free text begins with, behind blanks and a sign. If an underscore among them is out
of place, they are not looked at. -/
def leadingDigits (cs : List Char) : List Char :=
  let (_, rest) := Sign.scan (cs.dropWhile isNumeralBlank)
  (ungroupFrom? false (rest.takeWhile fun c => isDigit c || c == '_')).getD []

/-- The integer that a free text writes. Its digits are counted first, leading zeros and all. -/
def readInt? (cs : List Char) : Option Int :=
  if digitLimit < (leadingDigits cs).length then none else (numeral? cs).bind signedDigits?

/-- An integer in base ten. -/
def intDigits : Int → List Char
  | .ofNat n => decimalDigits n
  | .negSucc n => '-' :: decimalDigits (n + 1)

/-- Whether an integer has no more digits than may be written. -/
def hasFewDigits (n : Int) : Bool := n.natAbs < Nat.pow 10 digitLimit

end Progression.Text
