import Progression.Double.Layout

/-! # Decimal numbers

A decimal number keeps the digits it was written with: its coefficient and exponent, so that `2.50` and
`2.5` are two decimals of one value. Besides there are infinities and two kinds of not-a-number, which
may carry digits of their own. -/

namespace Progression

inductive Decimal where
  | finite (negative : Bool) (coefficient : Nat) (exponent : Int)
  | infinite (negative : Bool)
  | nan (negative signaling : Bool) (payload : Nat)
  deriving DecidableEq

namespace Decimal

/-- The decimal that an integer is. -/
def ofInt (n : Int) : Decimal := .finite (n < 0) n.natAbs 0

/-- The word without its sign, as an infinity or not-a-number with the digits behind the word. -/
def ofWord? (negative : Bool) (cs : List Char) : Option Decimal :=
  let word := cs.map Char.toLower
  let payload? (ds : List Char) : Option Nat :=
    if ds.all Text.isDigit then some (Text.digitsValue ds) else none
  match word with
  | 'n' :: 'a' :: 'n' :: ds => (payload? ds).map (.nan negative false)
  | 's' :: 'n' :: 'a' :: 'n' :: ds => (payload? ds).map (.nan negative true)
  | _ => if word = "inf".toList ∨ word = "infinity".toList then some (.infinite negative) else none

/-- The decimal that a free text writes. Underscores may stand anywhere between its blanks. -/
def read? (cs : List Char) : Option Decimal :=
  let cs := (Text.strip cs).filter (· != '_')
  match Text.Literal.ofText? cs with
  | some l => some (.finite l.negative l.coefficient l.scale)
  | none =>
    let (sign, word) := Text.Sign.scan cs
    ofWord? (sign == .minus) word

/-- The sign in front of a number. -/
def signChars (negative : Bool) : List Char := if negative then ['-'] else []

/-- Coefficient and exponent: positional if the exponent is not above zero and the first digit stands
at most six places behind the point, and otherwise with an exponent after the mark `E`. -/
def finiteChars (c : Nat) (e : Int) : List Char :=
  let ds := Text.decimalDigits c
  let places := e + ds.length
  if e ≤ 0 ∧ -6 < places then
    if 0 < places then
      let whole := places.toNat
      ds.take whole ++ (if whole < ds.length then '.' :: ds.drop whole else [])
    else '0' :: '.' :: (Double.zeros (-places).toNat ++ ds)
  else
    (match ds with
      | [] => []
      | [d] => [d]
      | d :: more => d :: '.' :: more) ++
    'E' :: (if places < 1 then '-' else '+') :: Text.decimalDigits (places - 1).natAbs

/-- The text of a decimal. -/
def chars : Decimal → List Char
  | .finite s c e => signChars s ++ finiteChars c e
  | .infinite s => signChars s ++ "Infinity".toList
  | .nan s signaling payload =>
    signChars s ++ (if signaling then ['s'] else []) ++ "NaN".toList ++
      (if payload = 0 then [] else Text.decimalDigits payload)

def toText (d : Decimal) : String := String.ofList d.chars

def isNaN : Decimal → Bool
  | .nan .. => true
  | _ => false

/-- Whether the decimal is a not-a-number that no operation accepts. -/
def isSignaling : Decimal → Bool
  | .nan _ signaling _ => signaling
  | _ => false

/-- The magnitude `c * 10 ^ e` without its fraction. Zero needs no power, and neither does an exponent
that outweighs all digits of `c`: `c < 2 ^ (log2 c + 1)`. -/
def truncateMagnitude (c : Nat) (e : Int) : Nat :=
  if c = 0 then 0
  else if 0 ≤ e then c * Nat.pow 10 e.toNat
  else if (c.log2 + 1 : Nat) < -e then 0
  else c / Nat.pow 10 (-e).toNat

/-- The integer part of a finite decimal. -/
def truncate? : Decimal → Option Int
  | .finite s c e => some (if s then -(truncateMagnitude c e : Int) else truncateMagnitude c e)
  | _ => none

/-- Whether the decimal is a finite integer. -/
def isInteger : Decimal → Bool
  | .finite _ c e =>
    c == 0 || decide (0 ≤ e) || (decide (-e ≤ (c.log2 + 1 : Nat)) && c % Nat.pow 10 (-e).toNat == 0)
  | _ => false

/-- The integer that the decimal is. -/
def toInt? (d : Decimal) : Option Int := if d.isInteger then d.truncate? else none

/-- The nearest double. A signaling not-a-number has none; a number out of range becomes an infinity. -/
def toDouble? : Decimal → Option Double
  | .finite s c e => some (Double.ofDecimal s c e)
  | .infinite s => some (.infinite s)
  | .nan _ signaling _ => if signaling then none else some .nan

end Decimal
end Progression
