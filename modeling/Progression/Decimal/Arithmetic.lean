import Progression.Decimal.Basic

/-! # Sums and remainders of decimals

Results keep a fixed number of digits and an exponent within fixed limits, a tie going to the even
coefficient. A result below the limits loses digits, down to zero; one above them is a fault. Operands
may have exponents of any size: where two are so far apart that only the direction of the smaller one
can matter, it is replaced by a unit just below the digits that are kept. -/

namespace Progression.Decimal

/-- How many digits a result keeps. -/
def precision : Nat := 28

/-- The greatest exponent of the first digit of a result. -/
def greatestLead : Int := 999999

/-- The least exponent of a result: that of the last of `precision` digits if the first one stands at
`-greatestLead`. -/
def leastExponent : Int := -greatestLead - (precision - 1)

/-- Why an operation on decimals has no result. -/
inductive Fault where
  | undefined
  | undefinedQuotient
  | quotientTooLong
  | overflow
  deriving DecidableEq

def Fault.message : Fault → String
  | undefined => "[<class 'decimal.InvalidOperation'>]"
  | undefinedQuotient => "[<class 'decimal.DivisionUndefined'>]"
  | quotientTooLong => "[<class 'decimal.DivisionImpossible'>]"
  | overflow => "[<class 'decimal.Overflow'>]"

/-- How many digits a coefficient has; zero has one. -/
def digitCount (c : Nat) : Nat := (Text.decimalDigits c).length

/-- The exponent of the first digit. -/
def lead (c : Nat) (e : Int) : Int := e + digitCount c - 1

/-- The coefficient `c / 10 ^ drop`, rounded. Where `drop` exceeds the digits of `c`, that is zero. -/
def dropDigits (c drop : Nat) : Nat :=
  if digitCount c < drop then 0 else roundQuotient c (Nat.pow 10 drop)

/-- A number rounded to the digits and within the limits of a result. -/
def round (negative : Bool) (c : Nat) (e : Int) : Except Fault Decimal :=
  if c = 0 then .ok (.finite negative 0 (max leastExponent (min e greatestLead)))
  else
    let unit := max leastExponent (e + (digitCount c - precision : Nat))
    let kept := dropDigits c (unit - e).toNat
    let (kept, unit) := if kept = Nat.pow 10 precision then (kept / 10, unit + 1) else (kept, unit)
    if kept ≠ 0 ∧ greatestLead < lead kept unit then .error .overflow
    else .ok (.finite negative kept unit)

/-- The coefficient in units of `10 ^ unit`, where `unit` is at most `e`. -/
def inUnits (c : Nat) (e unit : Int) : Nat :=
  if c = 0 then 0 else c * Nat.pow 10 (e - unit).toNat

def signedInt (negative : Bool) (n : Nat) : Int := if negative then -(n : Int) else n

/-- The exponent below which a digit can no longer change the rounding of a sum with `c * 10 ^ e`. -/
def floorOf (c : Nat) (e : Int) : Int := e - 1 + min 0 ((digitCount c : Int) - precision - 1)

/-- The smaller operand `d * 10 ^ f` as a sum with `c * 10 ^ e` needs it. -/
def nearby (c : Nat) (e : Int) (d : Nat) (f : Int) : Nat × Int :=
  if c ≠ 0 ∧ lead d f < floorOf c e then (min d 1, floorOf c e) else (d, f)

/-- The sum of two finite decimals, of which the first has the greater exponent. -/
def addFinite (s : Bool) (c : Nat) (e : Int) (t : Bool) (d : Nat) (f : Int) : Except Fault Decimal :=
  let (d, f) := nearby c e d f
  let unit := min e f
  let sum := signedInt s (inUnits c e unit) + signedInt t (inUnits d f unit)
  round (if sum = 0 then s && t else sum < 0) sum.natAbs unit

/-- The result of an operation with operands of which one is not a number. A signaling one is refused,
and of two quiet ones the first is the result. -/
def nanResult : Decimal → Decimal → Except Fault Decimal
  | .nan _ true _, _ | _, .nan _ true _ => .error .undefined
  | .nan s _ payload, _ | _, .nan s _ payload => .ok (.nan s false payload)
  | a, _ => .ok a

/-- The sum of two decimals. Infinities of different signs have none. -/
def add (a b : Decimal) : Except Fault Decimal :=
  match a, b with
  | .nan .., _ | _, .nan .. => nanResult a b
  | .infinite s, .infinite t => if s = t then .ok a else .error .undefined
  | .infinite _, _ => .ok a
  | _, .infinite _ => .ok b
  | .finite s c e, .finite t d f => if f ≤ e then addFinite s c e t d f else addFinite t d f s c e

def neg : Decimal → Decimal
  | .finite s c e => .finite (!s) c e
  | .infinite s => .infinite !s
  | d => d

/-- The difference of two decimals. -/
def sub (a b : Decimal) : Except Fault Decimal := add a b.neg

/-- The remainder of finite decimals other than zero. The quotient must not have more digits than a
result keeps. -/
def remFinite (s : Bool) (c : Nat) (e : Int) (d : Nat) (f : Int) : Except Fault Decimal :=
  let unit := min e f
  if lead c e < lead d f then round s (inUnits c e unit) unit
  else if precision < lead c e - lead d f then .error .quotientTooLong
  else
    let x := inUnits c e unit
    let y := inUnits d f unit
    if Nat.pow 10 precision ≤ x / y then .error .quotientTooLong else round s (x % y) unit

/-- The remainder of the division truncated toward zero; it has the sign of `a`. -/
def rem (a b : Decimal) : Except Fault Decimal :=
  match a, b with
  | .nan .., _ | _, .nan .. => nanResult a b
  | .infinite _, _ => .error .undefined
  | .finite s c e, .infinite _ => round s c e
  | .finite s c e, .finite _ d f =>
    if d = 0 then .error (if c = 0 then .undefinedQuotient else .undefined)
    else if c = 0 then round s 0 (min e f)
    else remFinite s c e d f

end Progression.Decimal
