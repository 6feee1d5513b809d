import Progression.Double.Format

/-! # Double-precision numbers

A double is not-a-number, a signed infinity, or a sign with the rank of a finite magnitude; so two
doubles are equal here exactly if their bits are, and `-0` differs from `0`. The arithmetic takes the
exact rational result and rounds it once. -/

namespace Progression

/-- A double-precision number. All not-a-number bit patterns are one value. -/
inductive Double where
  | nan
  | infinite (negative : Bool)
  | finite (negative : Bool) (rank : Fin binary64.limit)
  deriving DecidableEq

namespace Double

/-- The zero of a sign. -/
def zero (negative : Bool) : Double := .finite negative ⟨0, by decide⟩

/-- The number with the given sign nearest to `|r|`, an infinity if `|r|` is out of range. -/
def signed (negative : Bool) (r : Rat) : Double :=
  if h : binary64.rankOf r < binary64.limit then .finite negative ⟨binary64.rankOf r, h⟩
  else .infinite negative

/-- The number nearest to `r`, ties to even. -/
def ofRat (r : Rat) : Double := signed (r < 0) r

/-- The number nearest to `n`, ties to even. -/
def ofInt (n : Int) : Double := ofRat n

instance (n : Nat) : OfNat Double n := ⟨ofInt n⟩

def negative : Double → Bool
  | .nan => false
  | .infinite s => s
  | .finite s _ => s

def isNaN : Double → Bool
  | .nan => true
  | _ => false

def isInfinite : Double → Bool
  | .infinite _ => true
  | _ => false

def isFinite : Double → Bool
  | .finite _ _ => true
  | _ => false

def isZero : Double → Bool
  | .finite _ rank => rank.val == 0
  | _ => false

/-- The exact value of a finite number. -/
def toRat? : Double → Option Rat
  | .finite s rank => some (if s then -binary64.magnitude rank else binary64.magnitude rank)
  | _ => none

/-- The number of a finite double's integer part, the fraction being dropped. -/
def truncate? (v : Double) : Option Int :=
  v.toRat?.map fun r => Int.tdiv r.num r.den

def neg : Double → Double
  | .nan => .nan
  | .infinite s => .infinite !s
  | .finite s rank => .finite (!s) rank

instance : Neg Double := ⟨neg⟩

def abs : Double → Double
  | .nan => .nan
  | .infinite _ => .infinite false
  | .finite _ rank => .finite false rank

/-- The magnitude of `v` with the sign of `s`. -/
def withSign (s : Bool) (v : Double) : Double :=
  if v.negative = s then v else -v

/-- The place of a number on the line from `-∞` to `∞`, both zeros being at 0. -/
def position? : Double → Option Int
  | .nan => none
  | .infinite s => some (if s then -binary64.limit else binary64.limit)
  | .finite s rank => some (if s then -rank.val else rank.val)

/-- Whether `a < b`: never if one of them is not a number. -/
def less (a b : Double) : Bool :=
  match a.position?, b.position? with
  | some i, some j => i < j
  | _, _ => false

/-- Whether the two are the same number: the zeros are, and not-a-number differs from itself. -/
def same (a b : Double) : Bool :=
  match a.position?, b.position? with
  | some i, some j => i == j
  | _, _ => false

/-- Rounds an exact result; an exact zero takes the sign `zeroNegative`. -/
def roundExact (zeroNegative : Bool) (r : Rat) : Double :=
  if r = 0 then zero zeroNegative else ofRat r

def add (a b : Double) : Double :=
  match a, b with
  | .nan, _ | _, .nan => .nan
  | .infinite s, .infinite t => if s = t then a else .nan
  | .infinite _, _ => a
  | _, .infinite _ => b
  | .finite s m, .finite t n =>
    let signedOf (s : Bool) (m : Fin binary64.limit) : Rat :=
      if s then -binary64.magnitude m else binary64.magnitude m
    roundExact (s && t) (signedOf s m + signedOf t n)

def sub (a b : Double) : Double := add a (-b)

def mul (a b : Double) : Double :=
  match a, b with
  | .nan, _ | _, .nan => .nan
  | .infinite s, _ => if b.isZero then .nan else .infinite (s ^^ b.negative)
  | _, .infinite t => if a.isZero then .nan else .infinite (a.negative ^^ t)
  | .finite s m, .finite t n => signed (s ^^ t) (binary64.magnitude m * binary64.magnitude n)

def div (a b : Double) : Double :=
  match a, b with
  | .nan, _ | _, .nan => .nan
  | .infinite _, .infinite _ => .nan
  | .infinite s, .finite t _ => .infinite (s ^^ t)
  | .finite s _, .infinite t => zero (s ^^ t)
  | .finite s m, .finite t n =>
    if n.val = 0 then
      if m.val = 0 then .nan else .infinite (s ^^ t)
    else signed (s ^^ t) (binary64.magnitude m / binary64.magnitude n)

/-- The remainder of the division truncated toward zero; it is exact and has the sign of `a`. -/
def rem (a b : Double) : Double :=
  match a, b with
  | .nan, _ | _, .nan => .nan
  | .infinite _, _ => .nan
  | .finite _ _, .infinite _ => a
  | .finite s m, .finite _ n =>
    if n.val = 0 then .nan
    else
      let x := binary64.magnitude m
      let y := binary64.magnitude n
      signed s (x - y * (x / y).floor)

instance : Add Double := ⟨add⟩
instance : Sub Double := ⟨sub⟩
instance : Mul Double := ⟨mul⟩
instance : Div Double := ⟨div⟩
instance : Mod Double := ⟨rem⟩

/-- The remainder of the division rounded down: it has the sign of `b`, even where it is zero. -/
def modulo (a b : Double) : Double :=
  let r := a % b
  if r.isZero then zero b.negative
  else if r.isNaN || r.negative == b.negative then r
  else r + b

/-- Whether `v` is a finite integer. -/
def isInteger (v : Double) : Bool :=
  v.toRat?.any fun r => r.den == 1

/-- Whether `v` is a finite odd integer. -/
def isOdd (v : Double) : Bool :=
  v.toRat?.any fun r => r.den == 1 && r.num % 2 != 0

/-- The nearest single-precision number, as a double. Out of range it is an infinity. -/
def toSingle : Double → Double
  | .finite s rank =>
    let n := binary32.rankOf (binary64.magnitude rank)
    if n < binary32.limit then signed s (binary32.magnitude n) else .infinite s
  | v => v

end Double
end Progression
