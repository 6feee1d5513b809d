import Progression.Double.Basic

/-! # Powers and logarithms

The signs, zeros, infinities and undefined cases of `a ^ b` and `ln a` are spelled out; only the
magnitude of a power of a positive finite number and the logarithm of such a number are computed by
the machine's own functions, on the same bits. -/

namespace Progression.Double

/-- The weight of the sign bit. -/
def signBit : Nat := Nat.pow 2 63

/-- The bits of a double in the usual interchange layout: a sign bit above the rank. -/
def toBits : Double → UInt64
  | .nan => 0x7ff8000000000000
  | .infinite s => UInt64.ofNat (binary64.limit + (if s then signBit else 0))
  | .finite s rank => UInt64.ofNat (rank.val + (if s then signBit else 0))

def ofBits (bits : UInt64) : Double :=
  let s := decide (signBit ≤ bits.toNat)
  let rank := bits.toNat % signBit
  if h : rank < binary64.limit then .finite s ⟨rank, h⟩
  else if rank = binary64.limit then .infinite s
  else .nan

/-- The machine's power of two positive finite arguments; never negative. -/
def powMagnitude (a b : Double) : Double :=
  abs (ofBits ((Float.ofBits a.toBits).pow (Float.ofBits b.toBits)).toBits)

/-- The machine's logarithm of a positive finite number. -/
def lnPositive (a : Double) : Double :=
  ofBits (Float.ofBits a.toBits).log.toBits

/-- `a` to the power of an infinity: it hangs on how `|a|` compares with 1. -/
def powInfinite (a : Double) (down : Bool) : Double :=
  if same a.abs 1 then 1
  else if less 1 a.abs = down then zero false
  else .infinite false

/-- `a ^ b`. Every number to the power 0, and 1 to every power, is 1. A negative base keeps its sign
under odd exponents, and has no power for exponents that are no integers. -/
def pow (a b : Double) : Double :=
  if b.isZero || a = 1 then 1
  else
    match a, b with
    | .nan, _ | _, .nan => .nan
    | _, .infinite down => powInfinite a down
    | .infinite s, _ =>
      let sign := s && b.isOdd
      if b.negative then zero sign else .infinite sign
    | .finite s rank, _ =>
      let sign := s && b.isOdd
      if rank.val = 0 then
        if b.negative then .infinite sign else zero sign
      else if s && !b.isInteger then .nan
      else (powMagnitude a.abs b).withSign sign

/-- The natural logarithm. Both zeros have `-∞`, negative numbers have none. -/
def ln (a : Double) : Double :=
  if a.isZero then .infinite true
  else if a.negative then .nan
  else if a.isFinite then lnPositive a
  else a

end Progression.Double
