/-! # Binary floating-point formats

The non-negative finite numbers of a format are numbered from zero in ascending order; the number of
such a magnitude is its rank. The ranks below `step` are the subnormals; the next block of `step` ranks
has the same distance between neighbours, and each block after it doubles that distance. An exact
rational is rounded to the nearest rank, a tie going to the even one. -/

namespace Progression

/-- The quotient `num / den` to the nearest integer, a tie going to the even one. -/
def roundQuotient (num den : Nat) : Nat :=
  let k := num / den
  let r := num % den
  if 2 * r < den ∨ (2 * r = den ∧ k % 2 = 0) then k else k + 1

/-- The exact number `m * 2 ^ q`. Powers are written as `Nat.pow`, which means the same whatever algebra
is in scope. -/
def dyadic (m : Nat) (q : Int) : Rat :=
  mkRat (m * Nat.pow 2 q.toNat : Nat) (Nat.pow 2 (-q).toNat)

/-- Significands of `precision` bits, the least power of two that scales them, and how many blocks of
equally spaced magnitudes are finite. -/
structure BinaryFormat where
  precision : Nat
  minExponent : Int
  blocks : Nat
  deriving DecidableEq, Repr

/-- Double precision. -/
def binary64 : BinaryFormat := ⟨53, -1074, 2047⟩

/-- Single precision. -/
def binary32 : BinaryFormat := ⟨24, -149, 255⟩

namespace BinaryFormat

/-- How many magnitudes share one spacing. -/
def step (f : BinaryFormat) : Nat := Nat.pow 2 (f.precision - 1)

/-- The rank that stands for infinity. -/
def limit (f : BinaryFormat) : Nat := f.blocks * f.step

/-- The integer that the magnitude of a rank has in units of `2 ^ exponent`. -/
def significand (f : BinaryFormat) (rank : Nat) : Nat :=
  if rank < f.step then rank else f.step + rank % f.step

/-- The binary exponent of the unit in the last place at a rank. -/
def exponent (f : BinaryFormat) (rank : Nat) : Int :=
  f.minExponent + (rank / f.step - 1 : Nat)

/-- The exact magnitude of a rank. -/
def magnitude (f : BinaryFormat) (rank : Nat) : Rat :=
  dyadic (f.significand rank) (f.exponent rank)

/-- The binary exponent of the unit in the last place next to the positive quotient `num / den`. -/
def quantum (f : BinaryFormat) (num den : Nat) : Int :=
  let q : Int := (num.log2 : Int) - den.log2 - f.precision
  let fits := num * Nat.pow 2 (-q).toNat < Nat.pow 2 f.precision * (den * Nat.pow 2 q.toNat)
  max f.minExponent (if fits then q else q + 1)

/-- The rank nearest to the absolute value of `r`, a tie going to the even rank. It may be `limit` or
more: then the number is out of range. -/
def rankOf (f : BinaryFormat) (r : Rat) : Nat :=
  if r.num = 0 then 0 else
    let num := r.num.natAbs
    let q := f.quantum num r.den
    (q - f.minExponent).toNat * f.step +
      roundQuotient (num * Nat.pow 2 (-q).toNat) (r.den * Nat.pow 2 q.toNat)

end BinaryFormat
end Progression
