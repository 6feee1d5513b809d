import Progression.Proofs.Double.Operations
import Progression.Proofs.Machine.Standard

/-! # Libraries

A machine takes its operations from a library of functions that have a result everywhere. It traps in place of the
results that are exceptional, and the guards put back what the library would have come to. So behind the guards every
machine follows its library: quotients and remainders are those of the standard arithmetic, and powers and logarithms
obey their rules at all zeros, infinities and what is not a number. -/

namespace Progression

/-- Functions on all doubles. -/
structure Library where
  div : Double → Double → Double
  fmod : Double → Double → Double
  pow : Double → Double → Double
  log : Double → Double

namespace Library

/-- The functions are those of IEEE arithmetic and of the C library. -/
structure Conforms (l : Library) : Prop where
  div : ∀ a b, Double.IsQuotient a b (l.div a b)
  fmod : ∀ a b, Double.IsRemainder a b (l.fmod a b)
  pow : Double.PowerRules l.pow
  log : Double.LogRules l.log

/-- What an operator comes to. -/
def value (l : Library) : Operator → Double → Double → Double
  | .add, a, b => a + b
  | .sub, a, b => a - b
  | .mul, a, b => a * b
  | .div, a, b => l.div a b
  | .mod, a, b => l.fmod a b
  | .pow, a, b => l.pow a b
  | .log, a, b => l.div (l.log a) (l.log b)

/-- The arithmetic of doubles. -/
def arithmetic : Library := ⟨(· / ·), (· % ·), Double.pow, Double.ln⟩

theorem conforms_arithmetic : arithmetic.Conforms :=
  ⟨Double.isQuotient_div, Double.isRemainder_mod, Double.powerRules_pow, Double.logRules_ln⟩

theorem value_arithmetic (op : Operator) (a b : Double) : arithmetic.value op a b = op.apply a b := by
  cases op <;> rfl

end Library

namespace Machine

/-- The machine takes its results from the library, and traps as documented: a quotient at a zero divisor, a remainder
of a number by zero or of an infinity by a number, a power of finite numbers that is not finite. -/
structure Follows (m : Machine) (l : Library) : Prop where
  add : ∀ a b, m.add a b = .ok (a + b)
  sub : ∀ a b, m.sub a b = .ok (a - b)
  mul : ∀ a b, m.mul a b = .ok (a * b)
  div : ∀ a b, m.div a b = if b.isZero then .error .zeroDivision else .ok (l.div a b)
  fmod : ∀ a b, m.fmod a b =
    if (b.isZero && !a.isNaN) || (a.isInfinite && !b.isNaN) then .error .domain else .ok (l.fmod a b)
  pow : ∀ a b, m.pow a b =
    if a.isFinite && b.isFinite && !(l.pow a b).isFinite then
      .error (if (l.pow a b).isInfinite && !a.isZero then .overflow else .domain)
    else .ok (l.pow a b)
  log : ∀ a, Double.less 0 a → m.log a = .ok (l.log a)

theorem eq_nan_of_not {v : Double} (hfinite : v.isFinite = false) (hinfinite : v.isInfinite = false) : v = .nan := by
  cases v with
  | nan => rfl
  | infinite s => cases hinfinite
  | finite s n => cases hfinite

section Follows

variable {m : Machine} {l : Library} (hl : l.Conforms) (hm : m.Follows l) (a b : Double)
include hl hm

theorem quotient_of_follows : m.quotient a b = .ok (l.div a b) := by
  unfold quotient
  rw [hm.div]
  cases hb : b.isZero with
  | false => rfl
  | true =>
      rw [(hl.div a b).zero_divisor hb, if_pos rfl]
      dsimp only
      split
      · rfl
      · obtain ⟨t, rfl⟩ : ∃ t, b = .zero t := ⟨_, Double.eq_zero_of_isZero hb⟩
        rw [hm.mul, infinite_mul_one]

theorem remainder_of_follows : m.remainder a b = .ok (l.fmod a b) := by
  unfold remainder
  rw [hm.fmod]
  by_cases htrap : ((b.isZero && !a.isNaN) || (a.isInfinite && !b.isNaN)) = true
  · have hnan : l.fmod a b = .nan := by
      apply (hl.fmod a b).nan_iff.mpr
      rw [Bool.or_eq_true, Bool.and_eq_true, Bool.and_eq_true] at htrap
      rcases htrap with ⟨hzero, -⟩ | ⟨hinfinite, -⟩
      · exact .inr (.inr (.inr hzero))
      · exact .inr (.inr (.inl hinfinite))
    rw [if_pos htrap, hnan]
  · rw [if_neg htrap]

/-- What the trap of a power leaves open is told by the base: whether it is zero, and its sign. -/
theorem power_of_follows : m.power a b = .ok (l.pow a b) := by
  unfold power
  rw [hm.pow]
  by_cases htrap : (a.isFinite && b.isFinite && !(l.pow a b).isFinite) = true
  · rw [if_pos htrap]
    rw [Bool.and_eq_true, Bool.and_eq_true, Bool.not_eq_true'] at htrap
    obtain ⟨⟨ha, hb⟩, hfinite⟩ := htrap
    cases hzero : a.isZero with
    | false =>
        cases hinfinite : (l.pow a b).isInfinite with
        | true =>
            have hless : a.less 0 = a.negative := by rw [Double.less_zero_eq, hzero, Bool.not_false, Bool.and_true]
            rw [hl.pow.of_infinite ha hzero hinfinite, ← hless]
            rfl
        | false =>
            rw [eq_nan_of_not hfinite hinfinite]
            rfl
    | true =>
        obtain ⟨hnegative, hexponent⟩ := hl.pow.exponent_of_zero_base hzero hb hfinite
        rw [Bool.not_true, Bool.and_false, hl.pow.of_zero_base hzero hnegative hexponent]
        rfl
  · rw [if_neg htrap]

theorem ln_of_follows : m.ln a = .ok (l.log a) := by
  unfold ln
  by_cases hzero : a.isZero
  · rw [if_pos hzero, hl.log.zero a hzero]
  · rw [if_neg hzero]
    by_cases hnone : a.less 0 || a.isNaN
    · rw [if_pos hnone, hl.log.nan a hnone]
    · rw [if_neg hnone]
      exact hm.log a (Double.zero_less_iff.mpr ⟨hzero, hnone⟩)

theorem apply_of_follows (op : Operator) : m.apply op a b = .ok (l.value op a b) := by
  cases op with
  | add => exact hm.add a b
  | sub => exact hm.sub a b
  | mul => exact hm.mul a b
  | div => exact quotient_of_follows hl hm a b
  | mod => exact remainder_of_follows hl hm a b
  | pow => exact power_of_follows hl hm a b
  | log =>
      change m.logarithm a b = .ok (l.div (l.log a) (l.log b))
      unfold logarithm
      rw [ln_of_follows hl hm, ln_of_follows hl hm]
      exact quotient_of_follows hl hm (l.log a) (l.log b)

end Follows

theorem isNaN_iff (v : Double) : v.isNaN ↔ v = .nan := by
  cases v <;> simp [Double.isNaN]

theorem standardFmod_eq (a b : Double) : standardFmod a b =
    if (b.isZero && !a.isNaN) || (a.isInfinite && !b.isNaN) then .error .domain else .ok (a % b) := by
  have htrap : ((a % b).isNaN && !a.isNaN && !b.isNaN) =
      ((b.isZero && !a.isNaN) || (a.isInfinite && !b.isNaN)) := by
    rw [Bool.eq_iff_iff, Bool.and_eq_true, Bool.and_eq_true, isNaN_iff, (Double.isRemainder_mod a b).nan_iff]
    cases a <;> cases b <;> simp [Double.isNaN, Double.isInfinite, Double.isZero]
  unfold standardFmod
  rw [htrap]

theorem standardPow_eq (a b : Double) : standardPow a b =
    if a.isFinite && b.isFinite && !(a.pow b).isFinite then
      .error (if (a.pow b).isInfinite && !a.isZero then .overflow else .domain)
    else .ok (a.pow b) := by
  unfold standardPow
  dsimp only
  cases a.isFinite with
  | false => rfl
  | true =>
      cases b.isFinite with
      | false => rfl
      | true =>
          cases (a.pow b).isFinite with
          | true => rfl
          | false => cases (a.pow b).isInfinite && !a.isZero <;> rfl

/-- The standard machine takes its results from the arithmetic of doubles. -/
theorem follows_standard : standard.Follows .arithmetic where
  add _ _ := rfl
  sub _ _ := rfl
  mul _ _ := rfl
  div _ _ := rfl
  fmod := standardFmod_eq
  pow := standardPow_eq
  log a h := by
    obtain ⟨hzero, hnone⟩ := Double.zero_less_iff.mp h
    refine if_neg fun htrap => ?_
    rcases Bool.or_eq_true_iff.mp htrap with hless | hz
    · exact hnone (Bool.or_eq_true_iff.mpr (.inl hless))
    · exact hzero hz

/-- The operators at every pair of doubles. A quotient is that of IEEE arithmetic, a remainder is exact, and a logarithm
is the quotient of two natural ones, of which zeros have one below all numbers and negative numbers have none. A power
obeys its rules; so one that is too large, or that of zero to a negative exponent, is an infinity, and it is negative
exactly for a base with the sign and an exponent that is an odd integer. Whether it is one, the remainder by two tells.
And on every machine that follows a library, with the traps that are documented, the guarded operations come to what
the library does. -/
theorem operators_follow_library (a b : Double) :
    Double.IsQuotient a b (Operator.div.apply a b) ∧
      Double.IsRemainder a b (Operator.mod.apply a b) ∧
      Double.PowerRules Operator.pow.apply ∧
      (a.isFinite → a.isZero = false → (Operator.pow.apply a b).isInfinite →
        Operator.pow.apply a b = .infinite (a.negative && b.isOdd)) ∧
      (a.isZero → b.negative → b.isZero = false → Operator.pow.apply a b = .infinite (a.negative && b.isOdd)) ∧
      b.isOdd = (b.isInteger && (b.modulo 2).same 1) ∧
      Double.IsQuotient a.ln b.ln (Operator.log.apply a b) ∧
      Double.LogRules Double.ln ∧
      (∀ (m : Machine) (l : Library), l.Conforms → m.Follows l → ∀ op, m.apply op a b = .ok (l.value op a b)) ∧
      Library.arithmetic.Conforms ∧ standard.Follows .arithmetic ∧
      ∀ op, standard.apply op a b = .ok (op.apply a b) := by
  have hpow : Double.PowerRules Operator.pow.apply := Double.powerRules_pow
  refine ⟨Double.isQuotient_div a b, Double.isRemainder_mod a b, hpow, hpow.of_infinite, hpow.of_zero_base,
    Double.isOdd_eq_modulo b, Double.isQuotient_div a.ln b.ln, Double.logRules_ln, fun m l hl hm op => ?_,
    Library.conforms_arithmetic, follows_standard, apply_standard a b⟩
  exact apply_of_follows hl hm a b op

/-- The negative zero to the power -3: the machine traps, and the guard puts the negative infinity in place. The infinite
power of -2 is the positive one, as no infinity is odd. -/
theorem operators_follow_library_infinities :
    (Double.zero true).isZero ∧ (-3 : Double).negative ∧ (-3 : Double).isZero = false ∧
      Operator.pow.apply (.zero true) (-3) = .infinite true ∧
      (-2 : Double).isFinite ∧ (-2 : Double).isZero = false ∧
      Operator.pow.apply (-2) (.infinite false) = .infinite false ∧
      Library.arithmetic.Conforms ∧ standard.Follows .arithmetic ∧
      standard.pow (.zero true) (-3) = .error .domain ∧
      standard.apply .pow (.zero true) (-3) = .ok (.infinite true) := by
  obtain ⟨-, -, -, -, hzero, -, -, -, hmachine, hconforms, hfollows, -⟩ := operators_follow_library (.zero true) (-3)
  obtain ⟨-, -, -, hoverflow, -⟩ := operators_follow_library (-2) (.infinite false)
  have hbase : (Double.zero true).isZero := rfl
  have hnegative : (-3 : Double).negative := by decide +kernel
  have hexponent : (-3 : Double).isZero = false := by decide +kernel
  have hodd : (-3 : Double).isOdd = true := by decide +kernel
  have hfinite : (-2 : Double).isFinite := by decide +kernel
  have hnonzero : (-2 : Double).isZero = false := by decide +kernel
  have hinfinite : (Operator.pow.apply (-2) (.infinite false)).isInfinite := by decide +kernel
  have hpow : Operator.pow.apply (.zero true) (-3) = .infinite true := by
    rw [hzero hbase hnegative hexponent, hodd]
    rfl
  have hpower : Operator.pow.apply (-2) (.infinite false) = .infinite false := by
    rw [hoverflow hfinite hnonzero hinfinite]
    exact congrArg Double.infinite (Bool.and_false _)
  have htrap : standard.pow (.zero true) (-3) = .error .domain := by decide +kernel
  refine ⟨hbase, hnegative, hexponent, hpow, hfinite, hnonzero, hpower, hconforms, hfollows, htrap, ?_⟩
  rw [hmachine standard .arithmetic hconforms hfollows, Library.value_arithmetic, hpow]

end Machine
end Progression
