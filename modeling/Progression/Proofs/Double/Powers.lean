import Progression.Proofs.Double.Zeros

/-! # Powers and logarithms in their special cases

Powers and logarithms have rules for zeros, infinities, what is not a number and signs. They decide every result but the
magnitudes of the powers and logarithms of positive finite numbers, for which they leave it open what the functions
come to. -/

namespace Progression.Double

theorem negative_one : (1 : Double).negative = false := by decide +kernel

theorem isInfinite_one : (1 : Double).isInfinite = false := by decide +kernel

/-- The rules of a power. Only an odd exponent keeps the sign of the base. -/
structure PowerRules (pow : Double → Double → Double) : Prop where
  zero_exponent : ∀ a b, b.isZero → pow a b = 1
  one_base : ∀ b, pow 1 b = 1
  nan : ∀ a b, a ≠ 1 → b.isZero = false → a.isNaN ∨ b.isNaN → pow a b = .nan
  infinite_exponent_unit : ∀ a s, a.abs.same 1 → pow a (.infinite s) = 1
  infinite_exponent_below : ∀ a s, a.abs.less 1 → pow a (.infinite s) = if s then .infinite false else zero false
  infinite_exponent_above : ∀ a s, less 1 a.abs → pow a (.infinite s) = if s then zero false else .infinite false
  infinite_base : ∀ s b, b.isFinite → b.isZero = false →
    pow (.infinite s) b = if b.negative then zero (s && b.isOdd) else .infinite (s && b.isOdd)
  zero_base : ∀ s b, b.isFinite → b.isZero = false →
    pow (zero s) b = if b.negative then .infinite (s && b.isOdd) else zero (s && b.isOdd)
  fractional : ∀ a b, a.isFinite → a.less 0 → b.isFinite → b.isInteger = false → pow a b = .nan
  sign : ∀ a b, a.isFinite → a.isZero = false → b.isFinite → pow a b ≠ .nan →
    (pow a b).negative = (a.negative && b.isOdd)

/-- The rules of a logarithm. -/
structure LogRules (ln : Double → Double) : Prop where
  zero : ∀ a, a.isZero → ln a = .infinite true
  nan : ∀ a, a.less 0 || a.isNaN → ln a = .nan
  infinite : ln (.infinite false) = .infinite false

section Comparison

variable {v w : Double}

theorem less_iff : v.less w ↔ ∃ i j, v.position? = some i ∧ w.position? = some j ∧ i < j := by
  unfold less
  cases v.position? <;> cases w.position? <;> simp

theorem same_iff : v.same w ↔ ∃ i, v.position? = some i ∧ w.position? = some i := by
  unfold same
  cases v.position? with
  | none => simp
  | some i =>
      cases w.position? with
      | none => simp
      | some j => simp [@eq_comm _ i j]

theorem same_eq_false_of_less (h : v.less w ∨ w.less v) : v.same w = false := by
  refine Bool.eq_false_iff.mpr fun hsame => ?_
  obtain ⟨i, hv, hw⟩ := same_iff.mp hsame
  rcases h with h | h
  · obtain ⟨j, k, hj, hk, hlt⟩ := less_iff.mp h
    cases hv.symm.trans hj
    cases hw.symm.trans hk
    exact Int.lt_irrefl _ hlt
  · obtain ⟨j, k, hj, hk, hlt⟩ := less_iff.mp h
    cases hw.symm.trans hj
    cases hv.symm.trans hk
    exact Int.lt_irrefl _ hlt

theorem less_eq_false_of_less (h : v.less w) : w.less v = false := by
  refine Bool.eq_false_iff.mpr fun hless => ?_
  obtain ⟨i, j, hi, hj, hlt⟩ := less_iff.mp h
  obtain ⟨j', i', hj', hi', hlt'⟩ := less_iff.mp hless
  cases hi.symm.trans hi'
  cases hj.symm.trans hj'
  exact Int.lt_asymm hlt hlt'

theorem isNaN_of_abs_position {i : Int} (h : v.abs.position? = some i) : v.isNaN = false := by
  cases v with
  | nan => cases h
  | infinite s => rfl
  | finite s m => rfl

/-- A number is as far from zero as one, nearer, or farther. -/
theorem compare_one (hv : v.isNaN = false) : v.abs.same 1 ∨ v.abs.less 1 ∨ less 1 v.abs := by
  obtain ⟨j, hj⟩ : ∃ j, (1 : Double).position? = some j := ⟨_, rfl⟩
  obtain ⟨i, hi⟩ : ∃ i, v.abs.position? = some i := by
    cases v with
    | nan => cases hv
    | infinite s => exact ⟨_, rfl⟩
    | finite s m => exact ⟨_, rfl⟩
  rcases Int.lt_trichotomy i j with h | rfl | h
  · exact .inr (.inl (less_iff.mpr ⟨i, j, hi, hj, h⟩))
  · exact .inl (same_iff.mpr ⟨i, hi, hj⟩)
  · exact .inr (.inr (less_iff.mpr ⟨j, i, hj, hi, h⟩))

end Comparison

namespace PowerRules

variable {pow : Double → Double → Double} (h : PowerRules pow) {a b : Double}
include h

/-- A power of zero below the exponent zero is an infinity, a negative one exactly for the negative zero and an odd
exponent. -/
theorem of_zero_base (ha : a.isZero) (hb : b.negative) (hzero : b.isZero = false) :
    pow a b = .infinite (a.negative && b.isOdd) := by
  obtain ⟨s, rfl⟩ : ∃ s, a = zero s := ⟨_, eq_zero_of_isZero ha⟩
  cases b with
  | nan => cases hb
  | infinite t =>
      obtain rfl : t = true := hb
      have hbelow : (zero s).abs.less 1 := by cases s <;> decide +kernel
      rw [h.infinite_exponent_below _ _ hbelow]
      exact congrArg infinite (Bool.and_false _).symm
  | finite t n =>
      rw [h.zero_base s _ rfl hzero, if_pos hb]
      rfl

/-- Only below the exponent zero is a power of zero to a finite exponent not finite. -/
theorem exponent_of_zero_base (ha : a.isZero) (hb : b.isFinite) (hpow : (pow a b).isFinite = false) :
    b.negative ∧ b.isZero = false := by
  obtain ⟨s, rfl⟩ : ∃ s, a = zero s := ⟨_, eq_zero_of_isZero ha⟩
  cases hzero : b.isZero with
  | true =>
      rw [h.zero_exponent _ _ hzero] at hpow
      exact absurd hpow (by decide +kernel)
  | false =>
      refine ⟨?_, rfl⟩
      rw [h.zero_base s b hb hzero] at hpow
      by_cases hnegative : b.negative
      · exact hnegative
      · rw [if_neg hnegative] at hpow
        cases hpow

/-- An infinite exponent never makes a negative infinity. -/
theorem of_infinite_exponent {t : Bool} (ha : a.isNaN = false) (hinfinite : (pow a (.infinite t)).isInfinite) :
    pow a (.infinite t) = .infinite false := by
  rcases compare_one ha with hunit | hbelow | habove
  · rw [h.infinite_exponent_unit a t hunit, isInfinite_one] at hinfinite
    cases hinfinite
  · rw [h.infinite_exponent_below a t hbelow] at hinfinite ⊢
    cases t with
    | false => cases hinfinite
    | true => rfl
  · rw [h.infinite_exponent_above a t habove] at hinfinite ⊢
    cases t with
    | false => rfl
    | true => cases hinfinite

/-- A power of a finite number other than zero that is too large is an infinity, a negative one exactly for a negative
base and an odd exponent. -/
theorem of_infinite (ha : a.isFinite) (hzero : a.isZero = false) (hinfinite : (pow a b).isInfinite) :
    pow a b = .infinite (a.negative && b.isOdd) := by
  cases b with
  | nan =>
      by_cases hone : a = 1
      · rw [hone, h.one_base, isInfinite_one] at hinfinite
        cases hinfinite
      · rw [h.nan a .nan hone rfl (.inr rfl)] at hinfinite
        cases hinfinite
  | infinite t =>
      obtain ⟨s, m, rfl⟩ := exists_finite_of_isFinite ha
      rw [h.of_infinite_exponent rfl hinfinite]
      exact congrArg infinite (Bool.and_false _).symm
  | finite t n =>
      have hpow := eq_infinite_of_isInfinite hinfinite
      have hnan : pow a (.finite t n) ≠ .nan := by
        rw [hpow]
        exact fun h => by cases h
      rw [h.sign a _ ha hzero rfl hnan] at hpow
      exact hpow

end PowerRules

/-! ## The power and the logarithm of doubles -/

/-- A magnitude with a sign is not a number, or an infinity or a finite number of that sign. -/
theorem withSign_abs_cases (s : Bool) (v : Double) :
    withSign s v.abs = .nan ∨ withSign s v.abs = .infinite s ∨ ∃ n, withSign s v.abs = .finite s n := by
  cases v with
  | nan => cases s <;> exact .inl rfl
  | infinite t => cases s <;> exact .inr (.inl rfl)
  | finite t n => cases s <;> exact .inr (.inr ⟨n, rfl⟩)

theorem isOdd_of_isZero {v : Double} (h : v.isZero) : v.isOdd = false := by
  rw [eq_zero_of_isZero h]
  cases v.negative <;> decide +kernel

theorem pow_zero_exponent (a : Double) {b : Double} (hb : b.isZero) : a.pow b = 1 := by
  unfold pow
  rw [hb, Bool.true_or]
  rfl

theorem one_pow (b : Double) : pow 1 b = 1 := by
  unfold pow
  rw [decide_eq_true rfl, Bool.or_true]
  rfl

/-- The power to an infinity. It is one for the base one, as for every unit. -/
theorem pow_infinite {a : Double} (ha : a.isNaN = false) (s : Bool) : a.pow (.infinite s) = powInfinite a s := by
  by_cases hone : a = 1
  · have hunit : (1 : Double).abs.same 1 := by decide +kernel
    rw [hone, one_pow, powInfinite, if_pos hunit]
  · unfold pow
    rw [decide_eq_false hone]
    cases a with
    | nan => cases ha
    | infinite t => rfl
    | finite t m => rfl

section Finite

variable {s t : Bool} {m n : Fin binary64.limit}

/-- A negative number has no power to a fraction. -/
theorem pow_fraction (hm : m.val ≠ 0) (hfraction : (finite t n).isInteger = false) :
    (finite true m).pow (finite t n) = .nan := by
  have hbase : finite true m ≠ 1 := by
    intro h
    have hsign : true = (1 : Double).negative := congrArg negative h
    rw [negative_one] at hsign
    cases hsign
  have hexponent : (finite t n).isZero = false := by
    refine Bool.eq_false_iff.mpr fun h => ?_
    rw [eq_zero_of_isZero h] at hfraction
    exact absurd hfraction (by cases (finite t n).negative <;> decide +kernel)
  rw [pow_finite hbase hexponent, if_neg hm, hfraction]
  rfl

/-- Only an odd exponent keeps the sign of a finite base. -/
theorem negative_pow (hm : m.val ≠ 0) (hnan : (finite s m).pow (finite t n) ≠ .nan) :
    ((finite s m).pow (finite t n)).negative = (s && (finite t n).isOdd) := by
  by_cases hone : finite s m = 1
  · have hs : s = false := (congrArg negative hone).trans negative_one
    rw [hone, one_pow, negative_one, hs, Bool.false_and]
  by_cases hexponent : (finite t n).isZero
  · rw [pow_zero_exponent _ hexponent, negative_one, isOdd_of_isZero hexponent, Bool.and_false]
  rw [pow_finite hone (Bool.eq_false_iff.mpr hexponent), if_neg hm] at hnan ⊢
  split at hnan
  · exact absurd rfl hnan
  · rename_i hfraction
    rw [if_neg hfraction]
    unfold powMagnitude at hnan ⊢
    rcases withSign_abs_cases (s && (finite t n).isOdd) _ with h | h | ⟨k, h⟩
    · exact absurd h hnan
    · rw [h]
      rfl
    · rw [h]
      rfl

end Finite

theorem powerRules_pow : PowerRules pow where
  zero_exponent a b hb := pow_zero_exponent a hb
  one_base := one_pow
  nan a b hone hzero hnan := by
    unfold pow
    rw [hzero, decide_eq_false hone]
    rcases hnan with ha | hb
    · rw [eq_nan_of_isNaN ha]
      rfl
    · rw [eq_nan_of_isNaN hb]
      cases a <;> rfl
  infinite_exponent_unit a s h := by
    obtain ⟨i, hi, -⟩ := same_iff.mp h
    rw [pow_infinite (isNaN_of_abs_position hi), powInfinite, if_pos h]
  infinite_exponent_below a s h := by
    obtain ⟨i, j, hi, -, -⟩ := less_iff.mp h
    rw [pow_infinite (isNaN_of_abs_position hi), powInfinite, same_eq_false_of_less (.inl h), less_eq_false_of_less h]
    cases s <;> rfl
  infinite_exponent_above a s h := by
    obtain ⟨i, j, -, hj, -⟩ := less_iff.mp h
    rw [pow_infinite (isNaN_of_abs_position hj), powInfinite, same_eq_false_of_less (.inr h), h]
    cases s <;> rfl
  infinite_base s b hb hzero := by
    obtain ⟨t, n, rfl⟩ := exists_finite_of_isFinite hb
    have hbase : infinite s ≠ 1 := fun h => by cases h
    unfold pow
    rw [hzero, decide_eq_false hbase]
    rfl
  zero_base s b hb hzero := by
    obtain ⟨t, n, rfl⟩ := exists_finite_of_isFinite hb
    exact zero_pow_finite s t n hzero
  fractional a b ha hless hb hinteger := by
    obtain ⟨s, m, rfl⟩ := exists_finite_of_isFinite ha
    obtain ⟨t, n, rfl⟩ := exists_finite_of_isFinite hb
    rw [less_zero_eq, Bool.and_eq_true, Bool.not_eq_true'] at hless
    obtain ⟨hnegative, hzero⟩ := hless
    obtain rfl : s = true := hnegative
    exact pow_fraction (beq_eq_false_iff_ne.mp hzero) hinteger
  sign a b ha hzero hb hnan := by
    obtain ⟨s, m, rfl⟩ := exists_finite_of_isFinite ha
    obtain ⟨t, n, rfl⟩ := exists_finite_of_isFinite hb
    exact negative_pow (beq_eq_false_iff_ne.mp hzero) hnan

theorem ln_eq_nan {a : Double} (h : a.less 0 || a.isNaN) : a.ln = .nan := by
  rw [less_zero_eq, Bool.or_eq_true, Bool.and_eq_true] at h
  cases a with
  | nan => rfl
  | infinite s =>
      rcases h with ⟨hnegative, -⟩ | hnan
      · obtain rfl : s = true := hnegative
        rfl
      · cases hnan
  | finite s n =>
      rcases h with ⟨hnegative, hzero⟩ | hnan
      · rw [Bool.not_eq_true'] at hzero
        rw [ln, hzero, if_neg Bool.false_ne_true, if_pos hnegative]
      · cases hnan

theorem logRules_ln : LogRules ln where
  zero _ ha := if_pos ha
  nan _ := ln_eq_nan
  infinite := rfl

end Progression.Double
