import Progression.Double.Power

/-! # The two zeros

Two numbers are alike if they differ in the sign of a zero at most. Sums, differences, products and remainders of
like numbers are alike, and so are logarithms, which are even equal. Only a divisor, or the base of a power, can
tell the zeros apart: by the sign of an infinity. -/

namespace Progression.Double

/-- The number, with the positive zero for both zeros. -/
def canonicalZero (v : Double) : Double := if v.isZero then zero false else v

/-- The two numbers differ in the sign of a zero at most. -/
def Alike (v w : Double) : Prop := v.canonicalZero = w.canonicalZero

instance (v w : Double) : Decidable (v.Alike w) := inferInstanceAs (Decidable (_ = _))

theorem eq_zero_of_isZero {v : Double} (h : v.isZero) : v = zero v.negative := by
  cases v with
  | nan => cases h
  | infinite s => cases h
  | finite s rank =>
      have hrank : rank = ⟨0, by decide⟩ := Fin.ext (by simpa [isZero] using h)
      rw [hrank]
      rfl

theorem eq_nan_of_isNaN {v : Double} (h : v.isNaN) : v = .nan := by
  cases v with
  | nan => rfl
  | infinite s => cases h
  | finite s rank => cases h

theorem eq_infinite_of_isInfinite {v : Double} (h : v.isInfinite) : v = .infinite v.negative := by
  cases v with
  | nan => cases h
  | infinite s => rfl
  | finite s rank => cases h

theorem exists_finite_of_isFinite {v : Double} (h : v.isFinite) : ∃ s rank, v = .finite s rank := by
  cases v with
  | nan => cases h
  | infinite s => cases h
  | finite s rank => exact ⟨s, rank, rfl⟩

theorem position_zero : position? 0 = some 0 := by decide +kernel

/-- Below zero lie the negative numbers but the negative zero. -/
theorem less_zero_eq (v : Double) : v.less 0 = (v.negative && !v.isZero) := by
  unfold less
  rw [position_zero]
  cases v with
  | nan => rfl
  | infinite s => cases s <;> decide +kernel
  | finite s n =>
      rw [Bool.eq_iff_iff]
      cases s with
      | false => simp [position?, negative, isZero]
      | true =>
          simp [position?, negative, isZero]
          omega

/-- Above zero lie the numbers that are not negative but the positive zero. -/
theorem zero_less_eq (v : Double) : less 0 v = (!v.negative && !v.isZero && !v.isNaN) := by
  unfold less
  rw [position_zero]
  cases v with
  | nan => rfl
  | infinite s => cases s <;> decide +kernel
  | finite s n =>
      rw [Bool.eq_iff_iff]
      cases s with
      | false =>
          simp [position?, negative, isZero, isNaN]
          omega
      | true => simp [position?, negative, isZero, isNaN]

/-- What is no zero, not below zero and not not-a-number is above zero. -/
theorem zero_less_iff {v : Double} : less 0 v ↔ ¬v.isZero ∧ ¬(v.less 0 || v.isNaN) := by
  rw [zero_less_eq, less_zero_eq]
  grind

theorem magnitude_zero : binary64.magnitude 0 = 0 := by
  have hsignificand : binary64.significand 0 = 0 := by decide
  rw [BinaryFormat.magnitude, dyadic, hsignificand, Nat.zero_mul]
  exact Rat.zero_mkRat _

theorem signed_zero (s : Bool) : signed s 0 = zero s := rfl

theorem zero_ne_neg_zero {s t : Bool} : zero t ≠ -zero s ↔ s = t := by
  cases s <;> cases t <;> decide

theorem ne_neg_of_isZero {v : Double} (h : v.isZero) : v ≠ -v := by
  rw [eq_zero_of_isZero h]
  exact zero_ne_neg_zero.mpr rfl

/-! ## Like numbers -/

section Alike

variable {u v w : Double}

theorem Alike.refl (v : Double) : v.Alike v := rfl

theorem Alike.symm (h : v.Alike w) : w.Alike v := Eq.symm h

theorem Alike.trans (huv : u.Alike v) (hvw : v.Alike w) : u.Alike w := Eq.trans huv hvw

theorem alike_zeros (s t : Bool) : (zero s).Alike (zero t) := rfl

theorem alike_infinities {s t : Bool} : (infinite s).Alike (infinite t) ↔ s = t := by
  cases s <;> cases t <;> decide

/-- Like numbers are equal, or they are zeros. -/
theorem Alike.eq_or_zeros (h : v.Alike w) : v = w ∨ ∃ s t, v = zero s ∧ w = zero t := by
  unfold Alike canonicalZero at h
  split at h <;> split at h
  · exact .inr ⟨v.negative, w.negative, eq_zero_of_isZero ‹_›, eq_zero_of_isZero ‹_›⟩
  · subst h
    exact absurd rfl ‹¬(zero false).isZero = true›
  · subst h
    exact absurd rfl ‹¬(zero false).isZero = true›
  · exact .inl h

/-- What is alike for the two zeros is alike for all like numbers. -/
theorem Alike.congr {f : Double → Double} (h : v.Alike w) (hf : (f (zero false)).Alike (f (zero true))) :
    (f v).Alike (f w) := by
  rcases h.eq_or_zeros with rfl | ⟨s, t, rfl, rfl⟩
  · exact Alike.refl _
  · cases s <;> cases t
    · exact Alike.refl _
    · exact hf
    · exact hf.symm
    · exact Alike.refl _

/-- The same for operations on two numbers. -/
theorem Alike.congr_both {f : Double → Double → Double} {v' w' : Double} (hv : v.Alike v') (hw : w.Alike w')
    (hleft : ∀ b, (f (zero false) b).Alike (f (zero true) b))
    (hright : ∀ a, (f a (zero false)).Alike (f a (zero true))) :
    (f v w).Alike (f v' w') :=
  (hv.congr (f := (f · w)) (hleft w)).trans (hw.congr (hright v'))

/-- Only the zeros share their place on the line. -/
theorem alike_of_position {i : Int} (hv : v.position? = some i) (hw : w.position? = some i) : v.Alike w := by
  cases v with
  | nan => cases hv
  | infinite s =>
      obtain rfl := Option.some.inj hv
      cases w with
      | nan => cases hw
      | infinite t =>
          have hst : s = t := by cases s <;> cases t <;> first | rfl | cases hw
          rw [hst]
          exact Alike.refl _
      | finite t n =>
          have hn := n.isLt
          have hplace := Option.some.inj hw
          split at hplace <;> split at hplace <;> omega
  | finite s m =>
      obtain rfl := Option.some.inj hv
      cases w with
      | nan => cases hw
      | infinite t =>
          have hm := m.isLt
          have hplace := Option.some.inj hw
          split at hplace <;> split at hplace <;> omega
      | finite t n =>
          have hplace := Option.some.inj hw
          by_cases hst : s = t
          · subst hst
            have hmn : m = n := Fin.ext (by split at hplace <;> omega)
            rw [hmn]
            exact Alike.refl _
          · have hm : m.val = 0 := by cases s <;> cases t <;> simp at hplace hst <;> omega
            have hn : n.val = 0 := by cases s <;> cases t <;> simp at hplace hst <;> omega
            obtain rfl : m = ⟨0, by decide⟩ := Fin.ext hm
            obtain rfl : n = ⟨0, by decide⟩ := Fin.ext hn
            exact alike_zeros s t

/-- Numbers that count as the same are alike. -/
theorem alike_of_same (h : v.same w) : v.Alike w := by
  unfold same at h
  split at h
  · rename_i i j hv hw
    obtain rfl : i = j := by simpa using h
    exact alike_of_position hv hw
  · cases h

end Alike

section Operations

variable (a b : Double) (s t : Bool)

theorem roundExact_alike (r : Rat) : (roundExact s r).Alike (roundExact t r) := by
  unfold roundExact
  split
  · exact alike_zeros s t
  · exact Alike.refl _

/-- The value of a zero does not depend on its sign. -/
theorem zero_value : (if s then -binary64.magnitude 0 else binary64.magnitude 0) = 0 := by
  rw [magnitude_zero]
  cases s <;> rfl

theorem zero_add_alike : (zero s + b).Alike (zero t + b) := by
  cases b with
  | nan => rfl
  | infinite u => rfl
  | finite u n =>
      change (roundExact _ ((if s then -binary64.magnitude 0 else binary64.magnitude 0) + _)).Alike
        (roundExact _ ((if t then -binary64.magnitude 0 else binary64.magnitude 0) + _))
      rw [zero_value, zero_value]
      exact roundExact_alike _ _ _

theorem add_zero_alike : (a + zero s).Alike (a + zero t) := by
  cases a with
  | nan => rfl
  | infinite u => rfl
  | finite u n =>
      change (roundExact _ (_ + if s then -binary64.magnitude 0 else binary64.magnitude 0)).Alike
        (roundExact _ (_ + if t then -binary64.magnitude 0 else binary64.magnitude 0))
      rw [zero_value, zero_value]
      exact roundExact_alike _ _ _

theorem zero_sub_alike : (zero s - b).Alike (zero t - b) := zero_add_alike (-b) s t

theorem sub_zero_alike : (a - zero s).Alike (a - zero t) := add_zero_alike a (!s) (!t)

theorem zero_mul_alike : (zero s * b).Alike (zero t * b) := by
  cases b with
  | nan => rfl
  | infinite u => rfl
  | finite u n =>
      change (signed _ (binary64.magnitude 0 * _)).Alike (signed _ (binary64.magnitude 0 * _))
      rw [magnitude_zero, Rat.zero_mul, signed_zero, signed_zero]
      exact alike_zeros _ _

theorem mul_zero_alike : (a * zero s).Alike (a * zero t) := by
  cases a with
  | nan => rfl
  | infinite u => rfl
  | finite u n =>
      change (signed _ (_ * binary64.magnitude 0)).Alike (signed _ (_ * binary64.magnitude 0))
      rw [magnitude_zero, Rat.mul_zero, signed_zero, signed_zero]
      exact alike_zeros _ _

theorem zero_div_rat (r : Rat) : 0 / r = 0 := by
  rw [Rat.div_def, Rat.zero_mul]

/-- The quotient of a zero is a zero, or not a number. -/
theorem zero_div_alike : (zero s / b).Alike (zero t / b) := by
  cases b with
  | nan => rfl
  | infinite u => rfl
  | finite u n =>
      have hquotient (s : Bool) :
          zero s / finite u n = if n.val = 0 then .nan else signed (s ^^ u) (0 / binary64.magnitude n) := by
        rw [← magnitude_zero]
        rfl
      rw [hquotient, hquotient, zero_div_rat, signed_zero, signed_zero]
      split
      · rfl
      · exact alike_zeros _ _

/-- The remainder of a zero is that zero, or not a number. -/
theorem zero_mod_alike : (zero s % b).Alike (zero t % b) := by
  cases b with
  | nan => rfl
  | infinite u => rfl
  | finite u n =>
      have hremainder (s : Bool) : zero s % finite u n =
          if n.val = 0 then .nan
          else signed s (0 - binary64.magnitude n * (0 / binary64.magnitude n).floor) := by
        rw [← magnitude_zero]
        rfl
      have hfloor : ((0 : Rat).floor : Rat) = 0 := rfl
      rw [hremainder, hremainder, zero_div_rat, hfloor, Rat.mul_zero, Rat.sub_self, signed_zero, signed_zero]
      split
      · rfl
      · exact alike_zeros _ _

theorem mod_zero_alike : (a % zero s).Alike (a % zero t) := by
  cases a <;> exact Alike.refl _

/-- Division by a zero gives an infinity with the sign of the zero, unless there is nothing to divide. -/
theorem div_zero : a / zero s = if a.isNaN || a.isZero then .nan else .infinite (a.negative ^^ s) := by
  cases a with
  | nan => rfl
  | infinite u => rfl
  | finite u m => by_cases hm : m.val = 0 <;> simp [HDiv.hDiv, Div.div, div, zero, isNaN, isZero, negative, hm]

theorem zero_ne_one : zero s ≠ 1 := by
  cases s <;> decide +kernel

/-- A power of finite numbers, the base not being one and the exponent not zero. -/
theorem pow_finite {s u : Bool} {m n : Fin binary64.limit} (hbase : finite s m ≠ 1)
    (hexponent : (finite u n).isZero = false) :
    (finite s m).pow (finite u n) =
      if m.val = 0 then
        if u then .infinite (s && (finite u n).isOdd) else zero (s && (finite u n).isOdd)
      else if s && !(finite u n).isInteger then .nan
      else withSign (s && (finite u n).isOdd) (powMagnitude (finite false m) (finite u n)) := by
  unfold pow
  rw [hexponent, decide_eq_false hbase]
  rfl

theorem zero_pow_finite (u : Bool) (n : Fin binary64.limit) (hn : (finite u n).isZero = false) :
    (zero s).pow (finite u n) =
      if u then .infinite (s && (finite u n).isOdd) else zero (s && (finite u n).isOdd) :=
  (pow_finite (zero_ne_one s) hn).trans (if_pos rfl)

/-- Only a negative odd exponent makes infinities of the zeros that differ in the sign. -/
theorem zero_pow_alike (hb : ¬(b.negative ∧ b.isOdd)) : ((zero s).pow b).Alike ((zero t).pow b) := by
  cases b with
  | nan =>
      unfold pow
      rw [decide_eq_false (zero_ne_one s), decide_eq_false (zero_ne_one t)]
      rfl
  | infinite u =>
      unfold pow
      rw [decide_eq_false (zero_ne_one s), decide_eq_false (zero_ne_one t)]
      rfl
  | finite u n =>
      cases hn : (finite u n).isZero with
      | true =>
          rw [eq_zero_of_isZero hn]
          rfl
      | false =>
          rw [zero_pow_finite s u n hn, zero_pow_finite t u n hn]
          cases u with
          | false => exact alike_zeros _ _
          | true =>
              have hodd : (finite true n).isOdd = false := Bool.eq_false_iff.mpr fun h => hb ⟨rfl, h⟩
              rw [hodd, Bool.and_false, Bool.and_false]
              exact Alike.refl _

theorem zero_pow_of_odd (hnegative : b.negative) (hodd : b.isOdd) : (zero s).pow b = .infinite s := by
  cases b with
  | nan => cases hnegative
  | infinite u => cases hodd
  | finite u n =>
      obtain rfl : u = true := hnegative
      have hn : (finite true n).isZero = false := by
        refine Bool.eq_false_iff.mpr fun h => ?_
        have hzero : finite true n = zero true := eq_zero_of_isZero h
        rw [hzero] at hodd
        exact absurd hodd (by decide +kernel)
      rw [zero_pow_finite s true n hn, hodd, Bool.and_true]
      rfl

end Operations

end Progression.Double
