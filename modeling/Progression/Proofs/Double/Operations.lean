import Progression.Proofs.Double.Line
import Progression.Proofs.Double.Representable

/-! # Quotients and remainders

A quotient of doubles is the exact one, rounded once; where there is none, it is an infinity with the product of the
signs, or not a number. A remainder is exact: it is a whole number of units of the one operand or of the other, and no
larger than either. -/

namespace Progression.Double

/-- The double nearest to an exact result, or an infinity from the overflow bound on. -/
def RoundsTo (q : ℚ) (v : Double) : Prop :=
  (|q| < overflowBound ∧ ∃ w, v.toRat? = some w ∧ binary64.IsNearest q w) ∨ overflowBound ≤ |q| ∧ v.isInfinite

/-- The number is the quotient of IEEE arithmetic. -/
structure IsQuotient (a b v : Double) : Prop where
  nan : a.isNaN ∨ b.isNaN → v = .nan
  zero_divisor : b.isZero → v = if a.isZero || a.isNaN then .nan else .infinite (a.negative ^^ b.negative)
  infinite_dividend : a.isInfinite → v = if b.isFinite then .infinite (a.negative ^^ b.negative) else .nan
  infinite_divisor : a.isFinite → b.isInfinite → v = zero (a.negative ^^ b.negative)
  finite : ∀ x y, a.toRat? = some x → b.toRat? = some y → y ≠ 0 →
    v.negative = (a.negative ^^ b.negative) ∧ RoundsTo (x / y) v

theorem negative_signed (s : Bool) (r : ℚ) : (signed s r).negative = s := by
  unfold signed
  split
  · rfl
  · rfl

/-- The sign stays outside the rounding. -/
theorem roundsTo_signed (s : Bool) {r : ℚ} (hr : 0 ≤ r) : RoundsTo (if s then -r else r) (signed s r) := by
  have habs : |if s then -r else r| = r := (abs_signed s r).trans (abs_of_nonneg hr)
  unfold RoundsTo
  rw [habs]
  rcases lt_or_ge r overflowBound with hlt | hle
  · have hrange : binary64.rankOf (if s then -r else r) < binary64.limit := by
      rwa [rankOf_lt_limit_iff, habs]
    exact .inl ⟨hlt, _, toRat?_signed s hr hlt, BinaryFormat.isNearest_nearestNumber (by decide) (by decide) hrange⟩
  · refine .inr ⟨hle, ?_⟩
    rw [signed_of_le (by rwa [abs_of_nonneg hr])]
    rfl

/-- The value of a finite double. -/
def valueOf (s : Bool) (rank : Nat) : ℚ := if s then -binary64.magnitude rank else binary64.magnitude rank

theorem exists_finite_of_toRat {v : Double} {q : ℚ} (h : v.toRat? = some q) :
    ∃ s rank, v = finite s rank ∧ q = valueOf s rank := by
  obtain ⟨s, rank, rfl⟩ := exists_finite_of_isFinite (isFinite_iff.mpr ⟨q, h⟩)
  exact ⟨s, rank, rfl, (Option.some.inj h).symm⟩

theorem valueOf_div (s t : Bool) (m n : Nat) :
    valueOf s m / valueOf t n =
      if s ^^ t then -(binary64.magnitude m / binary64.magnitude n)
      else binary64.magnitude m / binary64.magnitude n := by
  unfold valueOf
  cases s <;> cases t <;> simp [neg_div, div_neg]

theorem magnitude_pos {rank : Nat} (h : rank ≠ 0) : 0 < binary64.magnitude rank := by
  rw [← magnitude_zero]
  exact binary64.magnitude_strictMono (Nat.pos_of_ne_zero h)

theorem valueOf_zero (s : Bool) : valueOf s 0 = 0 := zero_value s

theorem isQuotient_div (a b : Double) : IsQuotient a b (a / b) where
  nan := by
    rintro (ha | hb)
    · rw [eq_nan_of_isNaN ha]
      rfl
    · rw [eq_nan_of_isNaN hb]
      cases a <;> rfl
  zero_divisor := by
    intro hb
    rw [eq_zero_of_isZero hb, div_zero, Bool.or_comm]
    rfl
  infinite_dividend := by
    intro ha
    rw [eq_infinite_of_isInfinite ha]
    cases b <;> rfl
  infinite_divisor := by
    intro ha hb
    obtain ⟨s, m, rfl⟩ := exists_finite_of_isFinite ha
    rw [eq_infinite_of_isInfinite hb]
    rfl
  finite := by
    intro x y hx hy hne
    obtain ⟨s, m, rfl, rfl⟩ := exists_finite_of_toRat hx
    obtain ⟨t, n, rfl, rfl⟩ := exists_finite_of_toRat hy
    have hn : n.val ≠ 0 := fun hzero => hne (by rw [hzero, valueOf_zero])
    have hdiv : finite s m / finite t n = signed (s ^^ t) (binary64.magnitude m / binary64.magnitude n) := if_neg hn
    rw [hdiv, valueOf_div]
    exact ⟨negative_signed _ _, roundsTo_signed _ (div_nonneg (magnitude_nonneg m) (magnitude_nonneg n))⟩

/-! ## Remainders -/

/-- The number is the remainder of the division truncated toward zero, which is exact. -/
structure IsRemainder (a b v : Double) : Prop where
  nan_iff : v = .nan ↔ a.isNaN ∨ b.isNaN ∨ a.isInfinite ∨ b.isZero
  infinite_divisor : a.isFinite → b.isInfinite → v = a
  finite : ∀ x y, a.toRat? = some x → b.toRat? = some y → y ≠ 0 →
    v.negative = a.negative ∧ ∃ (r : ℚ) (k : ℤ), v.toRat? = some r ∧ r = x - k * y ∧ |r| < |y|

section Exact

variable (m n : Nat)

/-- What truncated division leaves of the magnitudes. -/
def leftOver : ℚ := binary64.magnitude m - binary64.magnitude n * ⌊binary64.magnitude m / binary64.magnitude n⌋

/-- Two magnitudes are whole numbers of one unit, and one of them has few enough bits for a significand. -/
theorem exists_common_unit : ∃ A B g : ℤ, binary64.minExponent ≤ g ∧ binary64.magnitude m = A * 2 ^ g ∧
    binary64.magnitude n = B * 2 ^ g ∧ (A < 2 * binary64.step ∨ B < 2 * binary64.step) := by
  have hm := binary64.magnitude_eq m
  have hn := binary64.magnitude_eq n
  have hwiden (c : Nat) {e f : ℤ} (hef : e ≤ f) : (c : ℚ) * 2 ^ f = (c * 2 ^ (f - e).toNat : ℤ) * 2 ^ e := by
    obtain ⟨j, rfl⟩ := Int.le.dest hef
    rw [zpow_add₀ two_ne_zero, zpow_natCast, add_sub_cancel_left, Int.toNat_natCast]
    push_cast
    ring
  rcases le_total (binary64.exponent m) (binary64.exponent n) with hle | hle
  · refine ⟨binary64.significand m, _, _, binary64.minExponent_le m, ?_, hn.trans (hwiden _ hle), .inl ?_⟩
    · exact_mod_cast hm
    · exact_mod_cast binary64.significand_lt m
  · refine ⟨_, binary64.significand n, _, binary64.minExponent_le n, hm.trans (hwiden _ hle), ?_, .inr ?_⟩
    · exact_mod_cast hn
    · exact_mod_cast binary64.significand_lt n

/-- With the signs of the operands, it is still the dividend less a multiple of the divisor. -/
theorem signed_leftOver_eq (s t : Bool) (m n : Nat) :
    (if s then -leftOver m n else leftOver m n) =
      valueOf s m - (if s ^^ t then -⌊binary64.magnitude m / binary64.magnitude n⌋
        else ⌊binary64.magnitude m / binary64.magnitude n⌋ : ℤ) * valueOf t n := by
  unfold leftOver valueOf
  cases s <;> cases t <;> simp <;> ring

variable {m n} (hn : n ≠ 0)
include hn

theorem leftOver_nonneg : 0 ≤ leftOver m n := by
  have hpos := magnitude_pos hn
  have hfloor := Int.floor_le (binary64.magnitude m / binary64.magnitude n)
  rw [le_div_iff₀ hpos] at hfloor
  unfold leftOver
  linarith

theorem leftOver_lt : leftOver m n < binary64.magnitude n := by
  have hpos := magnitude_pos hn
  have hfloor := Int.lt_floor_add_one (binary64.magnitude m / binary64.magnitude n)
  rw [div_lt_iff₀ hpos] at hfloor
  unfold leftOver
  linarith

omit hn in
theorem leftOver_le : leftOver m n ≤ binary64.magnitude m := by
  have hquotient : 0 ≤ binary64.magnitude m / binary64.magnitude n :=
    div_nonneg (magnitude_nonneg m) (magnitude_nonneg n)
  have hfloor : (0 : ℚ) ≤ ⌊binary64.magnitude m / binary64.magnitude n⌋ := by
    exact_mod_cast Int.floor_nonneg.mpr hquotient
  have hproduct := mul_nonneg (magnitude_nonneg n) hfloor
  unfold leftOver
  linarith

/-- A remainder is rounded to itself: it has no more bits than the operand with the smaller unit, since it is no larger
than that operand either. -/
theorem magnitude_rankOf_leftOver : binary64.magnitude (binary64.rankOf (leftOver m n)) = leftOver m n := by
  obtain ⟨A, B, g, hg, hA, hB, hbits⟩ := exists_common_unit m n
  have hunit : (0 : ℚ) < 2 ^ g := zpow_pos two_pos _
  obtain ⟨K, hK⟩ : ∃ K : ℤ, leftOver m n = K * 2 ^ g := by
    refine ⟨A - B * ⌊binary64.magnitude m / binary64.magnitude n⌋, ?_⟩
    unfold leftOver
    push_cast
    rw [sub_mul, ← hA, mul_right_comm, ← hB]
  have hnonneg : 0 ≤ K := by
    have h := leftOver_nonneg (m := m) hn
    rw [hK] at h
    exact_mod_cast nonneg_of_mul_nonneg_left h hunit
  have hA' : K ≤ A := by
    have h := leftOver_le (m := m) (n := n)
    rw [hK, hA] at h
    exact_mod_cast le_of_mul_le_mul_right h hunit
  have hB' : K < B := by
    have h := leftOver_lt (m := m) hn
    rw [hK, hB] at h
    exact_mod_cast lt_of_mul_lt_mul_right h hunit.le
  obtain ⟨k, rfl⟩ := Int.eq_ofNat_of_zero_le hnonneg
  have hk : k < 2 * binary64.step := by omega
  rw [hK, Int.cast_natCast]
  exact BinaryFormat.magnitude_rankOf_of_units (by decide) hk hg

theorem toRat?_signed_leftOver (s : Bool) {m : Fin binary64.limit} :
    (signed s (leftOver m n)).toRat? = some (if s then -leftOver m n else leftOver m n) := by
  have hrank : binary64.rankOf (leftOver m n) < binary64.limit := by
    calc
      binary64.rankOf (leftOver m n) ≤ binary64.rankOf (binary64.magnitude m) :=
        BinaryFormat.rankOf_mono (by decide) (leftOver_nonneg hn) leftOver_le
      _ = m := binary64.rankOf_magnitude (by decide) m
      _ < binary64.limit := m.isLt
  rw [signed, dif_pos hrank]
  exact congrArg some (by rw [magnitude_rankOf_leftOver hn])

end Exact

theorem isRemainder_mod (a b : Double) : IsRemainder a b (a % b) where
  nan_iff := by
    cases a with
    | nan => exact iff_of_true rfl (.inl rfl)
    | infinite s =>
        refine iff_of_true ?_ (.inr (.inr (.inl rfl)))
        cases b <;> rfl
    | finite s m =>
        cases b with
        | nan => exact iff_of_true rfl (.inr (.inl rfl))
        | infinite t => exact iff_of_false (fun h => by cases h) (by simp [isNaN, isInfinite, isZero])
        | finite t n =>
            by_cases hn : n.val = 0
            · exact iff_of_true (if_pos hn) (.inr (.inr (.inr (beq_iff_eq.mpr hn))))
            · have hrem : finite s m % finite t n = signed s (leftOver m n) := if_neg hn
              have hvalue := toRat?_signed_leftOver hn s (m := m)
              refine iff_of_false (fun h => ?_) (by simp [isNaN, isInfinite, isZero, hn])
              rw [← hrem, h] at hvalue
              cases hvalue
  infinite_divisor := by
    intro ha hb
    obtain ⟨s, m, rfl⟩ := exists_finite_of_isFinite ha
    rw [eq_infinite_of_isInfinite hb]
    rfl
  finite := by
    intro x y hx hy hne
    obtain ⟨s, m, rfl, rfl⟩ := exists_finite_of_toRat hx
    obtain ⟨t, n, rfl, rfl⟩ := exists_finite_of_toRat hy
    have hn : n.val ≠ 0 := fun hzero => hne (by rw [hzero, valueOf_zero])
    have hrem : finite s m % finite t n = signed s (leftOver m n) := if_neg hn
    rw [hrem]
    refine ⟨negative_signed _ _, _, _, toRat?_signed_leftOver hn s, signed_leftOver_eq s t m n, ?_⟩
    rw [abs_signed, abs_of_nonneg (leftOver_nonneg hn), valueOf, abs_signed, abs_of_pos (magnitude_pos hn)]
    exact leftOver_lt hn

section Values

variable {v w : Double} {q : ℚ}

/-- Only the zeros share their value. -/
theorem alike_of_toRat (hv : v.toRat? = some q) (hw : w.toRat? = some q) : v.Alike w := by
  obtain ⟨i, hi, -, hvalue⟩ := toRat?_eq_some_iff.mp hv
  obtain ⟨j, hj, -, rfl⟩ := toRat?_eq_some_iff.mp hw
  have hij : i = j := by
    refine le_antisymm (not_lt.mp fun hlt => ?_) (not_lt.mp fun hlt => ?_)
    · exact absurd (numberAt_lt_of_lt hlt) (by rw [hvalue]; exact lt_irrefl _)
    · exact absurd (numberAt_lt_of_lt hlt) (by rw [hvalue]; exact lt_irrefl _)
  exact alike_of_position hi (hij ▸ hj)

theorem toRat?_zero (s : Bool) : (zero s).toRat? = some 0 := congrArg some (zero_value s)

theorem eq_of_toRat (hv : v.toRat? = some q) (hw : w.toRat? = some q) (hq : q ≠ 0) : v = w := by
  rcases (alike_of_toRat hv hw).eq_or_zeros with h | ⟨s, t, rfl, -⟩
  · exact h
  · exact absurd (Option.some.inj (hv.symm.trans (toRat?_zero s))) hq

theorem exists_zero_of_toRat (hv : v.toRat? = some 0) : ∃ s, v = zero s := by
  rcases (alike_of_toRat hv (toRat?_zero false)).eq_or_zeros with h | ⟨s, -, h, -⟩
  · exact ⟨false, h⟩
  · exact ⟨s, h⟩

end Values

/-- What division by two leaves of an integer is a zero or, if the integer is odd, one of the two units. -/
theorem mod_two_cases {v : Double} {n : ℤ} (hv : v.toRat? = some (n : ℚ)) :
    (n % 2 = 0 ∧ ∃ s, v % 2 = zero s) ∨ n % 2 ≠ 0 ∧ (v % 2 = 1 ∨ v % 2 = -1) := by
  have htwo : (2 : Double).toRat? = some 2 := by decide +kernel
  have hone : (1 : Double).toRat? = some 1 := by decide +kernel
  have hminus : (-1 : Double).toRat? = some (-1) := by decide +kernel
  obtain ⟨-, r, k, hr, hrem, hlt⟩ := (isRemainder_mod v 2).finite n 2 hv htwo two_ne_zero
  obtain rfl : r = ((n - k * 2 : ℤ) : ℚ) := by
    rw [hrem]
    push_cast
    rfl
  have habs : |n - k * 2| < 2 := by
    rw [abs_of_pos (two_pos : (0 : ℚ) < 2)] at hlt
    exact_mod_cast hlt
  rw [abs_lt] at habs
  obtain h | h | h : n - k * 2 = 0 ∨ n - k * 2 = 1 ∨ n - k * 2 = -1 := by omega
  · rw [h, Int.cast_zero] at hr
    exact .inl ⟨by omega, exists_zero_of_toRat hr⟩
  · rw [h, Int.cast_one] at hr
    exact .inr ⟨by omega, .inl (eq_of_toRat hr hone one_ne_zero)⟩
  · rw [h, Int.cast_neg, Int.cast_one] at hr
    exact .inr ⟨by omega, .inr (eq_of_toRat hr hminus (neg_ne_zero.mpr one_ne_zero))⟩

/-- A double is an odd integer if it is an integer and the remainder of its division by two, rounded down, is one. That
holds for the negative ones too. -/
theorem isOdd_eq_modulo (v : Double) : v.isOdd = (v.isInteger && (v.modulo 2).same 1) := by
  cases hv : v.toRat? with
  | none => simp only [isOdd, isInteger, hv, Option.any_none, Bool.false_and]
  | some q =>
      simp only [isOdd, isInteger, hv, Option.any_some]
      by_cases hden : q.den = 1
      · have hq : q = (q.num : ℚ) := (Rat.den_eq_one_iff q).mp hden |>.symm
        rw [hden, beq_self_eq_true, Bool.true_and, Bool.true_and]
        rw [hq] at hv
        rcases mod_two_cases hv with ⟨heven, s, hmod⟩ | ⟨hodd, hmod | hmod⟩
        · have hmodulo : (v.modulo 2).same 1 = false := by
            unfold modulo
            rw [hmod]
            cases s <;> decide +kernel
          rw [hmodulo, heven]
          rfl
        · have hmodulo : (v.modulo 2).same 1 = true := by
            unfold modulo
            rw [hmod]
            decide +kernel
          rw [hmodulo]
          exact bne_iff_ne.mpr hodd
        · have hmodulo : (v.modulo 2).same 1 = true := by
            unfold modulo
            rw [hmod]
            decide +kernel
          rw [hmodulo]
          exact bne_iff_ne.mpr hodd
      · rw [beq_eq_false_iff_ne.mpr hden, Bool.false_and, Bool.false_and]

end Progression.Double
