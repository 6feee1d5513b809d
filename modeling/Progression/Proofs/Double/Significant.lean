import Progression.Proofs.Double.Line

/-! # Significant bits

The double nearest to an integer has an integer value: the integer rounded to as many significant bits as a significand
has. So an integer passes through a double if it has no more significant bits than that, and up to `2 ^ 53` it does. -/

namespace Progression

/-- The integer rounded to the given number of significant bits, a tie going to the even last bit. -/
def roundedTo (bits : Nat) (n : Int) : Int :=
  let unit := Nat.pow 2 (n.natAbs.log2 + 1 - bits)
  nearestQuotient n unit * unit

section RoundedTo

variable {n : Int} {den : Nat} (hden : 0 < den)
include hden

theorem nearestQuotient_nonneg (hn : 0 ≤ n) : 0 ≤ nearestQuotient n den := by
  have hquotient : ((0 : ℤ) : ℚ) ≤ n / den := by
    rw [Int.cast_zero]
    exact div_nonneg (by exact_mod_cast hn) den.cast_nonneg
  exact (nearestEven_nearestQuotient n hden).le_of_ge hquotient

theorem nearestQuotient_nonpos (hn : n ≤ 0) : nearestQuotient n den ≤ 0 := by
  have hquotient : (n : ℚ) / den ≤ ((0 : ℤ) : ℚ) := by
    rw [Int.cast_zero]
    exact div_nonpos_of_nonpos_of_nonneg (by exact_mod_cast hn) den.cast_nonneg
  exact (nearestEven_nearestQuotient n hden).le_of_le hquotient

/-- What is nearest to the quotient of an absolute value is so without the sign. -/
theorem abs_nearestQuotient {k : Nat} (hk : NearestEven (|(n : ℚ)| / den) k) : |nearestQuotient n den| = k := by
  have hnearest := nearestEven_nearestQuotient n hden
  rcases le_total 0 n with hn | hn
  · have hcast : (0 : ℚ) ≤ n := by exact_mod_cast hn
    rw [abs_of_nonneg hcast] at hk
    rw [hnearest.unique hk, Nat.abs_cast]
  · have hcast : (n : ℚ) ≤ 0 := by exact_mod_cast hn
    have hneg := hk.neg
    rw [abs_of_nonpos hcast, neg_div, neg_neg] at hneg
    rw [hnearest.unique hneg, abs_neg, Nat.abs_cast]

end RoundedTo

section RoundedTo

variable (bits : Nat) {n : Int}

theorem roundedTo_zero : roundedTo bits 0 = 0 := by
  simp [roundedTo, nearestQuotient]

theorem roundedTo_nonneg (hn : 0 ≤ n) : 0 ≤ roundedTo bits n :=
  mul_nonneg (nearestQuotient_nonneg (Nat.pow_pos Nat.two_pos) hn) (Int.natCast_nonneg _)

theorem roundedTo_nonpos (hn : n ≤ 0) : roundedTo bits n ≤ 0 :=
  mul_nonpos_of_nonpos_of_nonneg (nearestQuotient_nonpos (Nat.pow_pos Nat.two_pos) hn) (Int.natCast_nonneg _)

variable {bits}

/-- An integer with no more bits is left as it is. -/
theorem roundedTo_of_log2_lt (h : n.natAbs.log2 < bits) : roundedTo bits n = n := by
  have hunit : n.natAbs.log2 + 1 - bits = 0 := by omega
  have hnearest := nearestEven_nearestQuotient n Nat.one_pos
  rw [Nat.cast_one, div_one] at hnearest
  rw [roundedTo, hunit, Nat.pow_eq, pow_zero, Nat.cast_one, mul_one]
  exact hnearest.unique (NearestEven.intCast n)

end RoundedTo

namespace BinaryFormat

theorem log_abs_intCast (n : Int) : Int.log 2 |(n : ℚ)| = n.natAbs.log2 := by
  rw [← Int.cast_abs, ← Nat.cast_natAbs, Int.log_natCast, Nat.log2_eq_log_two]

/-- The magnitude nearest to an integer is that integer without its sign, rounded to the precision of the format. -/
theorem magnitude_rankOf_intCast (f : BinaryFormat) (hprecision : 1 ≤ f.precision) (hmin : f.minExponent ≤ 0)
    (n : Int) : f.magnitude (f.rankOf n) = |roundedTo f.precision n| := by
  by_cases hn : n = 0
  · rw [hn, Int.cast_zero, rankOf_zero, roundedTo_zero, magnitude_eq, significand, if_pos f.step_pos]
    simp
  · have hr : 0 < |(n : ℚ)| := abs_pos.mpr (by exact_mod_cast hn)
    obtain ⟨b, k, h⟩ := exists_rounds hprecision hr
    have hlow := h.low.imp_right (le_units_iff hprecision hr _).mp
    have hhigh := (units_lt_iff hprecision hr _).mp h.high
    have hnearest := h.nearest
    rw [log_abs_intCast] at hlow hhigh
    rw [← rankOf_abs, h.magnitude_rankOf hprecision hr]
    rcases le_or_gt (f.minExponent + b) 0 with hunit | hunit
    -- The unit is no more than one, so the integer is a whole number of units.
    · obtain ⟨j, hj⟩ : ∃ j : Nat, f.minExponent + b = -j := ⟨(-(f.minExponent + b)).toNat, by omega⟩
      have hunits : |(n : ℚ)| / 2 ^ (-j : ℤ) = ((|n| * 2 ^ j : ℤ) : ℚ) := by
        rw [zpow_neg, div_inv_eq_mul, zpow_natCast]
        push_cast
        rfl
      rw [hj, hunits] at hnearest
      have hk : (k : ℚ) = |n| * 2 ^ j := by exact_mod_cast hnearest.unique (NearestEven.intCast _)
      rw [roundedTo_of_log2_lt (by omega), hj, hk, zpow_neg, zpow_natCast, mul_inv_cancel_right₀ (by positivity)]
    · obtain ⟨e, he⟩ : ∃ e : Nat, f.minExponent + b = e := ⟨(f.minExponent + b).toNat, by omega⟩
      have hbits : n.natAbs.log2 + 1 - f.precision = e := by omega
      have hcast : (2 : ℚ) ^ (e : ℤ) = (Nat.pow 2 e : Nat) := by
        rw [zpow_natCast, Nat.pow_eq, Nat.cast_pow, Nat.cast_ofNat]
      have hpos : 0 < Nat.pow 2 e := Nat.pow_pos Nat.two_pos
      rw [he, hcast] at hnearest
      rw [roundedTo, hbits, abs_mul, abs_nearestQuotient hpos hnearest, he, hcast, Nat.abs_cast, Int.cast_mul,
        Int.cast_natCast, Int.cast_natCast]

end BinaryFormat

namespace Double

variable {n : Int}

theorem magnitude_rankOf_intCast (n : Int) : binary64.magnitude (binary64.rankOf n) = |roundedTo 53 n| :=
  binary64.magnitude_rankOf_intCast (by decide) (by decide) n

theorem intCast_lt_pow_iff (m : Int) (k : Nat) : (m : ℚ) < 2 ^ k ↔ m < 2 ^ k := by
  exact_mod_cast Iff.rfl

/-- An integer is in range if it is short of the power of two behind the doubles once it is rounded. -/
theorem isFinite_ofInt_iff (n : Int) : (ofInt n).isFinite ↔ |roundedTo 53 n| < 2 ^ 1024 := by
  rw [ofInt, ofRat, isFinite_signed_iff, ← rankOf_lt_limit_iff, ← binary64.magnitude_strictMono.lt_iff_lt,
    magnitude_rankOf_intCast, magnitude_limit_binary64, intCast_lt_pow_iff]

theorem nearestNumber_intCast (n : Int) : binary64.nearestNumber n = roundedTo 53 n := by
  rw [BinaryFormat.nearestNumber, magnitude_rankOf_intCast]
  split
  · rename_i hneg
    have hle : n ≤ 0 := by exact_mod_cast hneg.le
    rw [abs_of_nonpos (roundedTo_nonpos 53 hle), Int.cast_neg, neg_neg]
  · rename_i hnonneg
    have hle : 0 ≤ n := by exact_mod_cast not_lt.mp hnonneg
    rw [abs_of_nonneg (roundedTo_nonneg 53 hle)]

/-- The double nearest to an integer has that integer for its value, rounded to 53 significant bits. -/
theorem toRat?_ofInt (h : |roundedTo 53 n| < 2 ^ 1024) : (ofInt n).toRat? = some (roundedTo 53 n : ℚ) := by
  have hrange := (isFinite_ofInt_iff n).mpr h
  rw [ofInt, ofRat, isFinite_signed_iff] at hrange
  rw [ofInt, toRat?_ofRat hrange, nearestNumber_intCast]

-- Halfway between two doubles.
example : (ofInt 9007199254740993).toRat? = some 9007199254740992 := by decide +kernel

/-- An integer that is the value of a double is not changed by rounding it. -/
theorem roundedTo_of_toRat {v : Double} (hv : v.toRat? = some (n : ℚ)) : roundedTo 53 n = n ∧ |n| < 2 ^ 1024 := by
  cases v with
  | nan => cases hv
  | infinite s => cases hv
  | finite s rank =>
      have hmagnitude : |(n : ℚ)| = binary64.magnitude rank := by
        rw [← Option.some.inj hv]
        cases s with
        | false => exact abs_of_nonneg (magnitude_nonneg _)
        | true => exact (abs_neg _).trans (abs_of_nonneg (magnitude_nonneg _))
      have hrank : binary64.rankOf n = rank := by
        rw [← BinaryFormat.rankOf_abs, hmagnitude, binary64.rankOf_magnitude (by decide)]
      have hlt : |n| < 2 ^ 1024 := by
        have hlimit := binary64.magnitude_strictMono rank.isLt
        rwa [magnitude_limit_binary64, ← hmagnitude, ← Int.cast_abs, intCast_lt_pow_iff] at hlimit
      have habs : |roundedTo 53 n| = |n| := by
        have hrounded := magnitude_rankOf_intCast n
        rw [hrank, ← hmagnitude] at hrounded
        exact_mod_cast hrounded.symm
      refine ⟨?_, hlt⟩
      rcases le_total 0 n with hn | hn
      · rwa [abs_of_nonneg (roundedTo_nonneg 53 hn), abs_of_nonneg hn] at habs
      · rwa [abs_of_nonpos (roundedTo_nonpos 53 hn), abs_of_nonpos hn, neg_inj] at habs

/-- Up to `2 ^ 53` every integer is left as it is. -/
theorem roundedTo_of_le (h : |n| ≤ 2 ^ 53) : roundedTo 53 n = n := by
  rcases h.lt_or_eq with hlt | heq
  · by_cases hn : n = 0
    · rw [hn, roundedTo_zero]
    · have habs := Int.abs_eq_natAbs n
      refine roundedTo_of_log2_lt ((Nat.log2_lt (Int.natAbs_ne_zero.mpr hn)).mpr ?_)
      omega
  · rcases eq_or_eq_neg_of_abs_eq heq with rfl | rfl
    · decide +kernel
    · decide +kernel

end Double

end Progression
