import Mathlib.Data.Int.Log
import Mathlib.Data.Rat.Floor
import Mathlib.Tactic.Linarith
import Mathlib.Tactic.Positivity
import Progression.Double.Decimal

/-! # Rounding

The unit in the last place next to a positive rational has the exponent of its leading bit less the
precision, but never less than the least exponent of the format. The rank of the rational is the number of
magnitudes below that unit's block and the rational in units, rounded. A magnitude is a whole number of its
units, so it is rounded to its own rank. -/

namespace Progression

/-- Powers with an integer exponent, as one quotient of natural numbers. -/
theorem mkRat_pow (m : Nat) {b : Nat} (hb : 0 < b) (e : Int) :
    mkRat (m * Nat.pow b e.toNat : Nat) (Nat.pow b (-e).toNat) = (m : ℚ) * (b : ℚ) ^ e := by
  have hne : (b : ℚ) ≠ 0 := by exact_mod_cast hb.ne'
  rw [Rat.mkRat_eq_div]
  obtain ⟨n, rfl | rfl⟩ := e.eq_nat_or_neg
  · simp
  · simp [div_eq_mul_inv]

theorem dyadic_eq (m : Nat) (q : Int) : dyadic m q = (m : ℚ) * 2 ^ q := by
  rw [dyadic, mkRat_pow m Nat.two_pos]
  norm_num

theorem decimalRat_eq (c : Nat) (e : Int) : decimalRat c e = (c : ℚ) * 10 ^ e := by
  rw [decimalRat, mkRat_pow c (by norm_num)]
  norm_num

theorem ten_zpow_pos (e : Int) : (0 : ℚ) < 10 ^ e := zpow_pos (by norm_num) e

theorem decimalRat_zero (e : Int) : decimalRat 0 e = 0 := by
  rw [decimalRat_eq, Nat.cast_zero, zero_mul]

theorem decimalRat_nonneg (c : Nat) (e : Int) : 0 ≤ decimalRat c e := by
  rw [decimalRat_eq]
  exact mul_nonneg (Nat.cast_nonneg c) (ten_zpow_pos e).le

theorem decimalRat_mul_pow (c n : Nat) (e : Int) : decimalRat (c * 10 ^ n) e = decimalRat c (e + n) := by
  rw [decimalRat_eq, decimalRat_eq, zpow_add₀ (by norm_num), zpow_natCast]
  push_cast
  ring

section RoundQuotient

variable {num den : Nat}

theorem roundQuotient_mul (m : Nat) (hden : 0 < den) : roundQuotient (m * den) den = m := by
  simp [roundQuotient, Nat.mul_div_cancel m hden, hden]

theorem roundQuotient_eq_zero (h : 2 * num < den) : roundQuotient num den = 0 := by
  have hlt : num < den := by omega
  simp [roundQuotient, Nat.div_eq_of_lt hlt, Nat.mod_eq_of_lt hlt, h]

theorem le_roundQuotient {m : Nat} (hden : 0 < den) (h : m * den ≤ num) : m ≤ roundQuotient num den := by
  have hdiv : m ≤ num / den := (Nat.le_div_iff_mul_le hden).mpr h
  simp only [roundQuotient]
  split <;> omega

end RoundQuotient

namespace BinaryFormat

variable (f : BinaryFormat)

theorem step_pos : 0 < f.step := Nat.pow_pos Nat.two_pos

theorem two_mul_step (h : 1 ≤ f.precision) : (2 : ℚ) ^ (f.precision : ℤ) = 2 * f.step := by
  obtain ⟨p, hp⟩ : ∃ p, f.precision = p + 1 := ⟨f.precision - 1, by omega⟩
  rw [step, hp, zpow_natCast, pow_succ, mul_comm]
  norm_num

theorem magnitude_eq (rank : Nat) : f.magnitude rank = (f.significand rank : ℚ) * 2 ^ f.exponent rank :=
  dyadic_eq _ _

/-- A rank is its significand behind the blocks of smaller units. -/
theorem rank_eq (rank : Nat) :
    (f.exponent rank - f.minExponent).toNat * f.step + f.significand rank = rank := by
  have hstep := f.step_pos
  have hdiv := Nat.div_add_mod rank f.step
  rw [exponent, significand]
  split
  · rename_i hlt
    simp [Nat.div_eq_of_lt hlt]
  · rename_i hge
    have hpos : 1 ≤ rank / f.step := (Nat.one_le_div_iff hstep).mpr (Nat.le_of_not_lt hge)
    obtain ⟨k, hk⟩ : ∃ k, rank / f.step = k + 1 := ⟨rank / f.step - 1, by omega⟩
    rw [hk] at hdiv ⊢
    simp only [Nat.add_sub_cancel, add_sub_cancel_left, Int.toNat_natCast]
    rw [Nat.mul_add, Nat.mul_one, Nat.mul_comm] at hdiv
    omega

theorem significand_lt (rank : Nat) : f.significand rank < 2 * f.step := by
  have hmod := Nat.mod_lt rank f.step_pos
  rw [significand]
  split <;> omega

theorem minExponent_le (rank : Nat) : f.minExponent ≤ f.exponent rank := by
  rw [exponent]
  omega

/-- A magnitude is subnormal, with the least unit, or has a leading bit. -/
theorem exponent_eq_or_step_le (rank : Nat) : f.exponent rank = f.minExponent ∨ f.step ≤ f.significand rank := by
  rw [exponent, significand]
  split
  · rename_i hlt
    simp [Nat.div_eq_of_lt hlt]
  · exact .inr (Nat.le_add_right _ _)

/-- The binary exponent of the unit in the last place next to a positive rational. -/
def unitExponent (r : ℚ) : Int := max f.minExponent (Int.log 2 r + 1 - f.precision)

theorem log_bounds {num den : Nat} (hnum : 0 < num) (hden : 0 < den) :
    (2 : ℚ) ^ ((num.log2 : ℤ) - den.log2 - 1) ≤ (num : ℚ) / den ∧
      (num : ℚ) / den < 2 ^ ((num.log2 : ℤ) - den.log2 + 1) := by
  have hdenpos : (0 : ℚ) < den := by exact_mod_cast hden
  have hnumle : (2 : ℚ) ^ num.log2 ≤ num := by exact_mod_cast Nat.log2_self_le hnum.ne'
  have hnumlt : (num : ℚ) < 2 ^ (num.log2 + 1) := by exact_mod_cast Nat.lt_log2_self
  have hdenle : (2 : ℚ) ^ den.log2 ≤ den := by exact_mod_cast Nat.log2_self_le hden.ne'
  have hdenlt : (den : ℚ) < 2 ^ (den.log2 + 1) := by exact_mod_cast Nat.lt_log2_self
  constructor
  · rw [le_div_iff₀ hdenpos]
    calc
      (2 : ℚ) ^ ((num.log2 : ℤ) - den.log2 - 1) * den
          ≤ 2 ^ ((num.log2 : ℤ) - den.log2 - 1) * 2 ^ (den.log2 + 1) :=
        mul_le_mul_of_nonneg_left hdenlt.le (zpow_nonneg zero_le_two _)
      _ = 2 ^ num.log2 := by
        rw [← zpow_natCast, ← zpow_natCast, ← zpow_add₀ two_ne_zero]
        congr 1
        push_cast
        ring
      _ ≤ num := hnumle
  · rw [div_lt_iff₀ hdenpos]
    calc
      (num : ℚ) < 2 ^ (num.log2 + 1) := hnumlt
      _ = 2 ^ ((num.log2 : ℤ) - den.log2 + 1) * 2 ^ den.log2 := by
        rw [← zpow_natCast, ← zpow_natCast, ← zpow_add₀ two_ne_zero]
        congr 1
        push_cast
        ring
      _ ≤ 2 ^ ((num.log2 : ℤ) - den.log2 + 1) * den :=
        mul_le_mul_of_nonneg_left hdenle (zpow_nonneg zero_le_two _)

theorem pow_toNat (q : Int) : (2 : ℚ) ^ q.toNat = 2 ^ q * 2 ^ (-q).toNat := by
  obtain ⟨n, rfl | rfl⟩ := q.eq_nat_or_neg
  · simp
  · simp

/-- The test of `quantum` compares the quotient with the next power of two. -/
theorem fits_iff {num den : Nat} (hden : 0 < den) (q : Int) :
    num * Nat.pow 2 (-q).toNat < Nat.pow 2 f.precision * (den * Nat.pow 2 q.toNat) ↔
      (num : ℚ) / den < 2 ^ (q + f.precision) := by
  have hdenpos : (0 : ℚ) < den := by exact_mod_cast hden
  have hpos : (0 : ℚ) < 2 ^ (-q).toNat := by positivity
  have hcast : num * Nat.pow 2 (-q).toNat < Nat.pow 2 f.precision * (den * Nat.pow 2 q.toNat) ↔
      (num : ℚ) * 2 ^ (-q).toNat < 2 ^ f.precision * (den * 2 ^ q.toNat) := by
    rw [← @Nat.cast_lt ℚ]
    push_cast [Nat.pow_eq]
    rfl
  have hsplit : (2 : ℚ) ^ f.precision * (den * (2 ^ q * 2 ^ (-q).toNat)) =
      2 ^ (q + f.precision) * den * 2 ^ (-q).toNat := by
    rw [zpow_add₀ two_ne_zero, zpow_natCast]
    ring
  rw [hcast, pow_toNat q, hsplit, mul_lt_mul_iff_left₀ hpos, div_lt_iff₀ hdenpos]

theorem quantum_eq {num den : Nat} (hnum : 0 < num) (hden : 0 < den) :
    f.quantum num den = f.unitExponent ((num : ℚ) / den) := by
  have hpos : (0 : ℚ) < (num : ℚ) / den := by
    have hnum' : (0 : ℚ) < num := by exact_mod_cast hnum
    have hden' : (0 : ℚ) < den := by exact_mod_cast hden
    positivity
  have hfits := @fits_iff f num den hden ((num.log2 : ℤ) - den.log2 - f.precision)
  rw [sub_add_cancel, show ((2 : ℚ) = ((2 : ℕ) : ℚ)) by norm_num, Int.lt_zpow_iff_log_lt one_lt_two hpos] at hfits
  obtain ⟨hlow, hhigh⟩ := log_bounds hnum hden
  rw [show ((2 : ℚ) = ((2 : ℕ) : ℚ)) by norm_num] at hlow hhigh
  rw [Int.zpow_le_iff_le_log one_lt_two hpos] at hlow
  rw [Int.lt_zpow_iff_log_lt one_lt_two hpos] at hhigh
  simp only [quantum, unitExponent]
  congr 1
  split <;> rename_i h
  · have hlt := hfits.mp h
    omega
  · have hge := fun hlt => h (hfits.mpr hlt)
    omega

theorem rankOf_zero : f.rankOf 0 = 0 := rfl

/-- The rank of a positive rational counts its units, rounded, behind the blocks of smaller units. -/
theorem exists_rankOf_eq {r : ℚ} (hr : 0 < r) : ∃ num den : Nat, 0 < den ∧
    (num : ℚ) / den = r / 2 ^ f.unitExponent r ∧
    f.rankOf r = (f.unitExponent r - f.minExponent).toNat * f.step + roundQuotient num den := by
  have hnum : 0 < r.num := Rat.num_pos.mpr hr
  have habs : (r.num.natAbs : ℚ) / r.den = r := by
    have hcast : ((r.num.natAbs : ℤ) : ℚ) = (r.num : ℚ) := by rw [Int.natAbs_of_nonneg hnum.le]
    rw [Int.cast_natCast] at hcast
    rw [hcast, Rat.num_div_den]
  have hquantum := f.quantum_eq (Int.natAbs_pos.mpr hnum.ne') r.den_pos
  rw [habs] at hquantum
  refine ⟨r.num.natAbs * Nat.pow 2 (-f.unitExponent r).toNat, r.den * Nat.pow 2 (f.unitExponent r).toNat,
    Nat.mul_pos r.den_pos (Nat.pow_pos Nat.two_pos), ?_, ?_⟩
  · have hpos : (2 : ℚ) ^ (-f.unitExponent r).toNat ≠ 0 := pow_ne_zero _ two_ne_zero
    push_cast [Nat.pow_eq]
    rw [pow_toNat (f.unitExponent r), mul_div_mul_comm, habs, div_mul_cancel_right₀ hpos, div_eq_mul_inv]
  · rw [rankOf, if_neg hnum.ne']
    simp only [hquantum]

theorem unitExponent_magnitude (h : 1 ≤ f.precision) {rank : Nat} (hpos : 0 < f.magnitude rank) :
    f.unitExponent (f.magnitude rank) = f.exponent rank := by
  have htwo : ((2 : ℕ) : ℚ) = 2 := by norm_num
  have hunit : (0 : ℚ) < 2 ^ f.exponent rank := zpow_pos two_pos _
  have hstep := f.two_mul_step h
  have hsig : (f.significand rank : ℚ) < 2 * f.step := by exact_mod_cast f.significand_lt rank
  have hlt : Int.log 2 (f.magnitude rank) < f.exponent rank + f.precision := by
    rw [← Int.lt_zpow_iff_log_lt one_lt_two hpos, htwo, zpow_add₀ two_ne_zero, hstep, magnitude_eq, mul_comm]
    exact mul_lt_mul_of_pos_left hsig hunit
  have hmin := f.minExponent_le rank
  rw [unitExponent]
  rcases f.exponent_eq_or_step_le rank with heq | hle
  · omega
  · have hge : f.exponent rank + f.precision - 1 ≤ Int.log 2 (f.magnitude rank) := by
      have hsig' : (f.step : ℚ) ≤ f.significand rank := by exact_mod_cast hle
      rw [← Int.zpow_le_iff_le_log one_lt_two hpos, htwo, zpow_sub₀ two_ne_zero, zpow_add₀ two_ne_zero, hstep,
        magnitude_eq, zpow_one]
      nlinarith
    omega

/-- A magnitude is rounded to its own rank. -/
theorem rankOf_magnitude (h : 1 ≤ f.precision) (rank : Nat) : f.rankOf (f.magnitude rank) = rank := by
  have hrank := f.rank_eq rank
  have hunit : (0 : ℚ) < 2 ^ f.exponent rank := zpow_pos two_pos _
  rcases Nat.eq_zero_or_pos (f.significand rank) with hzero | hsig
  · have hexponent : f.exponent rank = f.minExponent := by
      refine (f.exponent_eq_or_step_le rank).resolve_right fun hle => ?_
      have hstep := f.step_pos
      omega
    rw [magnitude_eq, hzero, Nat.cast_zero, zero_mul, rankOf_zero, ← hrank, hzero, hexponent]
    simp
  · have hpos : 0 < f.magnitude rank := by
      have hsig' : (0 : ℚ) < f.significand rank := by exact_mod_cast hsig
      rw [magnitude_eq]
      exact mul_pos hsig' hunit
    obtain ⟨num, den, hden, hquotient, heq⟩ := f.exists_rankOf_eq hpos
    rw [f.unitExponent_magnitude h hpos] at hquotient heq
    have hden' : (den : ℚ) ≠ 0 := by exact_mod_cast hden.ne'
    rw [magnitude_eq, mul_div_cancel_right₀ _ hunit.ne', div_eq_iff hden'] at hquotient
    have hnum : num = f.significand rank * den := by exact_mod_cast hquotient
    rw [heq, hnum, roundQuotient_mul _ hden, hrank]

end BinaryFormat

/-! ## Double precision: out of range and next to zero -/

theorem limit_le_rankOf {r : ℚ} (h : 2 ^ (1024 : ℤ) ≤ r) : binary64.limit ≤ binary64.rankOf r := by
  have hr : 0 < r := lt_of_lt_of_le (zpow_pos two_pos _) h
  have htwo : ((2 : ℕ) : ℚ) = 2 := by norm_num
  have hlog : 1024 ≤ Int.log 2 r := by
    rwa [← htwo, Int.zpow_le_iff_le_log one_lt_two hr] at h
  have hunit : binary64.unitExponent r = Int.log 2 r - 52 := by
    simp only [BinaryFormat.unitExponent, binary64]
    omega
  obtain ⟨num, den, hden, hquotient, heq⟩ := binary64.exists_rankOf_eq hr
  have hden' : (0 : ℚ) < den := by exact_mod_cast hden
  have hstep : (binary64.step : ℚ) = 2 ^ (52 : ℤ) := by
    norm_num [BinaryFormat.step, binary64]
  have hround : binary64.step ≤ roundQuotient num den := by
    refine le_roundQuotient hden ?_
    have hle : (binary64.step : ℚ) ≤ num / den := by
      rw [hquotient, hunit, hstep, le_div_iff₀ (zpow_pos two_pos _), ← zpow_add₀ two_ne_zero]
      have hself := Int.zpow_log_le_self one_lt_two hr
      rw [htwo] at hself
      have hexponent : (52 : ℤ) + (Int.log 2 r - 52) = Int.log 2 r := by ring
      rwa [hexponent]
    rw [le_div_iff₀ hden'] at hle
    exact_mod_cast hle
  have hblocks : 2046 ≤ (binary64.unitExponent r - binary64.minExponent).toNat := by
    rw [hunit]
    simp only [binary64]
    omega
  have hmul := Nat.mul_le_mul_right binary64.step hblocks
  have hlimit : binary64.limit = 2046 * binary64.step + binary64.step := by
    simp only [BinaryFormat.limit, BinaryFormat.step, binary64]
  omega

theorem rankOf_eq_zero {r : ℚ} (hr : 0 < r) (h : r < 2 ^ (-1075 : ℤ)) : binary64.rankOf r = 0 := by
  have htwo : ((2 : ℕ) : ℚ) = 2 := by norm_num
  have hlog : Int.log 2 r < -1075 := by
    rwa [← htwo, Int.lt_zpow_iff_log_lt one_lt_two hr] at h
  have hunit : binary64.unitExponent r = -1074 := by
    simp only [BinaryFormat.unitExponent, binary64]
    omega
  obtain ⟨num, den, hden, hquotient, heq⟩ := binary64.exists_rankOf_eq hr
  have hden' : (0 : ℚ) < den := by exact_mod_cast hden
  have hhalf : 2 * num < den := by
    have hlt : (num : ℚ) / den < 2 ^ (-1 : ℤ) := by
      rw [hquotient, hunit, div_lt_iff₀ (zpow_pos two_pos _), ← zpow_add₀ two_ne_zero]
      exact h
    rw [div_lt_iff₀ hden'] at hlt
    have hdouble : (2 : ℚ) * num < den := by
      norm_num at hlt
      linarith
    exact_mod_cast hdouble
  rw [heq, roundQuotient_eq_zero hhalf, hunit]
  rfl

end Progression
