import Mathlib.Algebra.Order.Ring.Int
import Mathlib.Tactic.FieldSimp
import Progression.Proofs.Double.Rounding

/-! # The nearest magnitude

The magnitudes of a format ascend with their ranks, and a positive rational is rounded to the nearest one: it is past a
rank exactly if it lies above the midpoint between that rank and the next, or on it and the rank is odd. So the numbers
out of range are those from the midpoint between the greatest finite magnitude and the next power of two on. -/

namespace Progression

/-- The integer nearest to a rational; of two that are as near, the even one. -/
structure NearestEven (x : ℚ) (k : ℤ) : Prop where
  half : |x - k| ≤ 1 / 2
  even : |x - k| = 1 / 2 → Even k

namespace NearestEven

variable {x : ℚ} {j k m : ℤ}

theorem intCast (k : ℤ) : NearestEven k k where
  half := by rw [sub_self, abs_zero]; norm_num
  even h := by rw [sub_self, abs_zero] at h; norm_num at h

theorem neg (h : NearestEven x k) : NearestEven (-x) (-k) := by
  have hdist : |(-x) - ((-k : ℤ) : ℚ)| = |x - k| := by
    rw [← abs_neg]
    push_cast
    ring_nf
  exact ⟨hdist ▸ h.half, fun htie => (h.even (hdist ▸ htie)).neg⟩

/-- A nearest integer is not past an integer that the rational is not past. -/
theorem le_of_le (h : NearestEven x k) (hx : x ≤ m) : k ≤ m := by
  have hhalf := abs_le.mp h.half
  have hlt : (k : ℚ) < m + 1 := by linarith
  exact Int.lt_add_one_iff.mp (by exact_mod_cast hlt)

theorem le_of_ge (h : NearestEven x k) (hx : m ≤ x) : m ≤ k := by
  have hhalf := abs_le.mp h.half
  have hlt : (m : ℚ) < k + 1 := by linarith
  exact Int.lt_add_one_iff.mp (by exact_mod_cast hlt)

theorem lt_of_tie (hj : NearestEven x j) (hk : NearestEven x k) : ¬j < k := by
  intro hlt
  have hjhalf := abs_le.mp hj.half
  have hkhalf := abs_le.mp hk.half
  have hle : (j : ℚ) + 1 ≤ k := by exact_mod_cast hlt
  have hnext : (k : ℚ) = j + 1 := by linarith
  have hjtie : |x - j| = 1 / 2 := by rw [abs_of_nonneg (by linarith)]; linarith
  have hktie : |x - k| = 1 / 2 := by rw [abs_of_nonpos (by linarith)]; linarith
  have hk' : k = j + 1 := by exact_mod_cast hnext
  have hjeven := hj.even hjtie
  have hkeven := hk.even hktie
  rw [hk', Int.even_add_one] at hkeven
  exact hkeven hjeven

theorem unique (hj : NearestEven x j) (hk : NearestEven x k) : j = k :=
  le_antisymm (Int.not_lt.mp (lt_of_tie hk hj)) (Int.not_lt.mp (lt_of_tie hj hk))

end NearestEven

/-- The quotient `n / den` to the nearest integer, a tie going to the even one. -/
def nearestQuotient (n : Int) (den : Nat) : Int :=
  if 2 * (n % den) < den ∨ (2 * (n % den) = den ∧ n / den % 2 = 0) then n / den else n / den + 1

/-- The quotient lies past the number of whole divisors by the rest, which is compared with half a divisor. -/
theorem nearestEven_nearestQuotient (n : Int) {den : Nat} (hden : 0 < den) :
    NearestEven ((n : ℚ) / den) (nearestQuotient n den) := by
  have hdenpos : (0 : ℚ) < den := by exact_mod_cast hden
  have hdenint : (0 : ℤ) < den := by exact_mod_cast hden
  obtain ⟨rest, hrest⟩ : ∃ rest : ℚ, rest = (n % den : Int) / den := ⟨_, rfl⟩
  have hquotient : (n : ℚ) / den = (n / den : Int) + rest := by
    have hdivision : (den : ℚ) * (n / den : Int) + (n % den : Int) = n := by
      exact_mod_cast Int.mul_ediv_add_emod n den
    rw [hrest, div_eq_iff hdenpos.ne', add_mul, div_mul_cancel₀ _ hdenpos.ne', mul_comm, hdivision]
  have hnonneg : 0 ≤ rest := by
    rw [hrest]
    exact div_nonneg (by exact_mod_cast Int.emod_nonneg n hdenint.ne') hdenpos.le
  have hdown : rest ≤ 1 / 2 ↔ 2 * (n % den) ≤ den := by
    rw [hrest, div_le_div_iff₀ hdenpos two_pos, one_mul, mul_comm]
    exact_mod_cast Iff.rfl
  have hup : 1 / 2 ≤ rest ↔ den ≤ 2 * (n % den) := by
    rw [hrest, div_le_div_iff₀ two_pos hdenpos, one_mul, mul_comm (_ : ℚ) 2]
    exact_mod_cast Iff.rfl
  have hlt : rest < 1 := by
    rw [hrest, div_lt_one hdenpos]
    exact_mod_cast Int.emod_lt_of_pos n hdenint
  rw [hquotient, nearestQuotient]
  split
  · rename_i hround
    have hdist : |((n / den : Int) : ℚ) + rest - (n / den : Int)| = rest := by
      rw [add_sub_cancel_left, abs_of_nonneg hnonneg]
    rw [← hdist] at hdown hup
    refine ⟨hdown.mpr (by omega), fun htie => ?_⟩
    have hle := hup.mp htie.ge
    rw [Int.even_iff]
    omega
  · rename_i hround
    have hdist : |((n / den : Int) : ℚ) + rest - (n / den + 1 : Int)| = 1 - rest := by
      rw [Int.cast_add, Int.cast_one, add_sub_add_left_eq_sub, abs_of_nonpos (by linarith), neg_sub]
    refine ⟨?_, fun htie => ?_⟩
    · have hhalf := hup.mpr (by omega)
      rw [hdist]
      linarith
    · rw [hdist] at htie
      have hle := hdown.mp (by linarith)
      rw [Int.even_iff]
      omega

theorem roundQuotient_eq (num den : Nat) : (roundQuotient num den : ℤ) = nearestQuotient num den := by
  rw [roundQuotient, nearestQuotient]
  split <;> split <;> push_cast at * <;> omega

theorem nearestEven_roundQuotient {num den : Nat} (hden : 0 < den) :
    NearestEven ((num : ℚ) / den) (roundQuotient num den) := by
  have hnearest := nearestEven_nearestQuotient num hden
  rwa [Int.cast_natCast, ← roundQuotient_eq] at hnearest

namespace BinaryFormat

variable (f : BinaryFormat)

/-- Behind `b` blocks of smaller units, a rank counts units of the next size, up to the first one of the block after. -/
theorem magnitude_block {b k : Nat} (hk : k ≤ 2 * f.step) (hb : b = 0 ∨ f.step ≤ k) :
    f.magnitude (b * f.step + k) = k * 2 ^ (f.minExponent + b) := by
  have hstep := f.step_pos
  rw [magnitude_eq]
  rcases Nat.lt_or_ge k f.step with hlt | hge
  · obtain rfl : b = 0 := hb.resolve_right (Nat.not_le_of_lt hlt)
    rw [Nat.zero_mul, Nat.zero_add, significand, if_pos hlt, exponent, Nat.div_eq_of_lt hlt]
  · have hnormal : ¬b * f.step + k < f.step := by omega
    rw [significand, if_neg hnormal, exponent]
    rcases hk.lt_or_eq with hlt | rfl
    · obtain ⟨j, rfl⟩ := Nat.exists_eq_add_of_le hge
      have hj : j < f.step := by omega
      rw [show b * f.step + (f.step + j) = j + f.step * (b + 1) by ring, Nat.add_mul_mod_self_left,
        Nat.add_mul_div_left _ _ hstep, Nat.mod_eq_of_lt hj, Nat.div_eq_of_lt hj]
      simp
    · rw [show b * f.step + 2 * f.step = f.step * (b + 2) by ring, Nat.mul_mod_right, Nat.mul_div_cancel_left _ hstep,
        show b + 2 - 1 = b + 1 by omega]
      push_cast
      rw [← add_assoc, zpow_add_one₀ two_ne_zero]
      ring

/-- Next to a magnitude is the one a unit of its last place above. -/
theorem magnitude_succ (rank : Nat) : f.magnitude (rank + 1) = f.magnitude rank + 2 ^ f.exponent rank := by
  have hrank := f.rank_eq rank
  have hmin := f.minExponent_le rank
  have hlt := f.significand_lt rank
  obtain ⟨b, hb⟩ : ∃ b : Nat, f.exponent rank = f.minExponent + b :=
    ⟨(f.exponent rank - f.minExponent).toNat, by omega⟩
  rw [hb, add_sub_cancel_left, Int.toNat_natCast] at hrank
  have hblock : b = 0 ∨ f.step ≤ f.significand rank := by
    have hcases := f.exponent_eq_or_step_le rank
    omega
  have hnext := f.magnitude_block (b := b) (k := f.significand rank + 1) (by omega) (by omega)
  rw [← Nat.add_assoc, hrank] at hnext
  rw [hnext, magnitude_eq, hb]
  push_cast
  ring

theorem magnitude_strictMono : StrictMono f.magnitude := by
  refine strictMono_nat_of_lt_succ fun rank => ?_
  have hunit : (0 : ℚ) < 2 ^ f.exponent rank := zpow_pos two_pos _
  rw [magnitude_succ]
  linarith

theorem rankOf_neg (r : ℚ) : f.rankOf (-r) = f.rankOf r := by
  simp only [rankOf, Rat.num_neg_eq_neg_num, Rat.den_neg_eq_den, Int.natAbs_neg, neg_eq_zero]

theorem rankOf_abs (r : ℚ) : f.rankOf |r| = f.rankOf r := by
  rcases abs_choice r with h | h
  · rw [h]
  · rw [h, rankOf_neg]

/-- The blocks before a rank do not change whether it is even. -/
theorem even_block (hprecision : 2 ≤ f.precision) {b k : Nat} (hk : Even (k : ℤ)) : Even (b * f.step + k) := by
  obtain ⟨p, hp⟩ : ∃ p, f.precision - 1 = p + 1 := ⟨f.precision - 2, by omega⟩
  have hstep : Even f.step := by
    rw [step, hp]
    exact Nat.even_pow.mpr ⟨even_two, p.succ_ne_zero⟩
  exact (hstep.mul_left b).add (by exact_mod_cast hk)

/-- Behind `b` blocks of smaller units, the rational is nearest to `k` units. -/
structure Rounds (r : ℚ) (b k : Nat) : Prop where
  low : b = 0 ∨ f.step ≤ r / 2 ^ (f.minExponent + b)
  high : r / 2 ^ (f.minExponent + b) < 2 * f.step
  nearest : NearestEven (r / 2 ^ (f.minExponent + b)) k

theorem abs_div_sub {r u k : ℚ} (hu : 0 < u) : |r / u - k| = |r - k * u| / u := by
  rw [div_sub' hu.ne', abs_div, abs_of_pos hu, mul_comm u k]

namespace Rounds

variable {f} {r : ℚ} {b k : Nat} (h : f.Rounds r b k)
include h

theorem le : k ≤ 2 * f.step := by
  have hle : (k : ℤ) ≤ ((2 * f.step : Nat) : ℤ) := h.nearest.le_of_le (by push_cast; exact h.high.le)
  exact_mod_cast hle

theorem step_le : b = 0 ∨ f.step ≤ k := by
  refine h.low.imp_right fun hlow => ?_
  have hle : ((f.step : Nat) : ℤ) ≤ k := h.nearest.le_of_ge (by push_cast; exact hlow)
  exact_mod_cast hle

/-- The rational is at most half a unit away from what it is rounded to. -/
theorem half : |r - k * 2 ^ (f.minExponent + b)| ≤ 2 ^ (f.minExponent + b) / 2 := by
  have hunit : (0 : ℚ) < 2 ^ (f.minExponent + b) := zpow_pos two_pos _
  have hnear := h.nearest.half
  rwa [Int.cast_natCast, abs_div_sub hunit, div_le_iff₀ hunit, one_div_mul_eq_div] at hnear

/-- Halfway between two ranks, a rational is rounded to the even one, since a block has an even number of ranks. -/
theorem even (hprecision : 2 ≤ f.precision)
    (htie : |r - k * 2 ^ (f.minExponent + b)| = 2 ^ (f.minExponent + b) / 2) : Even (b * f.step + k) := by
  have hunit : (0 : ℚ) < 2 ^ (f.minExponent + b) := zpow_pos two_pos _
  refine f.even_block hprecision (h.nearest.even ?_)
  rw [Int.cast_natCast, abs_div_sub hunit, div_eq_iff hunit.ne', htie, one_div_mul_eq_div]

end Rounds

section Rounds

variable {f} {r : ℚ} {b k : Nat} (hprecision : 1 ≤ f.precision) (hr : 0 < r)
include hprecision hr

theorem units_lt_iff (e : Int) : r / 2 ^ e < 2 * f.step ↔ Int.log 2 r < f.precision + e := by
  have htwo : ((2 : ℕ) : ℚ) = 2 := by norm_num
  rw [div_lt_iff₀ (zpow_pos two_pos _), ← f.two_mul_step hprecision, ← zpow_add₀ two_ne_zero, ← htwo,
    Int.lt_zpow_iff_log_lt one_lt_two hr]

theorem le_units_iff (e : Int) : f.step ≤ r / 2 ^ e ↔ f.precision - 1 + e ≤ Int.log 2 r := by
  have htwo : ((2 : ℕ) : ℚ) = 2 := by norm_num
  have hhalf : (f.step : ℚ) = 2 ^ ((f.precision : ℤ) - 1) := by
    rw [zpow_sub_one₀ two_ne_zero, f.two_mul_step hprecision]
    ring
  rw [le_div_iff₀ (zpow_pos two_pos _), hhalf, ← zpow_add₀ two_ne_zero, ← htwo,
    Int.zpow_le_iff_le_log one_lt_two hr]

theorem exists_rounds : ∃ b k, f.Rounds r b k := by
  obtain ⟨b, hb⟩ : ∃ b : Nat, f.unitExponent r = f.minExponent + b :=
    ⟨(f.unitExponent r - f.minExponent).toNat, by rw [unitExponent]; omega⟩
  obtain ⟨num, den, hden, hquotient, -⟩ := f.exists_rankOf_eq hr
  rw [hb] at hquotient
  rw [unitExponent] at hb
  refine ⟨b, roundQuotient num den, ?_, ?_, hquotient ▸ nearestEven_roundQuotient hden⟩
  · rw [le_units_iff hprecision hr]
    omega
  · rw [units_lt_iff hprecision hr]
    omega

theorem Rounds.rankOf_eq (h : f.Rounds r b k) : f.rankOf r = b * f.step + k := by
  have hunit : f.unitExponent r = f.minExponent + b := by
    have hlow := h.low
    have hhigh := h.high
    rw [le_units_iff hprecision hr] at hlow
    rw [units_lt_iff hprecision hr] at hhigh
    rw [unitExponent]
    omega
  obtain ⟨num, den, hden, hquotient, heq⟩ := f.exists_rankOf_eq hr
  rw [hunit] at hquotient heq
  have hk : (roundQuotient num den : ℤ) = k := (hquotient ▸ nearestEven_roundQuotient hden).unique h.nearest
  rw [heq, add_sub_cancel_left, Int.toNat_natCast, Int.natCast_inj.mp hk]

/-- A rational is rounded to a whole number of units. -/
theorem Rounds.magnitude_rankOf (h : f.Rounds r b k) :
    f.magnitude (f.rankOf r) = k * 2 ^ (f.minExponent + b) := by
  rw [h.rankOf_eq hprecision hr, f.magnitude_block h.le h.step_le]

end Rounds

/-- Halfway between the magnitude of a rank and the next one. -/
def midpoint (rank : Nat) : ℚ := (f.magnitude rank + f.magnitude (rank + 1)) / 2

theorem midpoint_strictMono : StrictMono f.midpoint := by
  intro m n hmn
  have hlow := f.magnitude_strictMono hmn
  have hhigh := f.magnitude_strictMono (Nat.add_lt_add_right hmn 1)
  unfold midpoint
  linarith

section Midpoint

variable {f} {r : ℚ} {b k : Nat} (hprecision : 2 ≤ f.precision) (hr : 0 < r)
include hprecision hr

/-- A rational is not above the midpoint behind its rank, and on it only if the rank is even. -/
theorem le_midpoint_rankOf : r ≤ f.midpoint (f.rankOf r) ∧ (r = f.midpoint (f.rankOf r) → Even (f.rankOf r)) := by
  have hpos : 1 ≤ f.precision := by omega
  obtain ⟨b, k, h⟩ := exists_rounds hpos hr
  have hrank := h.rankOf_eq hpos hr
  have hhalf := abs_le.mp h.half
  -- The unit behind the rank is not smaller; at the end of a block it is twice as large.
  have hexponent : f.minExponent + b ≤ f.exponent (f.rankOf r) := by
    rw [exponent, hrank]
    rcases h.step_le with rfl | hk
    · omega
    · have hdiv : b + 1 ≤ (b * f.step + k) / f.step := by
        rw [Nat.le_div_iff_mul_le f.step_pos, Nat.add_mul]
        omega
      omega
  have hunit : (2 : ℚ) ^ (f.minExponent + b) ≤ 2 ^ f.exponent (f.rankOf r) :=
    zpow_le_zpow_right₀ one_le_two hexponent
  rw [midpoint, magnitude_succ, h.magnitude_rankOf hpos hr]
  refine ⟨by linarith, fun htie => ?_⟩
  rw [hrank]
  refine h.even hprecision ?_
  rw [abs_of_nonneg (by linarith)]
  linarith

/-- A rational is not below the midpoint before its rank, and on it only if the rank is even. -/
theorem midpoint_le_of_rankOf {rank : Nat} (hrank : f.rankOf r = rank + 1) :
    f.midpoint rank ≤ r ∧ (f.midpoint rank = r → Even (rank + 1)) := by
  have hpos : 1 ≤ f.precision := by omega
  obtain ⟨b, k, h⟩ := exists_rounds hpos hr
  have hmagnitude := h.magnitude_rankOf hpos hr
  have hblock := h.rankOf_eq hpos hr
  rw [hrank] at hmagnitude hblock
  have hk : 1 ≤ k := by
    have hstep := f.step_pos
    rcases h.step_le with rfl | hk <;> omega
  obtain ⟨j, rfl⟩ := Nat.exists_eq_add_of_le' hk
  by_cases hsame : b = 0 ∨ f.step ≤ j
  -- The rank before is in the same block, one unit below.
  · have hbefore : f.magnitude rank = j * 2 ^ (f.minExponent + b) := by
      have hle := h.le
      rw [← f.magnitude_block (by omega) hsame]
      congr 1
      omega
    have hmidpoint : f.midpoint rank = ((j + 1 : Nat) : ℚ) * 2 ^ (f.minExponent + b) - 2 ^ (f.minExponent + b) / 2 := by
      rw [midpoint, hmagnitude, hbefore]
      push_cast
      ring
    have hhalf := abs_le.mp h.half
    rw [hmidpoint, hblock]
    refine ⟨by linarith, fun htie => h.even hprecision ?_⟩
    rw [← htie, sub_sub_cancel_left, abs_neg, abs_of_pos (half_pos (zpow_pos two_pos _))]
  -- The rank is the first of its block, which the rational is not below.
  · have hfirst : j + 1 = f.step := by
      have hstep := h.step_le
      omega
    have hle : f.magnitude (rank + 1) ≤ r := by
      rw [hmagnitude, hfirst]
      exact (le_div_iff₀ (zpow_pos two_pos _)).mp (h.low.resolve_left fun hb => hsame (.inl hb))
    have hlt : f.midpoint rank < r := by
      have hascend := f.magnitude_strictMono (Nat.lt_add_one rank)
      unfold midpoint
      linarith
    exact ⟨hlt.le, fun htie => absurd htie hlt.ne⟩

/-- A rational is rounded past a rank if it is past the midpoint behind it, or on it and the rank is odd. -/
theorem lt_rankOf_iff (rank : Nat) :
    rank < f.rankOf r ↔ f.midpoint rank < r ∨ (f.midpoint rank = r ∧ Odd rank) := by
  constructor
  · intro hlt
    obtain ⟨before, hbefore⟩ : ∃ before, f.rankOf r = before + 1 := ⟨f.rankOf r - 1, by omega⟩
    obtain ⟨hle, heven⟩ := midpoint_le_of_rankOf hprecision hr hbefore
    rcases (show rank ≤ before by omega).lt_or_eq with hrank | rfl
    · exact .inl ((f.midpoint_strictMono hrank).trans_le hle)
    · rcases hle.lt_or_eq with hmidpoint | hmidpoint
      · exact .inl hmidpoint
      · exact .inr ⟨hmidpoint, Nat.not_even_iff_odd.mp fun h => Nat.even_add_one.mp (heven hmidpoint) h⟩
  · intro hpast
    by_contra hge
    obtain ⟨hle, heven⟩ := le_midpoint_rankOf hprecision hr
    have hmono := f.midpoint_strictMono.monotone (Nat.not_lt.mp hge)
    rcases hpast with hlt | ⟨heq, hodd⟩
    · linarith
    · have htie : r = f.midpoint (f.rankOf r) := le_antisymm hle (by linarith)
      have hrank : f.rankOf r = rank := f.midpoint_strictMono.injective (by linarith)
      exact Nat.not_even_iff_odd.mpr hodd (hrank ▸ heven htie)

end Midpoint

section Limit

variable {f} (hblocks : 2 ≤ f.blocks)
include hblocks

theorem limit_eq : f.limit = (f.blocks - 2) * f.step + 2 * f.step := by
  obtain ⟨n, hn⟩ := Nat.exists_eq_add_of_le' hblocks
  rw [limit, hn, Nat.add_sub_cancel]
  ring

theorem magnitude_limit : f.magnitude f.limit = 2 * f.step * 2 ^ (f.minExponent + (f.blocks - 2 : Nat)) := by
  rw [limit_eq hblocks, f.magnitude_block (Nat.le_refl _) (.inr (by omega))]
  push_cast
  ring

theorem midpoint_limit :
    f.midpoint (f.limit - 1) = (2 * f.step - 1 / 2) * 2 ^ (f.minExponent + (f.blocks - 2 : Nat)) := by
  have hstep := f.step_pos
  have hlimit := limit_eq hblocks
  have hlast : f.limit - 1 = (f.blocks - 2) * f.step + (2 * f.step - 1) := by omega
  have hmagnitude := f.magnitude_block (b := f.blocks - 2) (k := 2 * f.step - 1) (by omega) (.inr (by omega))
  rw [← hlast, Nat.cast_sub (by omega)] at hmagnitude
  rw [midpoint, Nat.sub_add_cancel (by omega), magnitude_limit hblocks, hmagnitude]
  push_cast
  ring

/-- Out of range is what is at or above the midpoint behind the greatest finite magnitude. -/
theorem limit_le_rankOf_iff (hprecision : 2 ≤ f.precision) {r : ℚ} (hr : 0 < r) :
    f.limit ≤ f.rankOf r ↔ f.midpoint (f.limit - 1) ≤ r := by
  have hstep := f.step_pos
  have hlimit := limit_eq hblocks
  have heven : Even f.limit := by
    rw [hlimit]
    exact f.even_block hprecision (by push_cast; exact even_two_mul _)
  have hodd : Odd (f.limit - 1) := by
    obtain ⟨n, hn⟩ := heven
    exact ⟨n - 1, by omega⟩
  have hpast := lt_rankOf_iff hprecision hr (f.limit - 1)
  rw [and_iff_left hodd, ← le_iff_lt_or_eq] at hpast
  rw [← hpast]
  omega

end Limit

end BinaryFormat

/-! ## Double precision -/

/-- The least magnitude that is out of range, halfway between the greatest finite one and the next power of two. -/
def overflowBound : ℚ := 2 ^ 1024 - 2 ^ 970

theorem pow_lt_overflowBound : 2 ^ 1023 < overflowBound := by
  have hlt : (2 : ℚ) ^ 970 < 2 ^ 1023 := pow_lt_pow_right₀ one_lt_two (by decide)
  have hdouble : (2 : ℚ) ^ 1024 = 2 ^ 1023 * 2 := pow_succ 2 1023
  rw [overflowBound, hdouble, mul_two, lt_sub_iff_add_lt, add_lt_add_iff_left]
  exact hlt

theorem overflowBound_pos : 0 < overflowBound := (pow_pos two_pos 1023).trans pow_lt_overflowBound

theorem overflowBound_lt_pow : overflowBound < 2 ^ 1024 := sub_lt_self _ (pow_pos two_pos 970)

theorem step_binary64 : (binary64.step : ℚ) = 2 ^ 52 := by
  norm_num [BinaryFormat.step, binary64]

theorem magnitude_limit_binary64 : binary64.magnitude binary64.limit = 2 ^ 1024 := by
  have hunit : binary64.minExponent + (binary64.blocks - 2 : Nat) = (971 : Nat) := rfl
  rw [BinaryFormat.magnitude_limit (by decide), hunit, zpow_natCast, step_binary64, ← pow_succ', ← pow_add]

theorem midpoint_limit_binary64 : binary64.midpoint (binary64.limit - 1) = overflowBound := by
  have hunit : binary64.minExponent + (binary64.blocks - 2 : Nat) = (971 : Nat) := rfl
  have htop : (2 : ℚ) ^ 1024 = 2 ^ 53 * 2 ^ 971 := by rw [← pow_add]
  rw [BinaryFormat.midpoint_limit (by decide), hunit, zpow_natCast, step_binary64, overflowBound, htop, pow_succ 2 970]
  generalize (2 : ℚ) ^ 970 = half
  ring

theorem limit_le_rankOf_iff_overflow {r : ℚ} (hr : 0 < r) :
    binary64.limit ≤ binary64.rankOf r ↔ overflowBound ≤ r := by
  rw [BinaryFormat.limit_le_rankOf_iff (by decide) (by decide) hr, midpoint_limit_binary64]

end Progression
