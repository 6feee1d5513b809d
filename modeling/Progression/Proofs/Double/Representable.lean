import Progression.Proofs.Double.Nearest

/-! # Representable numbers

A number is representable in a format if it is a significand of the format's precision times a power of two within the
format's exponents. The ranks below the limit number the magnitudes of these, and a rational that is in range is rounded
to the nearest of them; of two that are as near, to the one with the even significand. -/

namespace Progression.BinaryFormat

variable (f : BinaryFormat)

/-- The absolute value of the number is the significand `m` times `2 ^ e`. A significand has as many bits as the
precision says, and its first bit is set unless the exponent is the least one. -/
structure Represents (q : ℚ) (m : ℕ) (e : ℤ) : Prop where
  value : |q| = m * 2 ^ e
  lt : m < 2 * f.step
  least_le : f.minExponent ≤ e
  le_greatest : e ≤ f.minExponent + (f.blocks - 2 : ℕ)
  leading : e = f.minExponent ∨ f.step ≤ m

def Representable (q : ℚ) : Prop := ∃ m e, f.Represents q m e

/-- No representable number is nearer to `q` than `w`, which is one; and if another one is as near, the significand of
`w` is even. -/
structure IsNearest (q w : ℚ) : Prop where
  representable : f.Representable w
  nearest : ∀ u, f.Representable u → |q - w| ≤ |q - u|
  even : ∀ u, f.Representable u → u ≠ w → |q - u| = |q - w| → ∃ m e, f.Represents w m e ∧ Even m

section Ranks

variable {f} {q w : ℚ} {m : ℕ} {e : ℤ}

theorem Represents.neg (h : f.Represents q m e) : f.Represents (-q) m e where
  value := (abs_neg q).trans h.value
  lt := h.lt
  least_le := h.least_le
  le_greatest := h.le_greatest
  leading := h.leading

theorem Representable.neg (h : f.Representable q) : f.Representable (-q) := by
  obtain ⟨m, e, hq⟩ := h
  exact ⟨m, e, hq.neg⟩

theorem magnitude_nonneg (f : BinaryFormat) (rank : ℕ) : 0 ≤ f.magnitude rank := by
  rw [magnitude_eq]
  exact mul_nonneg (Nat.cast_nonneg _) (zpow_nonneg zero_le_two _)

theorem magnitude_first (f : BinaryFormat) : f.magnitude 0 = 0 := by
  rw [magnitude_eq, significand, if_pos f.step_pos, Nat.cast_zero, zero_mul]

theorem represents_magnitude (hblocks : 2 ≤ f.blocks) {rank : ℕ} (hrank : rank < f.limit) :
    f.Represents (f.magnitude rank) (f.significand rank) (f.exponent rank) where
  value := by rw [abs_of_nonneg (f.magnitude_nonneg rank), magnitude_eq]
  lt := f.significand_lt rank
  least_le := f.minExponent_le rank
  le_greatest := by
    have hblock : rank / f.step < f.blocks := Nat.div_lt_of_lt_mul (by rwa [Nat.mul_comm])
    rw [exponent]
    omega
  leading := f.exponent_eq_or_step_le rank

/-- A representable number without its sign is the magnitude of a rank short of the limit. -/
theorem Represents.exists_rank (hblocks : 2 ≤ f.blocks) (h : f.Represents q m e) :
    ∃ rank < f.limit, f.magnitude rank = |q| := by
  obtain ⟨b, hb⟩ : ∃ b : ℕ, e = f.minExponent + b := ⟨(e - f.minExponent).toNat, by have := h.least_le; omega⟩
  have hle : b ≤ f.blocks - 2 := by
    have hgreatest := h.le_greatest
    omega
  have hlead : b = 0 ∨ f.step ≤ m := h.leading.imp_left (by omega)
  refine ⟨b * f.step + m, ?_, ?_⟩
  · calc
      b * f.step + m < b * f.step + 2 * f.step := Nat.add_lt_add_left h.lt _
      _ ≤ (f.blocks - 2) * f.step + 2 * f.step := Nat.add_le_add_right (Nat.mul_le_mul_right _ hle) _
      _ = f.limit := (limit_eq hblocks).symm
  · rw [f.magnitude_block h.lt.le hlead, h.value, hb]

/-- A whole number of units with no more bits than a significand is rounded to itself. -/
theorem magnitude_rankOf_of_units (hprecision : 1 ≤ f.precision) (hm : m < 2 * f.step) (he : f.minExponent ≤ e) :
    f.magnitude (f.rankOf (m * 2 ^ e)) = m * 2 ^ e := by
  rcases Nat.eq_zero_or_pos m with rfl | hpos
  · rw [Nat.cast_zero, zero_mul, rankOf_zero, magnitude_first]
  · have hunit : (0 : ℚ) < 2 ^ e := zpow_pos two_pos _
    have hr : (0 : ℚ) < m * 2 ^ e := mul_pos (by exact_mod_cast hpos) hunit
    obtain ⟨b, k, h⟩ := exists_rounds hprecision hr
    -- The unit of the number is not larger than the one that its significand is counted in.
    have hle : f.minExponent + b ≤ e := by
      have hbits : (m * 2 ^ e : ℚ) / 2 ^ e < 2 * f.step := by
        rw [mul_div_cancel_right₀ _ hunit.ne']
        exact_mod_cast hm
      have hhigh := (units_lt_iff hprecision hr e).mp hbits
      have hlow := h.low.imp_right (le_units_iff hprecision hr _).mp
      omega
    obtain ⟨j, hj⟩ : ∃ j : ℕ, e = f.minExponent + b + j := ⟨(e - (f.minExponent + b)).toNat, by omega⟩
    have hwhole : (m * 2 ^ e : ℚ) / 2 ^ (f.minExponent + b) = ((m * 2 ^ j : ℤ) : ℚ) := by
      rw [hj, zpow_add₀ two_ne_zero (f.minExponent + b), zpow_natCast, mul_left_comm,
        mul_div_cancel_left₀ _ (zpow_ne_zero _ two_ne_zero)]
      push_cast
      rfl
    have hnearest := h.nearest
    rw [hwhole] at hnearest
    have hk : (k : ℚ) = m * 2 ^ j := by exact_mod_cast hnearest.unique (NearestEven.intCast _)
    rw [h.magnitude_rankOf hprecision hr, hk, hj, zpow_add₀ two_ne_zero (f.minExponent + b), zpow_natCast]
    ring

end Ranks

section Nearest

variable {f} (hprecision : 2 ≤ f.precision)
include hprecision

theorem even_significand {rank : ℕ} (h : Even rank) : Even (f.significand rank) := by
  have hblocks : Even ((f.exponent rank - f.minExponent).toNat * f.step) := f.even_block hprecision Even.zero
  rw [← f.rank_eq rank, Nat.even_add] at h
  exact h.mp hblocks

/-- Ranks ascend with the positive numbers that are rounded to them. -/
theorem rankOf_mono {q r : ℚ} (hq : 0 ≤ q) (h : q ≤ r) : f.rankOf q ≤ f.rankOf r := by
  rcases hq.eq_or_lt with rfl | hpos
  · rw [rankOf_zero]
    exact Nat.zero_le _
  · refine Nat.not_lt.mp fun hlt => ?_
    have hpast := (lt_rankOf_iff hprecision hpos _).mp hlt
    have hself : f.rankOf r < f.rankOf r := by
      refine (lt_rankOf_iff hprecision (hpos.trans_le h) _).mpr ?_
      rcases hpast with hpast | ⟨heq, hodd⟩
      · exact .inl (hpast.trans_le h)
      · exact (heq.trans_le h).lt_or_eq.imp_right fun heq => ⟨heq, hodd⟩
    exact absurd hself (lt_irrefl _)

/-- No other magnitude is nearer than the one that a rational is rounded to; if one is as near, the rank is even. -/
theorem abs_sub_rankOf_le {r : ℚ} (hr : 0 ≤ r) {j : ℕ} (hj : j ≠ f.rankOf r) :
    |r - f.magnitude (f.rankOf r)| ≤ |r - f.magnitude j| ∧
      (|r - f.magnitude j| = |r - f.magnitude (f.rankOf r)| → Even (f.rankOf r)) := by
  rcases hr.eq_or_lt with rfl | hpos
  · rw [rankOf_zero, magnitude_first, sub_zero, abs_zero]
    exact ⟨abs_nonneg _, fun _ => Even.zero⟩
  obtain ⟨k, hk⟩ : ∃ k, f.rankOf r = k := ⟨_, rfl⟩
  rw [hk] at hj ⊢
  rcases Nat.lt_or_gt_of_ne hj with hlt | hgt
  -- The midpoint before the rank is between the two magnitudes.
  · obtain ⟨b, rfl⟩ : ∃ b, k = b + 1 := ⟨k - 1, by omega⟩
    obtain ⟨hle, heven⟩ := midpoint_le_of_rankOf hprecision hpos hk
    have hbefore : f.magnitude j ≤ f.magnitude b := f.magnitude_strictMono.monotone (by omega)
    have hascend : f.magnitude b < f.magnitude (b + 1) := f.magnitude_strictMono (Nat.lt_add_one b)
    rw [midpoint] at hle heven
    have habove : |r - f.magnitude j| = r - f.magnitude j := abs_of_pos (by linarith)
    rw [habove]
    refine ⟨abs_le.mpr ⟨by linarith, by linarith⟩, fun htie => heven ?_⟩
    rcases abs_choice (r - f.magnitude (b + 1)) with h | h
    · rw [h] at htie
      linarith
    · rw [h] at htie
      linarith
  · obtain ⟨hle, heven⟩ := le_midpoint_rankOf hprecision hpos
    rw [hk, midpoint] at hle heven
    have hbehind : f.magnitude (k + 1) ≤ f.magnitude j := f.magnitude_strictMono.monotone (by omega)
    have hascend : f.magnitude k < f.magnitude (k + 1) := f.magnitude_strictMono (Nat.lt_add_one k)
    have hbelow : |r - f.magnitude j| = f.magnitude j - r := by
      rw [abs_of_neg (by linarith), neg_sub]
    rw [hbelow]
    refine ⟨abs_le.mpr ⟨by linarith, by linarith⟩, fun htie => heven ?_⟩
    rcases abs_choice (r - f.magnitude k) with h | h
    · rw [h] at htie
      linarith
    · rw [h] at htie
      linarith

omit hprecision in
/-- A number with its sign changed is nearer to no number that is not negative. -/
theorem abs_sub_abs_le {q : ℚ} (hq : 0 ≤ q) (u : ℚ) : |q - (|u|)| ≤ |q - u| := by
  have hdist := abs_abs_sub_abs_le q u
  rwa [abs_of_nonneg hq] at hdist

variable (hblocks : 2 ≤ f.blocks)
include hblocks

theorem isNearest_magnitude {q : ℚ} (hq : 0 ≤ q) (hrange : f.rankOf q < f.limit) :
    f.IsNearest q (f.magnitude (f.rankOf q)) where
  representable := ⟨_, _, represents_magnitude hblocks hrange⟩
  nearest := by
    rintro u ⟨m, e, hu⟩
    obtain ⟨j, -, hj⟩ := hu.exists_rank hblocks
    refine le_trans ?_ (abs_sub_abs_le hq u)
    rw [← hj]
    by_cases hrank : j = f.rankOf q
    · rw [hrank]
    · exact (abs_sub_rankOf_le hprecision hq hrank).1
  even := by
    rintro u ⟨m, e, hu⟩ hne htie
    refine ⟨_, _, represents_magnitude hblocks hrange, even_significand hprecision ?_⟩
    obtain ⟨j, -, hj⟩ := hu.exists_rank hblocks
    by_cases hrank : j = f.rankOf q
    -- The same magnitude with the other sign is as near to zero only.
    · rw [← hrank, hj] at hne htie
      have hu : u = -|u| := (abs_choice u).elim (fun h => absurd h.symm hne) fun h => by rw [h, neg_neg]
      have hpos : 0 < |u| := abs_pos.mpr fun hzero => hne (by rw [hzero, abs_zero])
      have hzero : q = 0 := by
        rw [hu, abs_neg, abs_abs] at htie
        rcases abs_eq_abs.mp htie with h | h <;> linarith
      rw [hzero, rankOf_zero]
      exact Even.zero
    · obtain ⟨hle, heven⟩ := abs_sub_rankOf_le hprecision hq hrank
      rw [hj] at hle heven
      exact heven (le_antisymm ((abs_sub_abs_le hq u).trans htie.le) hle)

end Nearest

theorem abs_neg_sub (q u : ℚ) : |-q - u| = |q - -u| := by
  rw [← abs_neg, neg_sub, sub_neg_eq_add, sub_neg_eq_add, add_comm]

theorem IsNearest.neg {f : BinaryFormat} {q w : ℚ} (h : f.IsNearest q w) : f.IsNearest (-q) (-w) where
  representable := h.representable.neg
  nearest u hu := by
    rw [abs_neg_sub, abs_neg_sub, neg_neg]
    exact h.nearest (-u) hu.neg
  even u hu hne htie := by
    rw [abs_neg_sub, abs_neg_sub, neg_neg] at htie
    obtain ⟨m, e, hw, heven⟩ := h.even (-u) hu.neg (fun h => hne (neg_eq_iff_eq_neg.mp h)) htie
    exact ⟨m, e, hw.neg, heven⟩

/-- The number that a rational in range is rounded to. -/
def nearestNumber (q : ℚ) : ℚ := if q < 0 then -f.magnitude (f.rankOf q) else f.magnitude (f.rankOf q)

/-- The sign stays outside the rounding. -/
theorem nearestNumber_signed (s : Bool) {r : ℚ} (hr : 0 ≤ r) :
    f.nearestNumber (if s then -r else r) = if s then -f.magnitude (f.rankOf r) else f.magnitude (f.rankOf r) := by
  unfold nearestNumber
  cases s with
  | false => exact if_neg (not_lt.mpr hr)
  | true =>
      simp only [if_true, rankOf_neg]
      rcases hr.eq_or_lt with rfl | hpos
      · rw [rankOf_zero, magnitude_first, neg_zero, ite_self]
      · exact if_pos (neg_neg_of_pos hpos)

section NearestNumber

variable {f} (hprecision : 2 ≤ f.precision)
include hprecision

theorem isNearest_nearestNumber (hblocks : 2 ≤ f.blocks) {q : ℚ} (hrange : f.rankOf q < f.limit) :
    f.IsNearest q (f.nearestNumber q) := by
  unfold nearestNumber
  split
  · rename_i hneg
    rw [← rankOf_neg] at hrange ⊢
    have hnearest := isNearest_magnitude hprecision hblocks (neg_nonneg.mpr hneg.le) hrange
    have hback := hnearest.neg
    rwa [neg_neg] at hback
  · rename_i hnonneg
    exact isNearest_magnitude hprecision hblocks (not_lt.mp hnonneg) hrange

theorem nearestNumber_mono {q r : ℚ} (h : q ≤ r) : f.nearestNumber q ≤ f.nearestNumber r := by
  unfold nearestNumber
  split
  · rename_i hq
    split
    · rename_i hr
      rw [← f.rankOf_neg q, ← f.rankOf_neg r]
      exact neg_le_neg (f.magnitude_strictMono.monotone (rankOf_mono hprecision (by linarith) (by linarith)))
    · exact (neg_nonpos.mpr (f.magnitude_nonneg _)).trans (f.magnitude_nonneg _)
  · rename_i hq
    rw [if_neg (by linarith)]
    exact f.magnitude_strictMono.monotone (rankOf_mono hprecision (not_lt.mp hq) h)

end NearestNumber

end Progression.BinaryFormat
