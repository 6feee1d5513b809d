import Progression.Double.Layout
import Progression.Proofs.Double.Rounding

/-! # Digits that read back

Reading a decimal number rounds its exact value, also where the answer is plain from the sizes alone. The
digits that a magnitude is written with are looked for among numbers that are rounded to it, and if none is
found they are those of the exact magnitude, which is rounded to itself. -/

namespace Progression.Double

theorem signed_of_rankOf {negative : Bool} {r : ℚ} {rank : Fin binary64.limit} (h : binary64.rankOf r = rank) :
    signed negative r = .finite negative rank := by
  have hlt : binary64.rankOf r < binary64.limit := h ▸ rank.isLt
  rw [signed, dif_pos hlt]
  exact congrArg _ (Fin.ext h)

theorem signed_of_rankOf_eq_zero (negative : Bool) {r : ℚ} (h : binary64.rankOf r = 0) :
    signed negative r = zero negative :=
  @signed_of_rankOf negative r ⟨0, by decide⟩ h

theorem eight_zpow (e : Int) : (8 : ℚ) ^ e = 2 ^ (3 * e) := by
  rw [zpow_mul]
  norm_num

theorem decimalRat_pos {c : Nat} (hc : c ≠ 0) (e : Int) : 0 < decimalRat c e := by
  have hpos : (0 : ℚ) < c := by exact_mod_cast Nat.pos_of_ne_zero hc
  rw [decimalRat_eq]
  exact mul_pos hpos (ten_zpow_pos e)

theorem le_decimalRat {c : Nat} (hc : c ≠ 0) {e : Int} (he : 0 ≤ e) : 2 ^ ((c.log2 : ℤ) + 3 * e) ≤ decimalRat c e := by
  have hlog : (2 : ℚ) ^ c.log2 ≤ c := by exact_mod_cast Nat.log2_self_le hc
  have hpow : (8 : ℚ) ^ e ≤ 10 ^ e := zpow_le_zpow_left₀ he (by norm_num) (by norm_num)
  rw [decimalRat_eq, zpow_add₀ two_ne_zero, ← eight_zpow, zpow_natCast]
  exact mul_le_mul hlog hpow (zpow_nonneg (by norm_num) e) (Nat.cast_nonneg c)

theorem decimalRat_lt (c : Nat) {e : Int} (he : e < 0) : decimalRat c e < 2 ^ ((c.log2 : ℤ) + 1 + 3 * e) := by
  have hlog : (c : ℚ) < 2 ^ (c.log2 + 1) := by exact_mod_cast Nat.lt_log2_self
  have hpow : (10 : ℚ) ^ e ≤ 8 ^ e := by
    obtain ⟨n, rfl⟩ : ∃ n : Nat, e = -n := ⟨(-e).toNat, by omega⟩
    rw [zpow_neg, zpow_neg, zpow_natCast, zpow_natCast]
    exact inv_anti₀ (by positivity) (pow_le_pow_left₀ (by norm_num) (by norm_num) n)
  rw [decimalRat_eq, zpow_add₀ two_ne_zero, ← eight_zpow]
  have hcast : (2 : ℚ) ^ ((c.log2 : ℤ) + 1) = 2 ^ (c.log2 + 1) := by
    rw [← zpow_natCast]
    norm_num
  rw [hcast]
  calc
    (c : ℚ) * 10 ^ e ≤ c * 8 ^ e := mul_le_mul_of_nonneg_left hpow (Nat.cast_nonneg c)
    _ < 2 ^ (c.log2 + 1) * 8 ^ e := mul_lt_mul_of_pos_right hlog (zpow_pos (by norm_num) e)

/-- A decimal number is read as the double nearest to its exact value, however large or small it is. -/
theorem ofDecimal_eq (negative : Bool) (c : Nat) (e : Int) :
    ofDecimal negative c e = signed negative (decimalRat c e) := by
  rw [ofDecimal]
  split
  · rename_i hc
    subst hc
    have hzero : binary64.rankOf (decimalRat 0 e) = 0 := by
      rw [decimalRat_eq, Nat.cast_zero, zero_mul, BinaryFormat.rankOf_zero]
    exact (signed_of_rankOf_eq_zero negative hzero).symm
  · rename_i hc
    split
    · rename_i hlarge
      have hle : (2 : ℚ) ^ (1024 : ℤ) ≤ decimalRat c e :=
        (zpow_le_zpow_right₀ one_le_two hlarge.2).trans (le_decimalRat hc hlarge.1)
      rw [signed, dif_neg (Nat.not_lt_of_le (limit_le_rankOf hle))]
    · split
      · rename_i hsmall
        have hlt : decimalRat c e < 2 ^ (-1075 : ℤ) :=
          (decimalRat_lt c hsmall.1).trans_le (zpow_le_zpow_right₀ one_le_two hsmall.2)
        exact (signed_of_rankOf_eq_zero negative (rankOf_eq_zero (decimalRat_pos hc e) hlt)).symm
      · rfl

theorem rankOf_of_gridPoint? {rank c : Nat} {r : ℚ} {e : Int} (h : gridPoint? rank r e = some c) :
    binary64.rankOf (decimalRat c e) = rank := by
  have hreads : ∀ {c' : Nat}, (c' != 0 && binary64.rankOf (decimalRat c' e) == rank) = true →
      binary64.rankOf (decimalRat c' e) = rank := by
    intro c' hc
    exact beq_iff_eq.mp (Bool.and_eq_true_iff.mp hc).2
  simp only [gridPoint?] at h
  generalize (if 0 ≤ e then r / decimalRat 1 e else r * decimalRat 1 (-e)).floor.toNat = below at h
  split at h
  · rename_i hboth
    obtain ⟨hbelow, habove⟩ := Bool.and_eq_true_iff.mp hboth
    split at h
    · obtain rfl := Option.some.inj h
      exact hreads hbelow
    · obtain rfl := Option.some.inj h
      exact hreads habove
  · split at h
    · rename_i hbelow
      obtain rfl := Option.some.inj h
      exact hreads hbelow
    · split at h
      · rename_i habove
        obtain rfl := Option.some.inj h
        exact hreads habove
      · exact nomatch h

theorem rankOf_of_searchGrids {rank tries : Nat} {r : ℚ} {e : Int} {d : DecimalDigits}
    (h : searchGrids rank r tries e = some d) : binary64.rankOf (decimalRat d.coefficient d.exponent) = rank := by
  induction tries generalizing e with
  | zero => exact nomatch h
  | succ tries ih =>
      rw [searchGrids] at h
      split at h
      · rename_i c hpoint
        obtain rfl := Option.some.inj h
        exact rankOf_of_gridPoint? hpoint
      · exact ih h

theorem decimalRat_exactDigits (m : Nat) (q : Int) :
    decimalRat (exactDigits m q).coefficient (exactDigits m q).exponent = dyadic m q := by
  rw [dyadic_eq]
  obtain ⟨n, rfl | rfl⟩ := q.eq_nat_or_neg
  · rw [exactDigits, if_pos (Int.natCast_nonneg n), decimalRat_eq]
    push_cast [Nat.pow_eq, Int.toNat_natCast]
    rw [mul_one, zpow_natCast]
  · have htwo : (2 : ℚ) ^ (-(n : ℤ)) = 5 ^ n * 10 ^ (-(n : ℤ)) := by
      rw [zpow_neg, zpow_neg, zpow_natCast, zpow_natCast, show (10 : ℚ) = 5 * 2 by norm_num, mul_pow, mul_inv,
        mul_inv_cancel_left₀ (pow_ne_zero n (by norm_num))]
    rcases Nat.eq_zero_or_pos n with rfl | hn
    · simp [exactDigits, decimalRat_eq]
    · rw [exactDigits, if_neg (by omega), decimalRat_eq, htwo]
      simp only [neg_neg, Int.toNat_natCast]
      rw [Nat.cast_mul, Nat.pow_eq, Nat.cast_pow, Nat.cast_ofNat, mul_assoc]

/-- The digits of a magnitude read back as it. -/
theorem rankOf_shortestDigits (rank : Nat) :
    binary64.rankOf (decimalRat (shortestDigits rank).coefficient (shortestDigits rank).exponent) = rank := by
  simp only [shortestDigits]
  cases h : searchGrids rank (binary64.magnitude rank) gridTries (gridStart (binary64.magnitude rank)) with
  | some d => exact rankOf_of_searchGrids h
  | none =>
      rw [Option.getD_none, decimalRat_exactDigits]
      exact binary64.rankOf_magnitude (by decide) rank

end Progression.Double
