import Progression.Double.Fixed
import Progression.Proofs.Double.Spelling
import Progression.Proofs.Double.Within

/-! # Doubles to a fixed number of places

The text of a double to a number of places is a literal, with or without an exponent. It writes the magnitude rounded to
the last place, so it is off by half of that place at most. Unless the magnitude is close to the greatest, what is read
from the text is therefore finite. -/

namespace Progression.Double

variable {r : ℚ}

theorem nearestEven_scaledRound (hr : 0 ≤ r) (e : Int) : NearestEven (r * 10 ^ e) (scaledRound r e) := by
  have hscaled : r * decimalRat 1 e = r * 10 ^ e := by rw [decimalRat_eq, Nat.cast_one, one_mul]
  obtain ⟨s, hs⟩ : ∃ s : ℚ, r * 10 ^ e = s := ⟨_, rfl⟩
  have hnonneg : 0 ≤ s := hs ▸ mul_nonneg hr (ten_zpow_pos e).le
  have hquotient : (s.num.natAbs : ℚ) / s.den = s := by
    rw [Nat.cast_natAbs, abs_of_nonneg (Rat.num_nonneg.mpr hnonneg), Rat.num_div_den]
  have hnearest : NearestEven ((s.num.natAbs : ℚ) / s.den) (roundQuotient s.num.natAbs s.den) :=
    nearestEven_roundQuotient s.den_pos
  rw [hquotient] at hnearest
  rw [scaledRound, hscaled, hs]
  exact hnearest

/-- The multiple of a place that a number is rounded to is off by half of the place at most. -/
theorem abs_scaledRound_sub_le (hr : 0 ≤ r) (e : Int) : |decimalRat (scaledRound r e) (-e) - r| ≤ 10 ^ (-e) / 2 := by
  have hunit := ten_zpow_pos (-e)
  have hinverse : (10 : ℚ) ^ e * 10 ^ (-e) = 1 := by
    rw [← zpow_add₀ (by norm_num), add_neg_cancel, zpow_zero]
  have hsplit : decimalRat (scaledRound r e) (-e) - r = (scaledRound r e - r * 10 ^ e) * 10 ^ (-e) := by
    rw [decimalRat_eq, sub_mul, mul_assoc, hinverse, mul_one]
  have hhalf := (nearestEven_scaledRound hr e).half
  rw [Int.cast_natCast] at hhalf
  rw [hsplit, abs_mul, abs_of_pos hunit, abs_sub_comm, div_eq_mul_one_div, mul_comm (10 ^ (-e) : ℚ)]
  exact mul_le_mul_of_nonneg_right hhalf hunit.le

/-- The point stands in front of the last places, and an exponent moves it. -/
theorem writes_withPoint (n places : Nat) (exponent : Option Text.Exponent) (hexponent : ∀ e ∈ exponent, e.WellFormed) :
    Writes (withPoint n places ++ Text.Literal.exponentSpelling exponent)
      (decimalRat n (exponent.elim 0 Text.Exponent.value - places)) := by
  obtain ⟨padded, hpadded⟩ : ∃ padded,
      zeros (places + 1 - (Text.decimalDigits n).length) ++ Text.decimalDigits n = padded := ⟨_, rfl⟩
  have hdigits : ∀ c ∈ padded, Text.isDigit c :=
    hpadded ▸ isDigit_of_mem_append (fun _ => isDigit_of_mem_zeros) fun _ => Text.isDigit_of_mem_decimalDigits
  have hvalue : Text.digitsValue padded = n := by
    rw [← hpadded, zeros, Text.digitsValue_append, Text.digitsValue_replicate_zero, Nat.zero_mul, Nat.zero_add,
      Text.digitsValue_decimalDigits]
  have hlength : places + 1 ≤ padded.length := by
    rw [← hpadded, zeros, List.length_append, List.length_replicate]
    omega
  have hwhole : padded.take (padded.length - places) ≠ [] := by
    refine List.ne_nil_of_length_pos ?_
    rw [List.length_take]
    omega
  have hwrites := writes_literal (some (padded.drop (padded.length - places))) exponent
    (fun c hc => hdigits c (List.mem_of_mem_take hc)) hwhole (fun c hc => hdigits c (List.mem_of_mem_drop hc)) hexponent
  have hexact : digitsRat (padded.take (padded.length - places) ++ padded.drop (padded.length - places))
      (exponent.elim 0 Text.Exponent.value + (padded.take (padded.length - places)).length - 1) =
        decimalRat n (exponent.elim 0 Text.Exponent.value - places) := by
    rw [List.take_append_drop, digitsRat, hvalue, List.length_take]
    congr 1
    omega
  have htext : withPoint n places =
      padded.take (padded.length - places) ++ '.' :: padded.drop (padded.length - places) := by
    rw [withPoint, hpadded]
  rw [Option.getD_some, hexact] at hwrites
  rw [htext, List.append_assoc]
  exact hwrites

theorem writes_withPoint_exponentText (n places : Nat) (lead : Int) :
    Writes (withPoint n places ++ exponentText lead) (decimalRat n (lead - places)) := by
  have hexponent : ∀ e ∈ some (exponentPart lead), e.WellFormed := by
    rintro e ⟨⟩
    exact exponentPart_wellFormed lead
  have hwrites := writes_withPoint n places (some (exponentPart lead)) hexponent
  rwa [Text.Literal.exponentSpelling, exponentPart_spelling, Option.elim_some, exponentPart_value] at hwrites

/-- A text is a literal without sign, and the number it writes is off from `r` by half of `10 ^ e` at most. -/
def WritesNear (cs : List Char) (r : ℚ) (e : Int) : Prop := ∃ q, Writes cs q ∧ |q - r| ≤ 10 ^ e / 2

theorem writesNear_fixedMagnitude (places : Nat) (hr : 0 ≤ r) : WritesNear (fixedMagnitude places r) r (-places) := by
  have hwrites := writes_withPoint (scaledRound r places) places none (by simp)
  rw [Text.Literal.exponentSpelling, List.append_nil, Option.elim_none, zero_sub] at hwrites
  exact ⟨_, hwrites, abs_scaledRound_sub_le hr places⟩

theorem leadExponent_le (r : ℚ) (tries : Nat) (e : Int) : leadExponent r tries e ≤ e := by
  induction tries generalizing e with
  | zero => exact le_rfl
  | succ tries ih =>
      rw [leadExponent]
      split
      · exact le_rfl
      · exact (ih (e - 1)).trans (by omega)

/-- A carry out of all digits moves the point by one place. -/
theorem writes_scientificMagnitude (places : Nat) (r : ℚ) : ∃ lead ≤ gridStart r,
    Writes (scientificMagnitude places r) (decimalRat (scaledRound r (places - lead)) (lead - places)) := by
  rw [scientificMagnitude]
  by_cases hzero : r = 0
  · refine ⟨gridStart r, le_rfl, ?_⟩
    have hrounded : scaledRound r (places - gridStart r) = 0 := by
      rw [hzero, scaledRound, zero_mul]
      rfl
    rw [if_pos hzero, hrounded, decimalRat_zero, ← decimalRat_zero (0 - places)]
    exact writes_withPoint_exponentText 0 places 0
  · refine ⟨leadExponent r gridTries (gridStart r), leadExponent_le _ _ _, ?_⟩
    rw [if_neg hzero]
    simp only
    split
    · rename_i hcarry
      have hshift := decimalRat_mul_pow (10 ^ places) 1 (leadExponent r gridTries (gridStart r) - places)
      rw [Nat.pow_eq] at hcarry
      rw [hcarry, Nat.pow_succ, Nat.mul_div_cancel _ (by decide), ← Nat.pow_one 10, hshift, Nat.pow_one, Nat.cast_one,
        sub_add_eq_add_sub]
      exact writes_withPoint_exponentText _ _ _
    · exact writes_withPoint_exponentText _ _ _

theorem writesNear_scientificMagnitude (places : Nat) (hr : 0 ≤ r) :
    ∃ lead ≤ gridStart r, WritesNear (scientificMagnitude places r) r (lead - places) := by
  obtain ⟨lead, hlead, hwrites⟩ := writes_scientificMagnitude places r
  have hclose := abs_scaledRound_sub_le hr (places - lead)
  rw [neg_sub] at hclose
  exact ⟨lead, hlead, _, hwrites, hclose⟩

theorem gridStart_le {k : Nat} (hr : 0 ≤ r) (h : r < 2 ^ k) : gridStart r ≤ k + 1 := by
  have hnum : r.num.natAbs < 2 ^ (k + r.den.log2 + 1) := by
    have hden : r.den < 2 ^ (r.den.log2 + 1) := Nat.lt_log2_self
    have hcast : (r.num.natAbs : ℚ) = r * r.den := by
      rw [Nat.cast_natAbs, abs_of_nonneg (Rat.num_nonneg.mpr hr), Rat.mul_den_eq_num]
    have hlt : (r.num.natAbs : ℚ) < 2 ^ k * r.den := by
      rw [hcast]
      exact mul_lt_mul_of_pos_right h (by exact_mod_cast r.den_pos)
    calc
      r.num.natAbs < 2 ^ k * r.den := by exact_mod_cast hlt
      _ ≤ 2 ^ k * 2 ^ (r.den.log2 + 1) := Nat.mul_le_mul_left _ hden.le
      _ = 2 ^ (k + r.den.log2 + 1) := by rw [← Nat.pow_add, Nat.add_assoc]
  have hlog : r.num.natAbs.log2 ≤ k + r.den.log2 := by
    rcases Nat.eq_zero_or_pos r.num.natAbs with hzero | hpos
    · rw [hzero, Nat.log2_zero]
      exact Nat.zero_le _
    · exact Nat.lt_succ_iff.mp ((Nat.log2_lt hpos.ne').mpr hnum)
  simp only [gridStart]
  omega

section Read

variable {cs : List Char} {e : Int} {lo hi : Int} {v : Double}

theorem WritesNear.exists_finite (h : WritesNear cs r e) (hr : 0 ≤ r) (hrange : r + 10 ^ e / 2 < overflowBound)
    (s : Bool) :
    ∃ l : Text.Literal, l.WellFormed ∧ l.spelling = (if s then ['-'] else []) ++ cs ∧ l.toDouble.isFinite := by
  obtain ⟨q, hwrites, hclose⟩ := h
  obtain ⟨l, hl, hspelling, hvalue⟩ := hwrites.exists_signed s
  refine ⟨l, hl, hspelling, ?_⟩
  have htriangle := abs_add_le r (q - r)
  rw [add_sub_cancel, abs_of_nonneg hr] at htriangle
  rw [hvalue, isFinite_signed_iff]
  linarith

/-- The magnitude of a double between small integers. -/
theorem Within.exists_rank (hlo : Small lo) (hhi : Small hi) (hv : Within lo hi v) :
    ∃ s rank, v = finite s rank ∧ binary64.magnitude rank ≤ 2 ^ 53 := by
  obtain ⟨r, hr, hlor, hrhi⟩ := hv
  obtain ⟨s, rank, rfl, rfl⟩ := exists_finite_of_toRat hr
  refine ⟨s, rank, rfl, ?_⟩
  have habs := abs_le_max_abs_abs hlor hrhi
  rw [valueOf, abs_signed, abs_of_nonneg (magnitude_nonneg rank)] at habs
  exact habs.trans (max_le (by exact_mod_cast hlo) (by exact_mod_cast hhi))

theorem exists_literal_fixed (places : Nat) (hlo : Small lo) (hhi : Small hi) (hv : Within lo hi v) :
    ∃ l : Text.Literal, l.WellFormed ∧ l.spelling = v.fixed places ∧ l.toDouble.isFinite := by
  obtain ⟨s, rank, rfl, hrank⟩ := hv.exists_rank hlo hhi
  have hunit : (10 : ℚ) ^ (-places : ℤ) ≤ 1 := zpow_le_one_of_nonpos₀ (by norm_num) (by omega)
  exact (writesNear_fixedMagnitude places (magnitude_nonneg rank)).exists_finite (magnitude_nonneg rank)
    (lt_overflowBound (by linarith)) s

theorem exists_literal_scientificText (places : Nat) (hlo : Small lo) (hhi : Small hi) (hv : Within lo hi v) :
    ∃ l : Text.Literal, l.WellFormed ∧ l.spelling = v.scientificText places ∧ l.toDouble.isFinite := by
  obtain ⟨s, rank, rfl, hrank⟩ := hv.exists_rank hlo hhi
  obtain ⟨lead, hlead, hnear⟩ := writesNear_scientificMagnitude places (magnitude_nonneg rank)
  have hstart := gridStart_le (k := 54) (magnitude_nonneg rank) (hrank.trans_lt (by norm_num))
  have hunit : (10 : ℚ) ^ (lead - places) ≤ 10 ^ (55 : ℤ) := zpow_le_zpow_right₀ (by norm_num) (by omega)
  have hsum : (2 : ℚ) ^ 53 + 10 ^ (55 : ℤ) / 2 ≤ 2 ^ 200 := by norm_num
  exact hnear.exists_finite (magnitude_nonneg rank) (lt_overflowBound (by linarith)) s

end Read

end Progression.Double
