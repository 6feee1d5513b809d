import Progression.Proofs.Double.Operations
import Progression.Proofs.Double.Significant

/-! # Results between integers

A sum or a product of finite doubles is the exact one, rounded once. Rounding keeps the order of numbers, and it moves
no integer of at most 53 bits. So what is exactly between two such integers is rounded to a double between them. -/

namespace Progression.Double

section Rounded

variable {a b : Double} {q r : ℚ}

theorem toRat?_add (ha : a.toRat? = some q) (hb : b.toRat? = some r) (hrange : |q + r| < overflowBound) :
    (a + b).toRat? = some (binary64.nearestNumber (q + r)) := by
  obtain ⟨s, m, rfl, rfl⟩ := exists_finite_of_toRat ha
  obtain ⟨t, n, rfl, rfl⟩ := exists_finite_of_toRat hb
  have hadd : finite s m + finite t n = roundExact (s && t) (valueOf s m + valueOf t n) := rfl
  rw [hadd, roundExact]
  split
  · rename_i hzero
    rw [toRat?_zero, hzero, BinaryFormat.nearestNumber, if_neg (lt_irrefl 0), BinaryFormat.rankOf_zero,
      BinaryFormat.magnitude_first]
  · exact toRat?_ofRat hrange

theorem toRat?_mul (ha : a.toRat? = some q) (hb : b.toRat? = some r) (hrange : |q * r| < overflowBound) :
    (a * b).toRat? = some (binary64.nearestNumber (q * r)) := by
  obtain ⟨s, m, rfl, rfl⟩ := exists_finite_of_toRat ha
  obtain ⟨t, n, rfl, rfl⟩ := exists_finite_of_toRat hb
  have hproduct : valueOf s m * valueOf t n =
      if s ^^ t then -(binary64.magnitude m * binary64.magnitude n)
      else binary64.magnitude m * binary64.magnitude n := by
    unfold valueOf
    cases s <;> cases t <;> simp
  have hnonneg := mul_nonneg (magnitude_nonneg m) (magnitude_nonneg n)
  rw [hproduct, abs_signed, abs_of_nonneg hnonneg] at hrange
  rw [hproduct]
  exact toRat?_signed _ hnonneg hrange

end Rounded

/-- An integer has at most 53 bits, or is the power of two behind these. -/
def Small (n : Int) : Prop := |n| ≤ 2 ^ 53

instance (n : Int) : Decidable (Small n) := inferInstanceAs (Decidable (_ ≤ _))

theorem Small.nearestNumber_eq {n : Int} (hn : Small n) : binary64.nearestNumber n = n := by
  rw [nearestNumber_intCast, roundedTo_of_le hn]

/-- Numbers of everyday size are in range. -/
theorem lt_overflowBound {q : ℚ} (h : q ≤ 2 ^ 200) : q < overflowBound := by
  have hpow : (2 : ℚ) ^ 200 ≤ 2 ^ 1023 := pow_le_pow_right₀ one_le_two (by decide)
  exact (h.trans hpow).trans_lt pow_lt_overflowBound

theorem Small.abs_lt_overflowBound {n : Int} (hn : Small n) : |(n : ℚ)| < overflowBound := by
  have hcast : |(n : ℚ)| ≤ 2 ^ 53 := by exact_mod_cast hn
  exact lt_overflowBound (hcast.trans (pow_le_pow_right₀ one_le_two (by decide)))

/-- The double is finite, and its value is between the two integers or one of them. -/
def Within (lo hi : Int) (v : Double) : Prop := ∃ r, v.toRat? = some r ∧ (lo : ℚ) ≤ r ∧ r ≤ hi

section Within

variable {lo hi lo' hi' : Int} {a b : Double} {r : ℚ}

/-- What is rounded between two small integers stays between them. -/
theorem Within.of_nearest (hlo : Small lo) (hhi : Small hi) (hle : (lo : ℚ) ≤ r) (hge : r ≤ hi)
    (hv : |r| < overflowBound → a.toRat? = some (binary64.nearestNumber r)) : Within lo hi a := by
  have hrange : |r| < overflowBound :=
    (abs_le_max_abs_abs hle hge).trans_lt (max_lt hlo.abs_lt_overflowBound hhi.abs_lt_overflowBound)
  have hbelow := BinaryFormat.nearestNumber_mono (f := binary64) (by decide) hle
  have habove := BinaryFormat.nearestNumber_mono (f := binary64) (by decide) hge
  rw [hlo.nearestNumber_eq] at hbelow
  rw [hhi.nearestNumber_eq] at habove
  exact ⟨_, hv hrange, hbelow, habove⟩

theorem within_ofRat (hlo : Small lo) (hhi : Small hi) (hle : (lo : ℚ) ≤ r) (hge : r ≤ hi) : Within lo hi (ofRat r) :=
  .of_nearest hlo hhi hle hge toRat?_ofRat

theorem within_ofInt {n : Int} (hn : Small n) : Within n n (ofInt n) := within_ofRat hn hn le_rfl le_rfl

theorem Within.add (ha : Within lo hi a) (hb : Within lo' hi' b) (hlo : Small (lo + lo')) (hhi : Small (hi + hi')) :
    Within (lo + lo') (hi + hi') (a + b) := by
  obtain ⟨q, hq, hloq, hqhi⟩ := ha
  obtain ⟨r, hr, hlor, hrhi⟩ := hb
  refine .of_nearest hlo hhi ?_ ?_ (toRat?_add hq hr)
  · push_cast
    exact add_le_add hloq hlor
  · push_cast
    exact add_le_add hqhi hrhi

theorem Within.mul (ha : Within 0 hi a) (hb : Within 0 hi' b) (hhi : Small (hi * hi')) :
    Within 0 (hi * hi') (a * b) := by
  obtain ⟨q, hq, hloq, hqhi⟩ := ha
  obtain ⟨r, hr, hlor, hrhi⟩ := hb
  rw [Int.cast_zero] at hloq hlor
  refine .of_nearest (by decide) hhi ?_ ?_ (toRat?_mul hq hr)
  · rw [Int.cast_zero]
    exact mul_nonneg hloq hlor
  · push_cast
    exact mul_le_mul hqhi hrhi hlor (hloq.trans hqhi)

theorem Within.mono (h : Within lo hi a) (hlo : lo' ≤ lo) (hhi : hi ≤ hi') : Within lo' hi' a := by
  obtain ⟨r, hr, hlor, hrhi⟩ := h
  exact ⟨r, hr, le_trans (by exact_mod_cast hlo) hlor, hrhi.trans (by exact_mod_cast hhi)⟩

/-- An integer shifted up by a part of a distance. -/
theorem within_between (hlo : Small lo) (hhi : Small hi) (hdistance : Small (hi - lo)) (hle : lo ≤ hi)
    (hb : Within 0 1 b) : Within lo hi (ofInt lo + ofInt (hi - lo) * b) := by
  have hnonneg : 0 ≤ hi - lo := by omega
  have hmul : Within 0 ((hi - lo) * 1) (ofInt (hi - lo) * b) :=
    ((within_ofInt hdistance).mono hnonneg le_rfl).mul hb (by rwa [mul_one])
  rw [mul_one] at hmul
  have hadd := (within_ofInt hlo).add hmul (by rwa [add_zero]) (by rwa [add_sub_cancel])
  rwa [add_zero, add_sub_cancel] at hadd

end Within

end Progression.Double
