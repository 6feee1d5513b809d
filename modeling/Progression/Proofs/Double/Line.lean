import Progression.Proofs.Double.Representable
import Progression.Proofs.Double.Zeros

/-! # Doubles on the line

The double nearest to a number is finite if the number is short of the overflow bound. The finite doubles have the order
of their values, both zeros being one value, and between two finite doubles there are finite ones only. -/

namespace Progression.Double

theorem rankOf_lt_limit_iff (r : ℚ) : binary64.rankOf r < binary64.limit ↔ |r| < overflowBound := by
  rcases (abs_nonneg r).eq_or_lt with hzero | hpos
  · rw [← hzero, abs_eq_zero.mp hzero.symm]
    exact iff_of_true (by decide) (abs_zero.trans_lt overflowBound_pos)
  · rw [← binary64.rankOf_abs, ← not_le, limit_le_rankOf_iff_overflow hpos, not_le]

theorem signed_neg (s : Bool) (r : ℚ) : signed s (-r) = signed s r := by
  unfold signed
  simp only [BinaryFormat.rankOf_neg]

theorem same_signed (s : Bool) (r : ℚ) : (signed s r).same (signed s r) := by
  by_cases h : binary64.rankOf r < binary64.limit
  · rw [signed, dif_pos h]
    simp [same, position?]
  · rw [signed, dif_neg h]
    simp [same, position?]

theorem isFinite_signed_iff (s : Bool) (r : ℚ) : (signed s r).isFinite ↔ |r| < overflowBound := by
  rw [← rankOf_lt_limit_iff, signed]
  split
  · rename_i h
    exact iff_of_true rfl h
  · rename_i h
    exact iff_of_false Bool.false_ne_true h

theorem signed_of_le {r : ℚ} (h : overflowBound ≤ |r|) (s : Bool) : signed s r = .infinite s := by
  rw [signed, dif_neg fun hlt => absurd ((rankOf_lt_limit_iff r).mp hlt) (not_lt.mpr h)]

section Rounded

variable {r : ℚ}

theorem toRat?_signed (s : Bool) (hr : 0 ≤ r) (hrange : r < overflowBound) :
    (signed s r).toRat? = some (binary64.nearestNumber (if s then -r else r)) := by
  have hrank : binary64.rankOf r < binary64.limit := (rankOf_lt_limit_iff r).mpr (by rwa [abs_of_nonneg hr])
  rw [binary64.nearestNumber_signed s hr, signed, dif_pos hrank]
  rfl

theorem toRat?_ofRat (hrange : |r| < overflowBound) : (ofRat r).toRat? = some (binary64.nearestNumber r) := by
  rw [ofRat]
  by_cases hneg : r < 0
  · have hsigned := toRat?_signed true (abs_nonneg r) hrange
    rw [if_pos rfl, abs_of_neg hneg, neg_neg, signed_neg] at hsigned
    rwa [decide_eq_true hneg]
  · have hsigned := toRat?_signed false (abs_nonneg r) hrange
    rw [if_neg Bool.false_ne_true, abs_of_nonneg (not_lt.mp hneg)] at hsigned
    rwa [decide_eq_false hneg]

end Rounded

/-- The value at a place between the infinities. -/
def numberAt (i : Int) : ℚ := if i < 0 then -binary64.magnitude i.natAbs else binary64.magnitude i.natAbs

theorem magnitude_nonneg (rank : Nat) : 0 ≤ binary64.magnitude rank := by
  rw [← magnitude_zero]
  exact binary64.magnitude_strictMono.monotone (Nat.zero_le rank)

theorem abs_signed (s : Bool) (r : ℚ) : |if s then -r else r| = |r| := by
  cases s with
  | false => rfl
  | true => exact abs_neg r

theorem numberAt_lt_of_lt {i j : Int} (hij : i < j) : numberAt i < numberAt j := by
  unfold numberAt
  split
  · split
    · exact neg_lt_neg (binary64.magnitude_strictMono (by omega))
    · have hpos : binary64.magnitude 0 < binary64.magnitude i.natAbs := binary64.magnitude_strictMono (by omega)
      have hnonneg := magnitude_nonneg j.natAbs
      rw [magnitude_zero] at hpos
      linarith
  · rw [if_neg (by omega)]
    exact binary64.magnitude_strictMono (by omega)

theorem numberAt_le_of_le {i j : Int} (hij : i ≤ j) : numberAt i ≤ numberAt j := by
  rcases Int.lt_or_eq_of_le hij with hlt | rfl
  · exact (numberAt_lt_of_lt hlt).le
  · exact le_rfl

theorem numberAt_lt_iff {i j : Int} : numberAt i < numberAt j ↔ i < j := by
  refine ⟨fun hlt => Int.not_le.mp fun hle => ?_, numberAt_lt_of_lt⟩
  exact absurd (numberAt_le_of_le hle) (not_le.mpr hlt)

theorem numberAt_zero : numberAt 0 = 0 := by
  rw [numberAt, if_neg (by decide), Int.natAbs_zero, magnitude_zero]

section Values

variable {u v w : Double} {r s : ℚ}

/-- A double has a value if its place is short of the infinities. -/
theorem toRat?_eq_some_iff :
    v.toRat? = some r ↔ ∃ i, v.position? = some i ∧ i.natAbs < binary64.limit ∧ numberAt i = r := by
  cases v with
  | nan => exact iff_of_false (fun h => by cases h) fun ⟨i, hi, _⟩ => by cases hi
  | infinite negative =>
      refine iff_of_false (fun h => by cases h) fun ⟨i, hi, hlt, _⟩ => ?_
      have hplace := Option.some.inj hi
      split at hplace <;> omega
  | finite negative rank =>
      have hvalue : numberAt (if negative then -rank.val else rank.val) =
          if negative then -binary64.magnitude rank else binary64.magnitude rank := by
        cases negative with
        | false => simp [numberAt]
        | true =>
            rcases Nat.eq_zero_or_pos rank.val with hzero | hpos
            · simp [numberAt, hzero, magnitude_zero]
            · simp [numberAt, hpos]
      constructor
      · intro h
        have hlt := rank.isLt
        refine ⟨_, rfl, ?_, hvalue.trans (Option.some.inj h)⟩
        split <;> omega
      · rintro ⟨i, hi, -, rfl⟩
        obtain rfl := Option.some.inj hi
        exact congrArg some hvalue.symm

theorem isFinite_iff : v.isFinite ↔ ∃ r, v.toRat? = some r := by
  cases v with
  | nan => exact iff_of_false (fun h => by cases h) fun ⟨r, hr⟩ => by cases hr
  | infinite negative => exact iff_of_false (fun h => by cases h) fun ⟨r, hr⟩ => by cases hr
  | finite negative rank => exact ⟨fun _ => ⟨_, rfl⟩, fun _ => rfl⟩

/-- A value is below zero if the double is, which the negative zero is not. -/
theorem less_zero_iff (hv : v.toRat? = some r) : v.less 0 ↔ r < 0 := by
  obtain ⟨i, hi, -, rfl⟩ := toRat?_eq_some_iff.mp hv
  unfold less
  rw [hi, position_zero, ← numberAt_zero, numberAt_lt_iff, decide_eq_true_eq]

/-- The first number is not above the second; not-a-number is not at most any number. -/
def AtMost (v w : Double) : Prop := v.less w ∨ v.same w

theorem atMost_iff : v.AtMost w ↔ ∃ i j, v.position? = some i ∧ w.position? = some j ∧ i ≤ j := by
  unfold AtMost less same
  cases v.position? <;> cases w.position? <;> simp [Int.le_iff_lt_or_eq]

theorem AtMost.le (h : v.AtMost w) (hv : v.toRat? = some r) (hw : w.toRat? = some s) : r ≤ s := by
  obtain ⟨i, j, hi, hj, hij⟩ := atMost_iff.mp h
  obtain ⟨i', hi', -, rfl⟩ := toRat?_eq_some_iff.mp hv
  obtain ⟨j', hj', -, rfl⟩ := toRat?_eq_some_iff.mp hw
  rw [hi] at hi'
  rw [hj] at hj'
  cases hi'
  cases hj'
  exact numberAt_le_of_le hij

/-- What is between two finite doubles is finite. -/
theorem AtMost.exists_between (huv : u.AtMost v) (hvw : v.AtMost w) (hu : u.isFinite) (hw : w.isFinite) :
    ∃ r, v.toRat? = some r := by
  obtain ⟨i, j, hi, hj, hij⟩ := atMost_iff.mp huv
  obtain ⟨j', k, hj', hk, hjk⟩ := atMost_iff.mp hvw
  rw [hj] at hj'
  cases hj'
  obtain ⟨r, hr⟩ := isFinite_iff.mp hu
  obtain ⟨s, hs⟩ := isFinite_iff.mp hw
  obtain ⟨i', hi', hilt, -⟩ := toRat?_eq_some_iff.mp hr
  obtain ⟨k', hk', hklt, -⟩ := toRat?_eq_some_iff.mp hs
  rw [hi] at hi'
  rw [hk] at hk'
  cases hi'
  cases hk'
  exact ⟨_, toRat?_eq_some_iff.mpr ⟨j, hj, by omega, rfl⟩⟩

end Values

end Progression.Double
