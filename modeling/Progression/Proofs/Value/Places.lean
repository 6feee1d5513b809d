import Mathlib.Tactic.LinearCombination
import Progression.Proofs.Value.Exact

/-! # The places of numbers

Numbers of all kinds are compared by their exact values: two numbers are the same if one of them has a value and the
other one has it too. -/

namespace Progression

namespace Scaled

/-- The value of a scaled number. -/
def toRat (a : Scaled) : ℚ := a.mantissa * 10 ^ a.exponent

theorem toRat_ofRat (r : ℚ) : (ofRat r).toRat = r := by rw [toRat, ofRat, zpow_zero, mul_one]

/-- The value in units that are not above those of the number. -/
theorem toRat_mul_den {a : Scaled} {unit : Int} (h : unit ≤ a.exponent) :
    a.toRat * a.mantissa.den = a.inUnits unit * 10 ^ unit := by
  have hnum : a.mantissa * a.mantissa.den = a.mantissa.num := Rat.mul_den_eq_num a.mantissa
  have hpow : (10 : ℚ) ^ a.exponent = 10 ^ (a.exponent - unit).toNat * 10 ^ unit := by
    rw [← zpow_natCast, ← zpow_add₀ (by norm_num)]
    congr 1
    omega
  calc a.toRat * a.mantissa.den = a.mantissa * a.mantissa.den * 10 ^ a.exponent := by rw [toRat]; ring
    _ = a.mantissa.num * (10 ^ (a.exponent - unit).toNat * 10 ^ unit) := by rw [hnum, hpow]
    _ = a.inUnits unit * 10 ^ unit := by
        rw [inUnits, Nat.pow_eq]
        push_cast
        ring

/-- Scaled numbers compare as equal exactly if they have one value. -/
theorem compare_eq_iff_toRat (a b : Scaled) : a.compare b = .eq ↔ a.toRat = b.toRat := by
  have hleft := Int.min_le_left a.exponent b.exponent
  have hright := Int.min_le_right a.exponent b.exponent
  have ha := toRat_mul_den hleft
  have hb := toRat_mul_den hright
  have hdens : (a.mantissa.den * b.mantissa.den : ℚ) ≠ 0 :=
    mul_ne_zero (Nat.cast_ne_zero.mpr a.mantissa.den_nz) (Nat.cast_ne_zero.mpr b.mantissa.den_nz)
  have hunit : (10 : ℚ) ^ min a.exponent b.exponent ≠ 0 := zpow_ne_zero _ (by norm_num)
  rw [compare_eq_iff hleft hright]
  constructor
  · intro h
    have hcast : (a.inUnits (min a.exponent b.exponent) * b.mantissa.den : ℚ) =
        b.inUnits (min a.exponent b.exponent) * a.mantissa.den := by
      exact_mod_cast h
    refine mul_right_cancel₀ hdens ?_
    linear_combination b.mantissa.den * ha - a.mantissa.den * hb + 10 ^ min a.exponent b.exponent * hcast
  · intro h
    rw [h] at ha
    have hcast : (a.inUnits (min a.exponent b.exponent) * b.mantissa.den : ℚ) =
        b.inUnits (min a.exponent b.exponent) * a.mantissa.den := by
      refine mul_right_cancel₀ hunit ?_
      linear_combination a.mantissa.den * hb - b.mantissa.den * ha
    exact_mod_cast hcast

theorem swap_order (m n : Int) : (order m n).swap = order n m := by
  unfold order
  grind [Ordering.swap]

/-- The order of two values is that of their numerators across, in units of the power of ten that is below both. -/
theorem toRat_lt_iff {a b : Scaled} {unit : Int} (ha : unit ≤ a.exponent) (hb : unit ≤ b.exponent) :
    a.toRat < b.toRat ↔ a.inUnits unit * b.mantissa.den < b.inUnits unit * a.mantissa.den := by
  have hdens : (0 : ℚ) < a.mantissa.den * b.mantissa.den :=
    mul_pos (Nat.cast_pos.mpr a.mantissa.den_pos) (Nat.cast_pos.mpr b.mantissa.den_pos)
  have hunit : (0 : ℚ) < 10 ^ unit := ten_zpow_pos unit
  have hleft : a.toRat * (a.mantissa.den * b.mantissa.den) = a.inUnits unit * b.mantissa.den * 10 ^ unit := by
    linear_combination b.mantissa.den * toRat_mul_den ha
  have hright : b.toRat * (a.mantissa.den * b.mantissa.den) = b.inUnits unit * a.mantissa.den * 10 ^ unit := by
    linear_combination a.mantissa.den * toRat_mul_den hb
  rw [← mul_lt_mul_iff_left₀ hdens, hleft, hright, mul_lt_mul_iff_left₀ hunit]
  exact_mod_cast Iff.rfl

/-- Scaled numbers compare as less exactly if their values do. -/
theorem isLT_compare (a b : Scaled) : (a.compare b).isLT = decide (a.toRat < b.toRat) := by
  have hself (a : Scaled) : a.inUnits a.exponent = a.mantissa.num := by simp [inUnits]
  unfold compare
  split
  · rename_i h
    rw [raisedOrder_eq, isLT_order, decide_eq_decide, toRat_lt_iff h (Int.le_refl _), hself]
    rfl
  · rename_i h
    rw [raisedOrder_eq, swap_order, isLT_order, decide_eq_decide,
      toRat_lt_iff (Int.le_refl _) (Int.le_of_lt (Int.not_le.mp h)), hself]
    rfl

end Scaled

namespace Number

/-- The value between the infinities that a place stands for. -/
def Place.toRat? : Place → Option ℚ
  | .at s => some s.toRat
  | _ => none

theorem Place.compare_at_eq_iff (p : Place) (s : Scaled) : p.compare (.at s) = .eq ↔ p.toRat? = some s.toRat := by
  cases p with
  | below => exact iff_of_false (fun h => by cases h) fun h => by cases h
  | above => exact iff_of_false (fun h => by cases h) fun h => by cases h
  | «at» r => exact (Scaled.compare_eq_iff_toRat r s).trans (Option.some_inj).symm

/-- The exact value of a number, if it is finite. -/
def toRat? : Number → Option ℚ
  | .double v => v.toRat?
  | n => n.exactValue?

theorem toRat_signedInt (s : Bool) (c : Nat) (e : Int) :
    (⟨Decimal.signedInt s c, e⟩ : Scaled).toRat = if s then -decimalRat c e else decimalRat c e := by
  rw [Scaled.toRat, decimalRat_eq]
  cases s with
  | false =>
      rw [Decimal.signedInt, if_neg Bool.false_ne_true, if_neg Bool.false_ne_true]
      push_cast
      rfl
  | true =>
      rw [Decimal.signedInt, if_pos rfl, if_pos rfl]
      push_cast
      ring

/-- The place of a number is that of its value. -/
theorem toRat?_eq (n : Number) : n.toRat? = n.place?.bind Place.toRat? := by
  have hofRat (r : ℚ) : some r = Place.toRat? (.at (.ofRat r)) := congrArg some (Scaled.toRat_ofRat r).symm
  cases n with
  | int m => exact hofRat m
  | fraction r => exact hofRat r
  | double v =>
      cases v with
      | nan => rfl
      | infinite s => cases s <;> rfl
      | finite s rank => exact hofRat _
  | decimal d =>
      cases d with
      | nan => rfl
      | infinite s => cases s <;> rfl
      | finite s c e => exact congrArg some (toRat_signedInt s c e).symm

/-- A number is the same as one that has a value exactly if it has that value too. -/
theorem same_iff_of_toRat {a b : Number} {r : ℚ} (hb : b.toRat? = some r) :
    a.same b = true ↔ a.toRat? = some r := by
  rw [toRat?_eq] at hb
  obtain ⟨q, hq, hvalue⟩ := Option.bind_eq_some_iff.mp hb
  obtain ⟨s, rfl⟩ : ∃ s, q = .at s := by
    cases q with
    | «at» s => exact ⟨s, rfl⟩
    | below => cases hvalue
    | above => cases hvalue
  rw [same_iff, toRat?_eq, ← hvalue]
  constructor
  · rintro ⟨p, q, hp, hq', heq⟩
    obtain rfl := Option.some.inj (hq.symm.trans hq')
    rw [hp]
    exact (Place.compare_at_eq_iff p s).mp heq
  · intro h
    obtain ⟨p, hp, hplace⟩ := Option.bind_eq_some_iff.mp h
    exact ⟨p, .at s, hp, hq, (Place.compare_at_eq_iff p s).mpr hplace⟩

end Number

/-- A value that counts as a number is the same as an integer exactly if that is its value. -/
theorem Value.same_int_iff {v : Value} {n : Number} (h : v.asNumber? = some n) (m : Int) :
    v.same (.int m) = true ↔ n.toRat? = some (m : ℚ) := by
  have hparts : v.parts? = some (n, .int 0) := by
    cases v with
    | complex re im => cases h
    | number | truth | text | null => exact congrArg (Option.map fun n => (n, Number.int 0)) h
  have hzero : (Number.int 0).same (.int 0) = true := Number.same_int 0 0
  rw [same, hparts]
  show (n.same (.int m) && (Number.int 0).same (.int 0)) = true ↔ _
  rw [hzero, Bool.and_true]
  exact Number.same_iff_of_toRat rfl

end Progression
