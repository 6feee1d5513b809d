/-! # Scaled numbers

A scaled number is a rational times a power of ten, as is a decimal whose exponent may be of any size.
Two of them are compared exactly, and the power is computed only where the sizes of the operands leave
the order open. Main statement: `compare_eq_iff`. -/

namespace Progression

/-- The number `mantissa * 10 ^ exponent`. -/
structure Scaled where
  mantissa : Rat
  exponent : Int
  deriving DecidableEq

namespace Scaled

/-- The rational that a scaled number with the exponent zero is. -/
def ofRat (r : Rat) : Scaled := ⟨r, 0⟩

/-- How `m` stands to `n`. -/
def order (m n : Int) : Ordering := if m < n then .lt else if m = n then .eq else .gt

/-- Whether `|r| * 10 ^ k` exceeds `|s|` by the sizes alone, if `r` is not zero: `|r|` is at least
`1 / den r`, and `|s|` at most its numerator. -/
def outweighs (r : Rat) (k : Nat) (s : Rat) : Bool :=
  r.den.log2 + s.num.natAbs.log2 + 2 ≤ 3 * k

/-- How `r * 10 ^ k` stands to `s`. -/
def raisedOrder (r : Rat) (k : Nat) (s : Rat) : Ordering :=
  if r.num = 0 then order 0 s.num
  else if outweighs r k s then order r.num 0
  else order (r.num * Nat.pow 10 k * s.den) (s.num * r.den)

theorem lt_pow_of_outweighs {r s : Rat} {k : Nat} (h : outweighs r k s = true) :
    s.num.natAbs * r.den < Nat.pow 10 k := by
  have hsizes : r.den.log2 + s.num.natAbs.log2 + 2 ≤ 3 * k := by simpa [outweighs] using h
  calc s.num.natAbs * r.den
      < 2 ^ (s.num.natAbs.log2 + 1) * 2 ^ (r.den.log2 + 1) :=
        Nat.mul_lt_mul'' Nat.lt_log2_self Nat.lt_log2_self
    _ = 2 ^ (r.den.log2 + s.num.natAbs.log2 + 2) := by rw [← Nat.pow_add]; congr 1; omega
    _ ≤ 2 ^ (3 * k) := Nat.pow_le_pow_right (by decide) hsizes
    _ = 8 ^ k := by rw [Nat.pow_mul]
    _ ≤ Nat.pow 10 k := Nat.pow_le_pow_left (by decide) k

theorem isLT_order (m n : Int) : (order m n).isLT = decide (m < n) := by
  grind [order, Ordering.isLT]

theorem isEq_order (m n : Int) : (order m n).isEq = decide (m = n) := by
  grind [order, Ordering.isEq]

theorem order_eq_iff {m n : Int} : order m n = .eq ↔ m = n := by
  rw [← Ordering.isEq_iff_eq_eq, isEq_order, decide_eq_true_eq]

/-- Where the sizes are apart, the sign of `r` decides as the products across do. -/
theorem order_sign {r s : Rat} {k : Nat} (hr : r.num ≠ 0) (h : outweighs r k s = true) :
    order r.num 0 = order (r.num * Nat.pow 10 k * s.den) (s.num * r.den) := by
  have hlt := lt_pow_of_outweighs h
  have hleft : Nat.pow 10 k ≤ (r.num * Nat.pow 10 k * s.den).natAbs := by
    rw [Int.natAbs_mul, Int.natAbs_mul, Int.natAbs_natCast, Int.natAbs_natCast]
    calc Nat.pow 10 k = 1 * Nat.pow 10 k * 1 := by omega
      _ ≤ r.num.natAbs * Nat.pow 10 k * s.den :=
        Nat.mul_le_mul (Nat.mul_le_mul_right _ (by omega)) s.den_pos
  have hright : (s.num * r.den).natAbs < Nat.pow 10 k := by
    rw [Int.natAbs_mul, Int.natAbs_natCast]; exact hlt
  have hscale : (0 : Int) < Nat.pow 10 k * s.den :=
    Int.mul_pos (by exact_mod_cast Nat.pow_pos (by decide)) (by exact_mod_cast s.den_pos)
  rw [Int.mul_assoc] at hleft ⊢
  rcases Int.lt_or_gt_of_ne hr with hneg | hpos
  · have := Int.mul_neg_of_neg_of_pos hneg hscale
    rw [order, order, if_pos hneg, if_pos (by omega)]
  · have := Int.mul_pos hpos hscale
    rw [order, order, if_neg (by omega), if_neg hr, if_neg (by omega), if_neg (by omega)]

theorem raisedOrder_eq (r : Rat) (k : Nat) (s : Rat) :
    raisedOrder r k s = order (r.num * Nat.pow 10 k * s.den) (s.num * r.den) := by
  unfold raisedOrder
  split
  · next hr =>
      have hden : r.den = 1 := by simp [Rat.num_eq_zero.mp hr]
      simp [hr, hden]
  · next hr =>
      split
      · next h => exact order_sign hr h
      · rfl

/-- How `a` stands to `b`. The number with the greater exponent is raised to the unit of the other. -/
def compare (a b : Scaled) : Ordering :=
  if b.exponent ≤ a.exponent then raisedOrder a.mantissa (a.exponent - b.exponent).toNat b.mantissa
  else (raisedOrder b.mantissa (b.exponent - a.exponent).toNat a.mantissa).swap

theorem compare_ofRat (r s : Rat) :
    (ofRat r).compare (ofRat s) = order (r.num * s.den) (s.num * r.den) := by
  simp [compare, ofRat, raisedOrder_eq]

/-- The numerator of `a` in units of `10 ^ unit`. -/
def inUnits (a : Scaled) (unit : Int) : Int := a.mantissa.num * Nat.pow 10 (a.exponent - unit).toNat

theorem inUnits_eq_mul {a : Scaled} {unit lower : Int} (h : lower ≤ unit) (ha : unit ≤ a.exponent) :
    a.inUnits lower = a.inUnits unit * Nat.pow 10 (unit - lower).toNat := by
  have hsum : (a.exponent - lower).toNat = (a.exponent - unit).toNat + (unit - lower).toNat := by omega
  unfold inUnits
  rw [hsum, Int.mul_assoc]
  congr 1
  exact_mod_cast Nat.pow_add 10 _ _

theorem raisedOrder_eq_iff (a b : Scaled) :
    raisedOrder a.mantissa (a.exponent - b.exponent).toNat b.mantissa = .eq ↔
      a.inUnits b.exponent * b.mantissa.den = b.inUnits b.exponent * a.mantissa.den := by
  rw [raisedOrder_eq, order_eq_iff]
  simp [inUnits]

/-- Two scaled numbers compare as equal exactly if they have the same value, which may be measured in any
unit that is not above theirs. -/
theorem compare_eq_iff {a b : Scaled} {unit : Int} (ha : unit ≤ a.exponent) (hb : unit ≤ b.exponent) :
    a.compare b = .eq ↔ a.inUnits unit * b.mantissa.den = b.inUnits unit * a.mantissa.den := by
  have hten (k : Nat) : ((Nat.pow 10 k : Nat) : Int) ≠ 0 := by
    exact_mod_cast Nat.ne_of_gt (Nat.pow_pos (by decide))
  unfold compare
  split
  · next h =>
      rw [raisedOrder_eq_iff, inUnits_eq_mul hb h, inUnits_eq_mul hb (Int.le_refl _),
        Int.mul_right_comm, Int.mul_right_comm _ _ (a.mantissa.den : Int)]
      exact (Int.mul_eq_mul_right_iff (hten _)).symm
  · next h =>
      have h : a.exponent ≤ b.exponent := by omega
      rw [inUnits_eq_mul ha h, inUnits_eq_mul ha (Int.le_refl _),
        Int.mul_right_comm, Int.mul_right_comm _ _ (a.mantissa.den : Int),
        Int.mul_eq_mul_right_iff (hten _), Ordering.swap_eq_eq, raisedOrder_eq_iff]
      exact eq_comm

theorem compare_eq_symm {a b : Scaled} (h : a.compare b = .eq) : b.compare a = .eq := by
  have ha := Int.min_le_left a.exponent b.exponent
  have hb := Int.min_le_right a.exponent b.exponent
  exact (compare_eq_iff hb ha).mpr ((compare_eq_iff ha hb).mp h).symm

theorem compare_eq_trans {a b c : Scaled} (hab : a.compare b = .eq) (hbc : b.compare c = .eq) :
    a.compare c = .eq := by
  obtain ⟨unit, ha, hb, hc⟩ :
      ∃ unit, unit ≤ a.exponent ∧ unit ≤ b.exponent ∧ unit ≤ c.exponent :=
    ⟨min a.exponent (min b.exponent c.exponent), by omega⟩
  rw [compare_eq_iff ha hb] at hab
  rw [compare_eq_iff hb hc] at hbc
  rw [compare_eq_iff ha hc]
  have hden : (b.mantissa.den : Int) ≠ 0 := by exact_mod_cast b.mantissa.den_nz
  apply Int.eq_of_mul_eq_mul_right hden
  rw [Int.mul_right_comm, hab, Int.mul_right_comm, hbc, Int.mul_right_comm]

end Scaled
end Progression
