import Mathlib.Data.Int.ModEq
import Progression.Interval

/-! # Where an interval between integers moves an integer to

A wrapping interval moves every integer to the one element that is congruent to it modulo the number of elements;
the distances past the two ends, counted off from the other end, come to the same residue. Any other interval moves
it to the nearest element. Either way the elements are what stays where it is. -/

namespace Progression.Interval

/-- The residue of `n` among the integers from `a` on, `b` being the last one. -/
def residue (a b n : Int) : Int := a + (n - a) % (b - a + 1)

/-- The integer from `a` to `b` that is nearest to `n`. -/
def nearest (a b n : Int) : Int := max a (min n b)

/-- The map goes round from `a` to `b`. -/
structure GoesRound (a b : Int) (move : Int → Int) : Prop where
  eq_iff : ∀ n r, move n = r ↔ a ≤ r ∧ r ≤ b ∧ r ≡ n [ZMOD b - a + 1]
  eq_residue : ∀ n, move n = a + (n - a) % (b - a + 1)
  periodic : ∀ n k, move (n + k * (b - a + 1)) = move n
  add : ∀ n k, move (move n + k) = move (n + k)

/-- The map goes to the nearest integer from `a` to `b`, the only one at that distance or a lesser one. -/
structure GoesToNearest (a b : Int) (move : Int → Int) : Prop where
  mem : ∀ n, a ≤ move n ∧ move n ≤ b
  nearest : ∀ n m, a ≤ m → m ≤ b → m ≠ move n → (n - move n).natAbs < (n - m).natAbs
  monotone : ∀ m n, m ≤ n → move m ≤ move n

section Residue

variable {a b : Int} (h : a ≤ b)
include h

theorem residue_eq_iff (n r : Int) : residue a b n = r ↔ a ≤ r ∧ r ≤ b ∧ r ≡ n [ZMOD b - a + 1] := by
  have hsize : 0 < b - a + 1 := by omega
  unfold residue
  constructor
  · rintro rfl
    have hnonneg := Int.emod_nonneg (n - a) (Int.ne_of_gt hsize)
    have hlt := Int.emod_lt_of_pos (n - a) hsize
    refine ⟨by omega, by omega, ?_⟩
    calc
      a + (n - a) % (b - a + 1) ≡ a + (n - a) [ZMOD b - a + 1] := (Int.mod_modEq _ _).add_left a
      _ = n := by omega
  · rintro ⟨ha, hb, hr⟩
    have hemod : (n - a) % (b - a + 1) = (r - a) % (b - a + 1) := (hr.sub_right a).symm
    rw [hemod, Int.emod_eq_of_lt (by omega) (by omega)]
    omega

theorem residue_congr {m n : Int} (hmn : m ≡ n [ZMOD b - a + 1]) : residue a b m = residue a b n := by
  obtain ⟨ha, hb, hn⟩ := (residue_eq_iff h n _).mp rfl
  exact (residue_eq_iff h m _).mpr ⟨ha, hb, hn.trans hmn.symm⟩

theorem residue_modEq (n : Int) : residue a b n ≡ n [ZMOD b - a + 1] := ((residue_eq_iff h n _).mp rfl).2.2

theorem residue_eq_self_iff (n : Int) : residue a b n = n ↔ a ≤ n ∧ n ≤ b := by
  rw [residue_eq_iff h]
  exact ⟨fun hn => ⟨hn.1, hn.2.1⟩, fun hn => ⟨hn.1, hn.2, rfl⟩⟩

theorem goesRound_residue : GoesRound a b (residue a b) where
  eq_iff := residue_eq_iff h
  eq_residue _ := rfl
  periodic n k := by
    refine residue_congr h ?_
    rw [Int.mul_comm]
    exact Int.modEq_add_fac_self
  add n k := residue_congr h ((residue_modEq h n).add_right k)

theorem nearest_eq_self_iff (n : Int) : nearest a b n = n ↔ a ≤ n ∧ n ≤ b := by
  unfold nearest
  omega

omit h in
theorem nearest_of_lt {n : Int} (hn : n < a) : nearest a b n = a := by
  unfold nearest
  omega

theorem nearest_of_gt {n : Int} (hn : b < n) : nearest a b n = b := by
  unfold nearest
  omega

theorem goesToNearest_nearest : GoesToNearest a b (nearest a b) where
  mem n := by
    unfold nearest
    omega
  nearest n m ha hb hne := by
    unfold Interval.nearest at hne ⊢
    omega
  monotone m n hmn := by
    unfold Interval.nearest
    omega

/-- Below `a`, the distance to `a` is counted off from `b`, whole rounds apart. -/
theorem residue_of_lt {n past : Int} (hpast : (a - n) % (b - a + 1) = past) :
    residue a b n = if past = 0 then a else b - past + 1 := by
  have hsize : 0 < b - a + 1 := by omega
  have hnonneg := Int.emod_nonneg (a - n) (Int.ne_of_gt hsize)
  have hlt := Int.emod_lt_of_pos (a - n) hsize
  have hmod : a - n ≡ past [ZMOD b - a + 1] := hpast ▸ (Int.mod_modEq _ _).symm
  split <;> rename_i hzero
  · subst hzero
    refine (residue_eq_iff h n a).mpr ⟨Int.le_refl a, h, ?_⟩
    simpa using hmod.add_right n
  · refine (residue_eq_iff h n _).mpr ⟨by omega, by omega, ?_⟩
    calc
      b - past + 1 ≡ b - (a - n) + 1 [ZMOD b - a + 1] := ((hmod.symm.sub_left b).add_right 1)
      _ = n + (b - a + 1) := by omega
      _ ≡ n [ZMOD b - a + 1] := Int.add_modEq_right

/-- Above `b`, the distance to `b` is counted off from `a`, whole rounds apart. -/
theorem residue_of_gt {n past : Int} (hpast : (n - b) % (b - a + 1) = past) :
    residue a b n = if past = 0 then b else a + past - 1 := by
  have hsize : 0 < b - a + 1 := by omega
  have hnonneg := Int.emod_nonneg (n - b) (Int.ne_of_gt hsize)
  have hlt := Int.emod_lt_of_pos (n - b) hsize
  have hmod : n - b ≡ past [ZMOD b - a + 1] := hpast ▸ (Int.mod_modEq _ _).symm
  split <;> rename_i hzero
  · subst hzero
    refine (residue_eq_iff h n b).mpr ⟨h, Int.le_refl b, ?_⟩
    simpa using (hmod.add_right b).symm
  · refine (residue_eq_iff h n _).mpr ⟨by omega, by omega, ?_⟩
    calc
      a + past - 1 ≡ a + (n - b) - 1 [ZMOD b - a + 1] := (hmod.symm.add_left a).sub_right 1
      _ = n - (b - a + 1) := by omega
      _ ≡ n - (b - a + 1) + (b - a + 1) [ZMOD b - a + 1] := Int.add_modEq_right.symm
      _ = n := by omega

end Residue

section Integers

variable {a b : Int} (wraps : Value)

theorem ordered_int (h : a ≤ b) : (Value.int a).greater (.int b) = .ok false := by
  rw [Value.greater_int, decide_eq_false (by omega)]

/-- The interval between two integers. -/
def ofInts (h : a ≤ b) : Interval := ⟨.int a, .int b, wraps, ordered_int h⟩

@[simp] theorem ofInts_least (h : a ≤ b) : (ofInts wraps h).least = .int a := rfl

@[simp] theorem ofInts_greatest (h : a ≤ b) : (ofInts wraps h).greatest = .int b := rfl

@[simp] theorem ofInts_wraps (h : a ≤ b) : (ofInts wraps h).wraps = wraps := rfl

theorem ofEnds_of_le (h : a ≤ b) : ofEnds (.int a) (.int b) wraps = .ok (ofInts wraps h) := by
  unfold ofEnds
  have hordered := ordered_int h
  split
  · rfl
  · rename_i hgreater
    cases hordered.symm.trans hgreater
  · rename_i hgreater
    cases hordered.symm.trans hgreater

theorem ofEnds_of_lt (h : b < a) : ofEnds (.int a) (.int b) wraps = .error (Fault.emptyInterval (.int a) (.int b)).worded := by
  have hgreater : (Value.int a).greater (.int b) = .ok true := by
    rw [Value.greater_int, decide_eq_true h]
  unfold ofEnds
  split
  · rename_i hordered
    cases hordered.symm.trans hgreater
  · rfl
  · rename_i hordered
    cases hordered.symm.trans hgreater

section Applied

variable (h : a ≤ b) (n : Int)

theorem side_ofInts : (ofInts wraps h).side (.int n) =
    .ok (if n < a then .below else if b < n then .above else .within) := by
  have hless : (Value.int n).less (ofInts wraps h).least = .ok (decide (n < a)) := Value.less_int n a
  have hgreater : (Value.int n).greater (ofInts wraps h).greatest = .ok (decide (b < n)) := Value.greater_int n b
  rw [side, hless, hgreater]
  by_cases hbelow : n < a
  · simp [hbelow, bind, Except.bind, pure, Except.pure]
  · by_cases habove : b < n <;> simp [hbelow, habove, bind, Except.bind, pure, Except.pure]

theorem size_ofInts : (ofInts wraps h).size = .ok (.int (b - a + 1)) := rfl

theorem past_ofInts (upper lower : Int) :
    (ofInts wraps h).past (.int upper) (.int lower) = .ok (.int ((upper - lower) % (b - a + 1))) := by
  have hfmod : Int.fmod (upper - lower) (b - a + 1) = (upper - lower) % (b - a + 1) :=
    Int.fmod_eq_emod_of_nonneg _ (by omega)
  rw [past, size_ofInts, ← hfmod]
  rfl

theorem ok_bind {α β : Type} (x : α) (f : α → Except Fault β) : (Except.ok x >>= f) = f x := rfl

/-- An interval between integers moves an integer to its residue if it wraps, and else to the nearest one. -/
theorem apply_ofInts : (ofInts wraps h).apply (.int n) =
    .ok (.int (if wraps.isTruthy then residue a b n else nearest a b n)) := by
  rw [apply, side_ofInts, ok_bind]
  by_cases hbelow : n < a
  · rw [if_pos hbelow]
    cases hwraps : wraps.isTruthy with
    | false =>
        have hnearest := nearest_of_lt (b := b) hbelow
        simp [hwraps, hnearest, pure, Except.pure]
    | true =>
        have hresidue := residue_of_lt h (n := n) rfl
        simp only [ofInts_least, ofInts_greatest, ofInts_wraps, hwraps, past_ofInts, ok_bind, Value.same_int,
          Value.operate_int, decide_eq_true_eq, Bool.not_true, Bool.false_eq_true, if_false, if_true, hresidue]
        split <;> rfl
  · by_cases habove : b < n
    · rw [if_neg hbelow, if_pos habove]
      cases hwraps : wraps.isTruthy with
      | false =>
          have hnearest := nearest_of_gt h habove
          simp [hwraps, hnearest, pure, Except.pure]
      | true =>
          have hresidue := residue_of_gt h (n := n) rfl
          simp only [ofInts_least, ofInts_greatest, ofInts_wraps, hwraps, past_ofInts, ok_bind, Value.same_int,
            Value.operate_int, decide_eq_true_eq, Bool.not_true, Bool.false_eq_true, if_false, if_true, hresidue]
          split <;> rfl
    · have hresidue : residue a b n = n := (residue_eq_self_iff h n).mpr (by omega)
      have hnearest : nearest a b n = n := (nearest_eq_self_iff h n).mpr (by omega)
      rw [if_neg hbelow, if_neg habove, hresidue, hnearest, ite_self]
      rfl

end Applied

/-- Only an interval whose least integer is above its greatest one cannot be made. Any other moves every integer to
the one element that is congruent to it, if it wraps, and else to the nearest element. What it leaves where it is are
its elements, and what it has moved it moves no further. -/
theorem apply_lands (a b : Int) (wraps : Value) :
    (∀ f, ofEnds (.int a) (.int b) wraps = .error f ↔ b < a ∧ f = (Fault.emptyInterval (.int a) (.int b)).worded) ∧
    ∀ i, ofEnds (.int a) (.int b) wraps = .ok i → ∃ move : Int → Int,
      (∀ n, i.apply (.int n) = .ok (.int (move n))) ∧
      (if wraps.isTruthy then GoesRound a b move else GoesToNearest a b move) ∧
      (∀ n, move n = n ↔ i.side (.int n) = .ok .within) ∧
      ∀ n, move (move n) = move n := by
  rcases Int.lt_or_le b a with hlt | h
  · rw [ofEnds_of_lt wraps hlt]
    refine ⟨fun f => ?_, fun i hi => by cases hi⟩
    rw [Except.error.injEq, eq_comm]
    exact (and_iff_right hlt).symm
  · rw [ofEnds_of_le wraps h]
    refine ⟨fun f => iff_of_false (fun hf => by cases hf) fun hf => absurd hf.1 (Int.not_lt.mpr h), ?_⟩
    intro i hi
    obtain rfl := Except.ok.inj hi
    have hwithin (n : Int) : (ofInts wraps h).side (.int n) = .ok .within ↔ a ≤ n ∧ n ≤ b := by
      rw [side_ofInts]
      split
      · exact iff_of_false (fun hn => by cases hn) (by omega)
      · split
        · exact iff_of_false (fun hn => by cases hn) (by omega)
        · exact iff_of_true rfl (by omega)
    cases hwraps : wraps.isTruthy with
    | true =>
        have hround := goesRound_residue h
        refine ⟨residue a b, fun n => ?_, hround, fun n => ?_, fun n => ?_⟩
        · rw [apply_ofInts, hwraps, if_pos rfl]
        · rw [hwithin, residue_eq_self_iff h]
        · exact residue_congr h (residue_modEq h n)
    | false =>
        have hnearest := goesToNearest_nearest h
        refine ⟨nearest a b, fun n => ?_, hnearest, fun n => ?_, fun n => ?_⟩
        · rw [apply_ofInts, hwraps, if_neg Bool.false_ne_true]
        · rw [hwithin, nearest_eq_self_iff h]
        · exact (nearest_eq_self_iff h _).mpr (hnearest.mem n)

/-- From -2 to 2 there are five integers to go round, and 7 is two of them past the end. -/
theorem apply_lands_around_zero :
    ofEnds (.int 2) (.int (-2)) (.truth true) = .error (.emptyInterval (.int 2) (.int (-2))) ∧
    ∃ i, ofEnds (.int (-2)) (.int 2) (.truth true) = .ok i ∧ i.apply (.int 7) = .ok (.int 2) ∧
      ∃ j, ofEnds (.int (-2)) (.int 2) (.truth false) = .ok j ∧ j.apply (.int (-9)) = .ok (.int (-2)) := by
  refine ⟨((apply_lands 2 (-2) (.truth true)).1 _).mpr ⟨by decide, by decide +kernel⟩,
    _, ofEnds_of_le _ (by decide), ?_, _, ofEnds_of_le _ (by decide), ?_⟩
  · obtain ⟨move, hmove, hround, -⟩ := (apply_lands (-2) 2 (.truth true)).2 _ (ofEnds_of_le _ (by decide))
    rw [hmove, (GoesRound.eq_residue hround 7)]
    rfl
  · obtain ⟨move, hmove, hnearest, -⟩ := (apply_lands (-2) 2 (.truth false)).2 _ (ofEnds_of_le _ (by decide))
    have hmem := GoesToNearest.mem hnearest (-9)
    have hleast := GoesToNearest.nearest hnearest (-9) (-2) (by decide) (by decide)
    rw [hmove]
    have hend : move (-9) = -2 := by omega
    rw [hend]

end Integers

end Progression.Interval
