import Mathlib.Algebra.Order.Group.Int
import Mathlib.Order.Lattice
import Progression.Gauge

/-! # Steps between integers

A gauge between integers stays one under every step with an integer amount: what it goes to, and what it hands
back, are minima and maxima of integers. A refused amount changes no gauge, whatever it holds. -/

namespace Progression.Gauge

section Run

variable {α β : Type} (g : Gauge)

theorem run_bind (s : Step α) (k : α → Step β) :
    (s >>= k).run.run g =
      match s.run.run g with
      | (.ok a, g') => (k a).run.run g'
      | (.error f, g') => (.error f, g') := by
  rw [ExceptT.run_bind, StateT.run_bind]
  rcases s.run.run g with ⟨f | a, g'⟩ <;> rfl

theorem run_map (f : α → β) (s : Step α) :
    (f <$> s).run.run g = ((s.run.run g).1.map f, (s.run.run g).2) := by
  rw [ExceptT.run_map]
  rfl

theorem run_ofExcept (x : Except Fault α) : (MonadExcept.ofExcept x : Step α).run.run g = (x, g) := by
  cases x <;> rfl

theorem run_get : (get : Step Gauge).run.run g = (.ok g, g) := rfl

theorem run_set (g' : Gauge) : (set g' : Step PUnit).run.run g = (.ok ⟨⟩, g') := rfl

end Run

/-- The actions that change a gauge by an amount. -/
inductive Action where
  | setCurrent
  | setCeiling
  | add
  | sub
  deriving DecidableEq

/-- The step of an action. Where nothing is handed back, its result is null. -/
def Action.step : Action → Value → Step Value
  | setCurrent, n => (fun _ => .null) <$> Gauge.setCurrent n
  | setCeiling, n => (fun _ => .null) <$> Gauge.setCeiling n
  | add, n => Gauge.add n
  | sub, n => Gauge.sub n

theorem run_step_of_refused {n : Value} {f : Fault} (h : checkAmount n = .error f) (a : Action) (g : Gauge) :
    (a.step n).run.run g = (.error f, g) := by
  cases a with
  | setCurrent =>
      have hrun : (Gauge.setCurrent n).run.run g = (.error f, g) := by
        simp only [Gauge.setCurrent, run_bind, run_ofExcept, h]
      rw [Action.step, run_map, hrun]
      rfl
  | setCeiling =>
      have hrun : (Gauge.setCeiling n).run.run g = (.error f, g) := by
        simp only [Gauge.setCeiling, run_bind, run_ofExcept, h]
      rw [Action.step, run_map, hrun]
      rfl
  | add => simp only [Action.step, Gauge.add, run_bind, run_ofExcept, h]
  | sub => simp only [Action.step, Gauge.sub, run_bind, run_ofExcept, h]

/-- The ceiling is set after all that can fail, whatever kinds of values the gauge holds. -/
theorem run_setCeiling_eq (n : Value) (g : Gauge) :
    (setCeiling n).run.run g =
      match (do checkAmount n; lesser g.current n) with
      | .ok current => (.ok (), ⟨current, n⟩)
      | .error f => (.error f, g) := by
  simp only [setCeiling, run_bind, run_ofExcept, run_get, run_set]
  cases checkAmount n with
  | error f => rfl
  | ok _ =>
      dsimp only
      cases lesser g.current n <;> rfl

theorem after_setCeiling_of_error {n : Value} {g : Gauge} {f : Fault} (h : ((setCeiling n).run.run g).1 = .error f) :
    ((setCeiling n).run.run g).2 = g := by
  rw [run_setCeiling_eq] at h ⊢
  split at h
  · cases h
  · rfl

/-- The gauge at an integer below an integer ceiling. -/
def ofInts (current ceiling : Int) : Gauge := ⟨.int current, .int ceiling⟩

/-- The gauge is between integers, and its counter from zero to the ceiling. -/
def InRange (g : Gauge) : Prop := ∃ c m : Int, g = ofInts c m ∧ 0 ≤ c ∧ c ≤ m

theorem ofParts_int (c m : Int) : ofParts (.int c) (.int m) =
    if c < 0 ∨ m < 0 then .error (Fault.negativeGauge (.int c) (.int m)).worded
    else if m < c then .error (Fault.overfullGauge (.int c) (.int m)).worded
    else .ok (ofInts c m) := by
  by_cases hc : c < 0 <;> by_cases hm : m < 0 <;> by_cases hlt : m < c <;>
    simp [ofParts, ofInts, bind, Except.bind, hc, hm, hlt] <;> rfl

theorem ofParts_int_eq_ok_iff {c m : Int} {g : Gauge} :
    ofParts (.int c) (.int m) = .ok g ↔ 0 ≤ c ∧ c ≤ m ∧ g = ofInts c m := by
  rw [ofParts_int]
  split
  · exact iff_of_false (fun h => by cases h) (by omega)
  · split
    · exact iff_of_false (fun h => by cases h) (by omega)
    · rw [Except.ok.injEq]
      constructor
      · rintro rfl
        exact ⟨by omega, by omega, rfl⟩
      · rintro ⟨-, -, rfl⟩
        rfl

theorem inRange_of_ofParts {c m : Int} {g : Gauge} (h : ofParts (.int c) (.int m) = .ok g) : g.InRange := by
  obtain ⟨hc, hm, rfl⟩ := ofParts_int_eq_ok_iff.mp h
  exact ⟨c, m, rfl, hc, hm⟩

theorem checkAmount_int (n : Int) :
    checkAmount (.int n) = if n < 0 then .error (Fault.negativeAmount (.int n)).worded else .ok () := by
  by_cases h : n < 0 <;> simp [checkAmount, bind, Except.bind, h] <;> rfl

theorem lesser_int (a b : Int) : lesser (.int a) (.int b) = .ok (.int (min a b)) := by
  by_cases h : b < a
  · rw [min_eq_right h.le]
    simp [lesser, bind, Except.bind, h]
    rfl
  · rw [min_eq_left (Int.not_lt.mp h)]
    simp [lesser, bind, Except.bind, h]
    rfl

section Integers

variable {n : Int} (c m : Int)

/-- A negative amount is refused by every action. -/
theorem run_step_of_neg (h : n < 0) (a : Action) (g : Gauge) :
    (a.step (.int n)).run.run g = (.error (Fault.negativeAmount (.int n)).worded, g) :=
  run_step_of_refused (by rw [checkAmount_int, if_pos h]) a g

theorem checkAmount_of_nonneg (h : 0 ≤ n) : checkAmount (.int n) = .ok () := by
  rw [checkAmount_int, if_neg (by omega)]

theorem run_setCurrent (h : 0 ≤ n) :
    (setCurrent (.int n)).run.run (ofInts c m) = (.ok (), ofInts (min n m) m) := by
  simp only [setCurrent, run_bind, run_ofExcept, run_get, run_set, checkAmount_of_nonneg h, ofInts, lesser_int]

theorem run_setCeiling (h : 0 ≤ n) :
    (setCeiling (.int n)).run.run (ofInts c m) = (.ok (), ofInts (min c n) n) := by
  simp only [setCeiling, run_bind, run_ofExcept, run_get, run_set, checkAmount_of_nonneg h, ofInts, lesser_int]

/-- What is past the ceiling is handed back. -/
theorem run_add (h : 0 ≤ n) :
    (add (.int n)).run.run (ofInts c m) = (.ok (.int (max 0 (c + n - m))), ofInts (min (c + n) m) m) := by
  simp only [add, run_bind, run_ofExcept, run_get, checkAmount_of_nonneg h, ofInts, Value.operate_int,
    Value.greater_int, Number.Operation.onInts, decide_eq_true_eq]
  by_cases hpast : m < c + n
  · rw [max_eq_right (by omega), min_eq_right (by omega), if_pos hpast]
    rfl
  · rw [max_eq_left (by omega), min_eq_left (by omega), if_neg hpast]
    rfl

/-- What is past zero is handed back. -/
theorem run_sub (h : 0 ≤ n) :
    (sub (.int n)).run.run (ofInts c m) = (.ok (.int (max 0 (n - c))), ofInts (max 0 (c - n)) m) := by
  simp only [sub, run_bind, run_ofExcept, run_get, checkAmount_of_nonneg h, ofInts, Value.operate_int,
    Value.less_int, Number.Operation.onInts, decide_eq_true_eq]
  by_cases hpast : c < n
  · rw [max_eq_right (by omega), max_eq_left (by omega), if_pos hpast]
    rfl
  · rw [max_eq_left (by omega), max_eq_right (by omega), if_neg hpast]
    rfl

end Integers

/-- Every action with an integer amount keeps a gauge in its range. -/
theorem InRange.step {g : Gauge} (hg : g.InRange) (a : Action) (n : Int) :
    ((a.step (.int n)).run.run g).2.InRange := by
  rcases Int.lt_or_le n 0 with hneg | hn
  · rwa [run_step_of_neg hneg]
  obtain ⟨c, m, rfl, hc, hm⟩ := hg
  cases a with
  | setCurrent =>
      rw [Action.step, run_map, run_setCurrent _ _ hn]
      exact ⟨_, _, rfl, by omega, by omega⟩
  | setCeiling =>
      rw [Action.step, run_map, run_setCeiling _ _ hn]
      exact ⟨_, _, rfl, by omega, by omega⟩
  | add =>
      rw [Action.step, run_add _ _ hn]
      exact ⟨_, _, rfl, by omega, by omega⟩
  | sub =>
      rw [Action.step, run_sub _ _ hn]
      exact ⟨_, _, rfl, by omega, by omega⟩

end Progression.Gauge
