import Mathlib.Algebra.BigOperators.Intervals
import Mathlib.Algebra.Order.BigOperators.Group.Finset
import Progression.Proofs.LevelGauge.Reaching

/-! # Carrying over

What does not fit into a gauge is carried over: the next level is reached, the counter goes back to zero, and the
rest is added, until nothing is left. Nothing is lost or made up on the way. The ceilings that were filled, the
counter and the rest always make up the counter of the beginning and the amount, also where a level cannot be
reached. -/

namespace Progression.LevelGauge

/-- The outcome of a step that goes on from where the first one led, if that had no fault. -/
def Outcome.andThen {α β : Type} (o : Outcome α) (next : α → LevelGauge → Outcome β) : Outcome β :=
  match o.result with
  | .error f => ⟨.error f, o.after, o.records⟩
  | .ok a => { next a o.after with records := o.records ++ (next a o.after).records }

/-- One round: the next level is reached, and the rest goes into the empty gauge. -/
def round (g : LevelGauge) (level rest : Value) : Outcome Value :=
  (g.reach level).andThen fun _ g =>
    (g.onGauge (Gauge.setCurrent (.int 0))).andThen fun _ g => g.onGauge (Gauge.add rest)

/-- Where the loop stands: at its head with a rest, or ended by a fault while there was a rest. -/
inductive Standing where
  | head (g : LevelGauge) (rest : Value)
  | fault (f : Fault) (g : LevelGauge) (rest : Value)

def Standing.ofOutcome (pending : Value) (o : Outcome Value) : Standing :=
  match o.result with
  | .ok rest => .head o.after rest
  | .error f => .fault f o.after pending

/-- Where the loop that begins with an amount stands after `k` rounds, none if it has ended before. It goes on while
the rest is above zero; `levels` are the levels to come. -/
def carry (g : LevelGauge) (amount : Value) (levels : Nat → Value) : Nat → Option Standing
  | 0 => some (.ofOutcome amount (g.onGauge (Gauge.add amount)))
  | k + 1 =>
    match carry g amount levels k with
    | some (.head h rest) =>
      match rest.greater (.int 0) with
      | .ok true => some (.ofOutcome rest (h.round (levels k) rest))
      | .ok false => none
      | .error f => some (.fault f h rest)
    | _ => none

/-- The ceilings of the loop: the one that it begins with, and then those of the levels, zero for a level that has
none. -/
def ceilings (g : LevelGauge) (first : Int) (levels : Nat → Value) : Nat → Int
  | 0 => first
  | k + 1 =>
    match g.ceilingOf (levels k) with
    | .ok n => n
    | .error _ => 0

/-- After `k` rounds the filled ceilings, the counter and the rest make up the total. The gauge is full while there is
a rest, and all but the gauge is as it was. -/
structure Balanced (g : LevelGauge) (ceiling : Nat → Int) (total : Int) (k : Nat) (h : LevelGauge)
    (current rest : Int) : Prop where
  parts : h = { g with gauge := .ofInts current (ceiling k) }
  nonneg : 0 ≤ rest
  sum : ∑ j ∈ Finset.range k, ceiling j + current + rest = total
  full : 0 < rest → current = ceiling k

theorem round_of_error {g : LevelGauge} {level : Value} {f : Fault} (h : (g.reach level).result = .error f)
    (rest : Value) : (g.round level rest).result = .error f ∧ (g.round level rest).after = g := by
  have hafter := after_reach_of_error h
  simp only [round, Outcome.andThen, h, hafter, and_self]

theorem round_of_ok {g : LevelGauge} {c m n : Int} {level : Value} (hgauge : g.gauge = .ofInts c m) (hn : 0 ≤ n)
    (h : g.ceilingOf level = .ok n) {r : Int} (hr : 0 ≤ r) :
    (g.round level (.int r)).result = .ok (.int (max 0 (r - n))) ∧
      (g.round level (.int r)).after = { g with gauge := .ofInts (min r n) n } := by
  have hempty : Gauge.ofInts (min 0 n) n = .ofInts 0 n := by rw [min_eq_left hn]
  rw [round, reach_of_nonneg hgauge hn h]
  simp only [Outcome.andThen, onGauge, Gauge.run_setCurrent _ n (Int.le_refl 0), hempty, Gauge.run_add 0 n hr,
    Int.zero_add, and_self]

section Loop

variable {g : LevelGauge} {c m n total : Int} {levels : Nat → Value} {k : Nat}

theorem carry_succ_of_zero {h : LevelGauge} (hk : g.carry (.int n) levels k = some (.head h (.int 0))) :
    g.carry (.int n) levels (k + 1) = none := by
  simp [carry, hk]

theorem carry_succ_of_fault {f : Fault} {h : LevelGauge} {rest : Value}
    (hk : g.carry (.int n) levels k = some (.fault f h rest)) : g.carry (.int n) levels (k + 1) = none := by
  rw [carry, hk]

theorem carry_succ_of_pos {h : LevelGauge} {r : Int} (hk : g.carry (.int n) levels k = some (.head h (.int r)))
    (hr : 0 < r) :
    g.carry (.int n) levels (k + 1) = some (.ofOutcome (.int r) (h.round (levels k) (.int r))) := by
  simp [carry, hk, hr]

theorem carry_zero (hgauge : g.gauge = .ofInts c m) (hn : 0 ≤ n) (levels : Nat → Value) :
    ∃ h current r, g.carry (.int n) levels 0 = some (.head h (.int r)) ∧
      Balanced g (g.ceilings m levels) (c + n) 0 h current r := by
  refine ⟨{ g with gauge := .ofInts (min (c + n) m) m }, min (c + n) m, max 0 (c + n - m), ?_, rfl, ?_, ?_, ?_⟩
  · simp only [carry, Standing.ofOutcome, onGauge, hgauge, Gauge.run_add c m hn]
  · omega
  · simp only [Finset.range_zero, Finset.sum_empty]
    omega
  · intro hpos
    exact min_eq_right (by omega)

/-- From its head the loop ends because nothing is left, or by the fault of a level that is not reached, with the
rest still to come, or it comes to its head again. -/
theorem carry_succ_cases {h : LevelGauge} {current r : Int}
    (hk : g.carry (.int n) levels k = some (.head h (.int r)))
    (hbalanced : Balanced g (g.ceilings m levels) total k h current r) :
    (r = 0 ∧ g.carry (.int n) levels (k + 1) = none) ∨
    (0 < r ∧ ∃ f, (h.reach (levels k)).result = .error f ∧
      g.carry (.int n) levels (k + 1) = some (.fault f h (.int r))) ∨
    (0 < r ∧ ∃ h' current' r', g.carry (.int n) levels (k + 1) = some (.head h' (.int r')) ∧
      g.ceilingOf (levels k) = .ok (g.ceilings m levels (k + 1)) ∧
      r' = r - min r (g.ceilings m levels (k + 1)) ∧
      Balanced g (g.ceilings m levels) total (k + 1) h' current' r') := by
  obtain ⟨hparts, hnonneg, hsum, hfull⟩ := hbalanced
  rcases hnonneg.eq_or_lt with rfl | hr
  · exact .inl ⟨rfl, carry_succ_of_zero hk⟩
  have hgauge : h.gauge = .ofInts current (g.ceilings m levels k) := congrArg LevelGauge.gauge hparts
  have hceilingOf : h.ceilingOf (levels k) = g.ceilingOf (levels k) := by rw [hparts]; rfl
  right
  cases hreach : (h.reach (levels k)).result with
  | error f =>
      left
      obtain ⟨hresult, hafter⟩ := round_of_error hreach (.int r)
      refine ⟨hr, f, rfl, ?_⟩
      rw [carry_succ_of_pos hk hr, Standing.ofOutcome, hresult, hafter]
  | ok _ =>
      right
      obtain ⟨a, ha, hceiling⟩ := (result_reach_eq_ok_iff hgauge).mp hreach
      have hnext : g.ceilings m levels (k + 1) = a := by rw [ceilings, ← hceilingOf, hceiling]
      obtain ⟨hresult, hafter⟩ := round_of_ok hgauge ha hceiling hr.le
      refine ⟨hr, { h with gauge := .ofInts (min r a) a }, min r a, max 0 (r - a), ?_, ?_, ?_, ?_⟩
      · rw [carry_succ_of_pos hk hr, Standing.ofOutcome, hresult, hafter]
      · rw [hnext, ← hceilingOf, hceiling]
      · omega
      · refine ⟨?_, by omega, ?_, by omega⟩
        · rw [hparts, hnext]
        · rw [Finset.sum_range_succ]
          have := hfull hr
          omega

theorem exists_head_of_succ {s : Standing} (hk : g.carry (.int n) levels (k + 1) = some s) :
    ∃ h rest, g.carry (.int n) levels k = some (.head h rest) := by
  rw [carry] at hk
  split at hk
  · rename_i h rest hhead
    exact ⟨h, rest, hhead⟩
  · cases hk

theorem balanced_of_head (hgauge : g.gauge = .ofInts c m) (hn : 0 ≤ n) {h : LevelGauge} {rest : Value}
    (hk : g.carry (.int n) levels k = some (.head h rest)) :
    ∃ current r, rest = .int r ∧ Balanced g (g.ceilings m levels) (c + n) k h current r ∧
      ∀ j < k, g.ceilingOf (levels j) = .ok (g.ceilings m levels (j + 1)) := by
  induction k generalizing h rest with
  | zero =>
      obtain ⟨h', current, r, hzero, hbalanced⟩ := carry_zero hgauge hn levels
      cases hk.symm.trans hzero
      exact ⟨current, r, rfl, hbalanced, fun j hj => absurd hj (Nat.not_lt_zero j)⟩
  | succ k ih =>
      obtain ⟨h', rest', hhead⟩ := exists_head_of_succ hk
      obtain ⟨current, r, rfl, hbalanced, hlevels⟩ := ih hhead
      rcases carry_succ_cases hhead hbalanced with ⟨-, hnext⟩ | ⟨-, f, -, hnext⟩ |
        ⟨-, h', current', r', hnext, hlevel, -, hbalanced'⟩
      · cases hk.symm.trans hnext
      · cases hk.symm.trans hnext
      · cases hk.symm.trans hnext
        refine ⟨current', r', rfl, hbalanced', fun j hj => ?_⟩
        rcases Nat.lt_succ_iff_lt_or_eq.mp hj with hlt | rfl
        · exact hlevels j hlt
        · exact hlevel

/-- The loop ends with a fault only where a level is not reached. The gauge is then full, and the rest still to
come. -/
theorem balanced_of_fault (hgauge : g.gauge = .ofInts c m) (hn : 0 ≤ n) {f : Fault} {h : LevelGauge} {rest : Value}
    (hk : g.carry (.int n) levels k = some (.fault f h rest)) :
    ∃ j r, k = j + 1 ∧ rest = .int r ∧ 0 < r ∧ (h.reach (levels j)).result = .error f ∧
      Balanced g (g.ceilings m levels) (c + n) j h (g.ceilings m levels j) r := by
  cases k with
  | zero =>
      obtain ⟨h', current, r, hzero, -⟩ := carry_zero hgauge hn levels
      cases hk.symm.trans hzero
  | succ k =>
      obtain ⟨h', rest', hhead⟩ := exists_head_of_succ hk
      obtain ⟨current, r, rfl, hbalanced, -⟩ := balanced_of_head hgauge hn hhead
      rcases carry_succ_cases hhead hbalanced with ⟨-, hnext⟩ | ⟨hr, f', hreach, hnext⟩ | ⟨-, h', current', r', hnext, -⟩
      · cases hk.symm.trans hnext
      · cases hk.symm.trans hnext
        exact ⟨k, r, rfl, rfl, hr, hreach, hbalanced.full hr ▸ hbalanced⟩
      · cases hk.symm.trans hnext

/-- Where every ceiling is at least one, each round but the last lowers the rest, so that there are no more rounds
than the rest counts. -/
theorem exists_end (hlevels : ∀ j a, g.ceilingOf (levels j) = .ok a → 1 ≤ a) {h : LevelGauge} {current r : Int}
    (hk : g.carry (.int n) levels k = some (.head h (.int r)))
    (hbalanced : Balanced g (g.ceilings m levels) total k h current r) {bound : Nat} (hbound : r ≤ bound) :
    ∃ k' ≤ k + bound, g.carry (.int n) levels (k' + 1) = none ∧
      ((∃ h, g.carry (.int n) levels k' = some (.head h (.int 0))) ∨
        ∃ f h rest, g.carry (.int n) levels k' = some (.fault f h rest)) := by
  induction bound generalizing k h current r with
  | zero =>
      obtain rfl : r = 0 := by
        have := hbalanced.nonneg
        omega
      exact ⟨k, Nat.le_refl k, carry_succ_of_zero hk, .inl ⟨h, hk⟩⟩
  | succ bound ih =>
      rcases carry_succ_cases hk hbalanced with ⟨rfl, hnext⟩ | ⟨-, f, -, hnext⟩ |
        ⟨hr, h', current', r', hnext, hlevel, hlower, hbalanced'⟩
      · exact ⟨k, Nat.le_add_right k _, hnext, .inl ⟨h, hk⟩⟩
      · exact ⟨k + 1, by omega, carry_succ_of_fault hnext, .inr ⟨f, h, _, hnext⟩⟩
      · have hone := hlevels k _ hlevel
        obtain ⟨k', hle, hend⟩ := ih hnext hbalanced' (by omega)
        exact ⟨k', by omega, hend⟩

end Loop

/-- Carrying over conserves what there was. At the head of the loop the filled ceilings, the counter and the rest make
up the first counter and the amount, and the gauge is full while there is a rest. A round lowers the rest by what the
new ceiling takes of it. Where a level is not reached, the gauge is still full, and the rest still to come. If every
ceiling is at least one, there are no more rounds than the first rest counts. -/
theorem carry_conserves {rule : CeilingRule} {gauge : Gauge} {request : TypeRequest} {g : LevelGauge} {c m n : Int}
    (hgauge : Gauge.ofParts (.int c) (.int m) = .ok gauge) (hg : ofParts rule gauge request = .ok g) (hn : 0 ≤ n)
    (levels : Nat → Value) :
    (∀ k h rest, g.carry (.int n) levels k = some (.head h rest) →
      ∃ current r, rest = .int r ∧ Balanced g (g.ceilings m levels) (c + n) k h current r ∧
        ∀ j < k, g.ceilingOf (levels j) = .ok (g.ceilings m levels (j + 1))) ∧
    (∀ k h rest h' rest', g.carry (.int n) levels k = some (.head h rest) →
      g.carry (.int n) levels (k + 1) = some (.head h' rest') →
        ∃ r, rest = .int r ∧ rest' = .int (r - min r (g.ceilings m levels (k + 1)))) ∧
    (∀ k f h rest, g.carry (.int n) levels k = some (.fault f h rest) →
      ∃ j r, k = j + 1 ∧ rest = .int r ∧ 0 < r ∧ (h.reach (levels j)).result = .error f ∧
        Balanced g (g.ceilings m levels) (c + n) j h (g.ceilings m levels j) r) ∧
    ∃ h r, g.carry (.int n) levels 0 = some (.head h (.int r)) ∧
      ((∀ j a, g.ceilingOf (levels j) = .ok a → 1 ≤ a) →
        ∃ k ≤ r.toNat, g.carry (.int n) levels (k + 1) = none ∧
          ((∃ h, g.carry (.int n) levels k = some (.head h (.int 0))) ∨
            ∃ f h rest, g.carry (.int n) levels k = some (.fault f h rest))) := by
  obtain ⟨t, -, -, rfl⟩ := ofParts_eq_ok_iff.mp hg
  obtain ⟨hc, hm, rfl⟩ := Gauge.ofParts_int_eq_ok_iff.mp hgauge
  refine ⟨fun k h rest => balanced_of_head rfl hn, fun k h rest h' rest' hk hnext => ?_,
    fun k f h rest => balanced_of_fault rfl hn, ?_⟩
  · obtain ⟨current, r, rfl, hbalanced, -⟩ := balanced_of_head rfl hn hk
    rcases carry_succ_cases hk hbalanced with ⟨-, hnext'⟩ | ⟨-, f, -, hnext'⟩ | ⟨-, h', current', r', hnext', -, rfl, -⟩
    · cases hnext.symm.trans hnext'
    · cases hnext.symm.trans hnext'
    · cases hnext.symm.trans hnext'
      exact ⟨r, rfl, rfl⟩
  · obtain ⟨h, current, r, hzero, hbalanced⟩ := @carry_zero ⟨rule, .ofInts c m, t⟩ c m n rfl hn levels
    refine ⟨h, r, hzero, fun hlevels => ?_⟩
    obtain ⟨k, hk, hend⟩ := exists_end hlevels hzero hbalanced (Int.self_le_toNat r)
    exact ⟨k, by omega, hend⟩

/-- The levels one, two, and then the second again and again. -/
def stuckAtTwo : Nat → Value
  | 0 => .int 1
  | _ + 1 => .int 2

/-- The gauge of bytes takes 30 and then 100 of an amount of 200, and keeps the other 70 waiting for the second
level. -/
theorem carry_conserves_byte :
    Gauge.ofParts (.int 120) (.int 150) = .ok (.ofInts 120 150) ∧
      ofParts (.table twoLevels) (.ofInts 120 150) (.exactly .u8) = .ok byteGauge ∧
      (∀ k h rest, byteGauge.carry (.int 200) stuckAtTwo k = some (.head h rest) →
        ∃ current r, rest = .int r ∧ Balanced byteGauge (byteGauge.ceilings 150 stuckAtTwo) 320 k h current r) ∧
      (∃ h r, byteGauge.carry (.int 200) stuckAtTwo 0 = some (.head h (.int r)) ∧
        ∃ k ≤ r.toNat, byteGauge.carry (.int 200) stuckAtTwo (k + 1) = none) := by
  have hgauge : Gauge.ofParts (.int 120) (.int 150) = .ok (.ofInts 120 150) := Gauge.ofParts_int 120 150
  have hg : ofParts (.table twoLevels) (.ofInts 120 150) (.exactly .u8) = .ok byteGauge := rfl
  have hlevels (j : Nat) (a : Int) (h : byteGauge.ceilingOf (stuckAtTwo j) = .ok a) : 1 ≤ a := by
    cases j with
    | zero =>
        cases h.symm.trans ceilingOf_byteGauge_one
        decide
    | succ j => cases h.symm.trans ceilingOf_byteGauge_two
  obtain ⟨hhead, -, -, h, r, hzero, hends⟩ := carry_conserves hgauge hg (show 0 ≤ 200 by decide) stuckAtTwo
  refine ⟨hgauge, hg, fun k h rest hk => ?_, h, r, hzero, ?_⟩
  · obtain ⟨current, r, hrest, hbalanced, -⟩ := hhead k h rest hk
    exact ⟨current, r, hrest, hbalanced⟩
  · obtain ⟨k, hk, hnone, -⟩ := hends hlevels
    exact ⟨k, hk, hnone⟩

end Progression.LevelGauge
