import Mathlib.Algebra.BigOperators.Group.List.Basic
import Mathlib.Algebra.Ring.Int.Defs
import Progression.Proofs.Gauge.Steps

/-! # The ledger of a gauge

Over any run of actions with integer amounts a gauge stays between zero and its ceiling, negative amounts are
refused and change nothing, and something is handed back only at an end of the range. Where nothing but `add`
and `sub` happens, the ledger balances: the counter moves by what was accepted less what was handed back. -/

namespace Progression.Gauge

/-- An action that was asked of a gauge with an integer amount, and what came of it. -/
structure Event where
  action : Action
  amount : Int
  before : Gauge
  result : Except Fault Value
  after : Gauge

/-- What comes of an action. -/
def event (g : Gauge) (a : Action) (n : Int) : Event :=
  let (result, after) := (a.step (.int n)).run.run g
  ⟨a, n, g, result, after⟩

/-- What comes of a run of actions, in order. -/
def history (g : Gauge) : List (Action × Int) → List Event
  | [] => []
  | (a, n) :: more => g.event a n :: history (g.event a n).after more

/-- The gauge that a run of actions leaves. -/
def afterRun (g : Gauge) : List (Action × Int) → Gauge
  | [] => g
  | (a, n) :: more => afterRun (g.event a n).after more

namespace Event

/-- What the event counts with: its amount, or nothing if that was refused. -/
def accepted (e : Event) : Int := if e.result.isOk then e.amount else 0

/-- What the event handed back. -/
def handedBack (e : Event) : Int :=
  match e.result with
  | .ok (.number (.int n)) => n
  | _ => 0

/-- The sum of a quantity over the events of an action. -/
def total (a : Action) (quantity : Event → Int) (events : List Event) : Int :=
  ((events.filter (·.action = a)).map quantity).sum

/-- What was accepted to be added, less what of it was handed back, and the same the other way round for what was
accepted to be subtracted. -/
def balance (events : List Event) : Int :=
  total .add accepted events - total .add handedBack events - total .sub accepted events +
    total .sub handedBack events

/-- An event is sound if it leaves the gauge in its range, is refused exactly for a negative amount and then
changes nothing, leaves the ceiling to `setCeiling`, and hands back only what does not fit. -/
structure Sound (e : Event) : Prop where
  inRange : e.after.InRange
  refused_iff : (∃ f, e.result = .error f) ↔ e.amount < 0
  unchanged : ∀ f, e.result = .error f → e.after = e.before
  ceiling : e.action ≠ .setCeiling → e.after.ceiling = e.before.ceiling
  answered : 0 ≤ e.amount → e.action = .add ∨ e.action = .sub →
    0 ≤ e.handedBack ∧ e.result = .ok (.int e.handedBack)
  overflow : e.action = .add → 0 < e.handedBack → e.after.current = e.after.ceiling
  underflow : e.action = .sub → 0 < e.handedBack → e.after.current = .int 0

theorem total_cons (a : Action) (quantity : Event → Int) (e : Event) (events : List Event) :
    total a quantity (e :: events) = (if e.action = a then quantity e else 0) + total a quantity events := by
  by_cases h : e.action = a
  · simp [total, h]
  · simp [total, h]

theorem balance_nil : balance [] = 0 := rfl

theorem balance_cons (e : Event) (events : List Event) : balance (e :: events) = balance [e] + balance events := by
  simp only [balance, total_cons]
  have hnil (a : Action) (quantity : Event → Int) : total a quantity [] = 0 := rfl
  simp only [hnil]
  omega

theorem balance_refused (a : Action) (n : Int) (f : Fault) (g : Gauge) : balance [⟨a, n, g, .error f, g⟩] = 0 := by
  cases a <;> rfl

theorem balance_add (n r : Int) (g g' : Gauge) : balance [⟨.add, n, g, .ok (.int r), g'⟩] = n - r := by
  simp [balance, total, accepted, handedBack, Except.isOk, Except.toBool]

theorem balance_sub (n r : Int) (g g' : Gauge) : balance [⟨.sub, n, g, .ok (.int r), g'⟩] = r - n := by
  simp [balance, total, accepted, handedBack, Except.isOk, Except.toBool]
  omega

end Event

theorem event_of_neg {n : Int} (h : n < 0) (a : Action) (g : Gauge) :
    g.event a n = ⟨a, n, g, .error (Fault.negativeAmount (.int n)).worded, g⟩ := by
  rw [event, run_step_of_neg h]

section Nonneg

variable {c m n : Int} (hn : 0 ≤ n)
include hn

theorem event_setCurrent :
    (ofInts c m).event .setCurrent n = ⟨.setCurrent, n, ofInts c m, .ok .null, ofInts (min n m) m⟩ := by
  rw [event, Action.step, run_map, run_setCurrent c m hn]
  rfl

theorem event_setCeiling :
    (ofInts c m).event .setCeiling n = ⟨.setCeiling, n, ofInts c m, .ok .null, ofInts (min c n) n⟩ := by
  rw [event, Action.step, run_map, run_setCeiling c m hn]
  rfl

theorem event_add : (ofInts c m).event .add n =
    ⟨.add, n, ofInts c m, .ok (.int (max 0 (c + n - m))), ofInts (min (c + n) m) m⟩ := by
  rw [event, Action.step, run_add c m hn]

theorem event_sub : (ofInts c m).event .sub n =
    ⟨.sub, n, ofInts c m, .ok (.int (max 0 (n - c))), ofInts (max 0 (c - n)) m⟩ := by
  rw [event, Action.step, run_sub c m hn]

end Nonneg

theorem sound_of_neg {c m n : Int} (hc : 0 ≤ c) (hm : c ≤ m) (hneg : n < 0) (a : Action) :
    Event.Sound ⟨a, n, ofInts c m, .error (Fault.negativeAmount (.int n)).worded, ofInts c m⟩ where
  inRange := ⟨c, m, rfl, hc, hm⟩
  refused_iff := iff_of_true ⟨_, rfl⟩ hneg
  unchanged _ _ := rfl
  ceiling _ := rfl
  answered hn _ := absurd hneg (Int.not_lt.mpr hn)
  overflow _ h := absurd h (Int.lt_irrefl 0)
  underflow _ h := absurd h (Int.lt_irrefl 0)

theorem not_refused {n : Int} (hn : 0 ≤ n) (v : Value) :
    (∃ f, (Except.ok v : Except Fault Value) = .error f) ↔ n < 0 := by
  refine iff_of_false ?_ (Int.not_lt.mpr hn)
  rintro ⟨f, h⟩
  cases h

section Range

variable {c m n : Int} (hc : 0 ≤ c) (hm : c ≤ m) (hn : 0 ≤ n)
include hc hm hn

theorem sound_setCurrent : ((ofInts c m).event .setCurrent n).Sound := by
  rw [event_setCurrent hn]
  exact {
    inRange := ⟨_, _, rfl, by omega, by omega⟩
    refused_iff := not_refused hn _
    unchanged := fun f h => by cases h
    ceiling := fun _ => rfl
    answered := fun _ h => by simp at h
    overflow := fun h => by simp at h
    underflow := fun h => by simp at h }

omit hm in
theorem sound_setCeiling : ((ofInts c m).event .setCeiling n).Sound := by
  rw [event_setCeiling hn]
  exact {
    inRange := ⟨_, _, rfl, by omega, by omega⟩
    refused_iff := not_refused hn _
    unchanged := fun f h => by cases h
    ceiling := fun h => absurd rfl h
    answered := fun _ h => by simp at h
    overflow := fun h => by simp at h
    underflow := fun h => by simp at h }

theorem sound_add : ((ofInts c m).event .add n).Sound := by
  rw [event_add hn]
  exact {
    inRange := ⟨_, _, rfl, by omega, by omega⟩
    refused_iff := not_refused hn _
    unchanged := fun f h => by cases h
    ceiling := fun _ => rfl
    answered := fun _ _ => ⟨le_max_left 0 _, rfl⟩
    overflow := fun _ h => by
      have hpast : 0 < max 0 (c + n - m) := h
      exact congrArg Value.int (min_eq_right (by omega))
    underflow := fun h => by simp at h }

theorem sound_sub : ((ofInts c m).event .sub n).Sound := by
  rw [event_sub hn]
  exact {
    inRange := ⟨_, _, rfl, by omega, by omega⟩
    refused_iff := not_refused hn _
    unchanged := fun f h => by cases h
    ceiling := fun _ => rfl
    answered := fun _ _ => ⟨le_max_left 0 _, rfl⟩
    overflow := fun h => by simp at h
    underflow := fun _ h => by
      have hpast : 0 < max 0 (n - c) := h
      exact congrArg Value.int (max_eq_left (by omega)) }

end Range

/-- Within its range a gauge answers every action soundly. -/
theorem sound_event {c m : Int} (hc : 0 ≤ c) (hm : c ≤ m) (a : Action) (n : Int) : ((ofInts c m).event a n).Sound := by
  rcases Int.lt_or_le n 0 with hneg | hn
  · rw [event_of_neg hneg]
    exact sound_of_neg hc hm hneg a
  · cases a with
    | setCurrent => exact sound_setCurrent hc hm hn
    | setCeiling => exact sound_setCeiling hc hn
    | add => exact sound_add hc hm hn
    | sub => exact sound_sub hc hm hn

/-- An addition or a subtraction moves the counter by its balance, and leaves the ceiling. -/
theorem after_event {a : Action} (ha : a = .add ∨ a = .sub) (c m n : Int) :
    ((ofInts c m).event a n).after = ofInts (c + Event.balance [(ofInts c m).event a n]) m := by
  rcases Int.lt_or_le n 0 with hneg | hn
  · rw [event_of_neg hneg, Event.balance_refused, Int.add_zero]
  · rcases ha with rfl | rfl
    · rw [event_add hn, Event.balance_add]
      exact congrArg (ofInts · m) (by omega)
    · rw [event_sub hn, Event.balance_sub]
      exact congrArg (ofInts · m) (by omega)

theorem sound_history {g : Gauge} (hg : g.InRange) (run : List (Action × Int)) : ∀ e ∈ g.history run, e.Sound := by
  induction run generalizing g with
  | nil => exact fun e he => absurd he List.not_mem_nil
  | cons step run ih =>
      obtain ⟨a, n⟩ := step
      have hsound : (g.event a n).Sound := by
        obtain ⟨c, m, rfl, hc, hm⟩ := hg
        exact sound_event hc hm a n
      exact List.forall_mem_cons.mpr ⟨hsound, ih hsound.inRange⟩

theorem InRange.afterRun {g : Gauge} (hg : g.InRange) (run : List (Action × Int)) : (g.afterRun run).InRange := by
  induction run generalizing g with
  | nil => exact hg
  | cons step run ih => exact ih (hg.step step.1 step.2)

/-- The balances of the events add up to that of the stretch, since each leaves the counter that the next one
finds. -/
theorem afterRun_balance (c m : Int) {stretch : List (Action × Int)}
    (h : ∀ step ∈ stretch, step.1 = .add ∨ step.1 = .sub) :
    (ofInts c m).afterRun stretch = ofInts (c + Event.balance ((ofInts c m).history stretch)) m := by
  induction stretch generalizing c with
  | nil => rw [history, Event.balance_nil, Int.add_zero, afterRun]
  | cons step stretch ih =>
      obtain ⟨a, n⟩ := step
      obtain ⟨ha, hmore⟩ := List.forall_mem_cons.mp h
      rw [history, afterRun, Event.balance_cons, after_event ha, ih _ hmore, Int.add_assoc]

/-- Whatever is asked of a gauge between integers, every event of the run is sound; and over any stretch of
additions and subtractions the counter moves by what was accepted less what was handed back. -/
theorem history_sound_and_balanced {c m : Int} {g : Gauge} (hg : ofParts (.int c) (.int m) = .ok g) :
    (∀ run, ∀ e ∈ g.history run, e.Sound) ∧
      ∀ earlier stretch, (∀ step ∈ stretch, step.1 = .add ∨ step.1 = .sub) →
        ∃ first last : Int,
          (g.afterRun earlier).current = .int first ∧
          ((g.afterRun earlier).afterRun stretch).current = .int last ∧
          first + Event.balance ((g.afterRun earlier).history stretch) = last := by
  have hrange := inRange_of_ofParts hg
  refine ⟨sound_history hrange, fun earlier stretch hstretch => ?_⟩
  obtain ⟨c', m', hearlier, -, -⟩ := hrange.afterRun earlier
  rw [hearlier, afterRun_balance c' m' hstretch]
  exact ⟨_, _, rfl, rfl, rfl⟩

theorem history_sound_and_balanced_overfilled :
    ofParts (.int 0) (.int 10) = .ok (ofInts 0 10) ∧
      (∀ e ∈ (ofInts 0 10).history [(.add, 15), (.sub, -1), (.setCeiling, 4)], e.Sound) ∧
      ((ofInts 0 10).afterRun [(.add, 15), (.sub, 3), (.sub, 9)]).current =
        .int (0 + Event.balance ((ofInts 0 10).history [(.add, 15), (.sub, 3), (.sub, 9)])) := by
  have hg : ofParts (.int 0) (.int 10) = .ok (ofInts 0 10) := ofParts_int 0 10
  obtain ⟨hsound, hbalance⟩ := history_sound_and_balanced hg
  refine ⟨hg, hsound _, ?_⟩
  obtain ⟨first, last, hfirst, hlast, rfl⟩ := hbalance [] [(.add, 15), (.sub, 3), (.sub, 9)] (by decide)
  cases hfirst
  exact hlast

end Progression.Gauge
