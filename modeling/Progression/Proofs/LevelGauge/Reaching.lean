import Progression.LevelGauge
import Progression.Proofs.Gauge.Steps

/-! # Reaching a level

A level is reached as a whole or not at all. Every fault, in the rule, in the conversion of what it returns or in
the gauge, leaves the level gauge as it was; and a level that is reached has set the ceiling to its own, which the
counter is then not above. So the counter stays in its range over every run. -/

namespace Progression.LevelGauge

/-- What can be asked of a level gauge. -/
inductive Command where
  | reach (level : Value)
  | ceilingOf (level : Value)
  | change (a : Gauge.Action) (amount : Value)
  | quote
  | save

/-- What a level gauge answers. -/
inductive Answer where
  | done
  | ceiling (n : Int)
  | value (v : Value)
  | text (s : String)
  | saved (s : Saved)

namespace Outcome

variable {α β : Type}

/-- The outcome with another form of its result. -/
def map (f : α → β) (o : Outcome α) : Outcome β := ⟨o.result.map f, o.after, o.records⟩

end Outcome

/-- Obeys a command. -/
def obey (g : LevelGauge) : Command → Outcome Answer
  | .reach level => (g.reach level).map fun _ => .done
  | .ceilingOf level => ⟨(g.ceilingOf level).map .ceiling, g, []⟩
  | .change a amount => (g.onGauge (a.step amount)).map .value
  | .quote => ⟨g.quoted.map .text, g, []⟩
  | .save => ⟨g.save.map .saved, g, []⟩

/-- The outcomes of commands that are obeyed in turn. -/
def outcomes (g : LevelGauge) : List Command → List (Outcome Answer)
  | [] => []
  | command :: more => g.obey command :: outcomes (g.obey command).after more

/-- Whether a command changes the gauge by an integer, if it names an amount at all. -/
def Command.IsIntegral : Command → Prop
  | change _ amount => ∃ n : Int, amount = .int n
  | _ => True

theorem ofParts_eq_ok_iff {rule : CeilingRule} {gauge : Gauge} {request : TypeRequest} {g : LevelGauge} :
    ofParts rule gauge request = .ok g ↔ ∃ t, request.resolve = .ok t ∧ t.isInteger ∧ g = ⟨rule, gauge, t⟩ := by
  unfold ofParts
  cases request.resolve with
  | error f =>
      refine iff_of_false (fun h => by cases h) ?_
      rintro ⟨_, h, -⟩
      cases h
  | ok t =>
      show (if t.isInteger then (.ok ⟨rule, gauge, t⟩ : Except Fault LevelGauge) else .error (.fractionalCeiling t)) =
        .ok g ↔ _
      split
      · rename_i hinteger
        constructor
        · intro h
          exact ⟨t, rfl, hinteger, (Except.ok.inj h).symm⟩
        · rintro ⟨_, h, -, rfl⟩
          cases h
          rfl
      · rename_i hinteger
        refine iff_of_false (fun h => by cases h) ?_
        rintro ⟨_, h, hinteger', -⟩
        cases h
        exact hinteger hinteger'

variable {g : LevelGauge} {level : Value}

theorem reach_of_error {f : Fault} (h : g.ceilingOf level = .error f) : g.reach level = ⟨.error f, g, []⟩ := by
  rw [reach, h]

theorem reach_of_ok {n : Int} (h : g.ceilingOf level = .ok n) :
    g.reach level =
      { g.onGauge (Gauge.setCeiling (.int n)) with
        records := [.ceiling level g.gauge.ceiling (.int n)] } := by
  rw [reach, h]

/-- A level that is not reached changes nothing, whatever the gauge holds and the rule does. -/
theorem after_reach_of_error {f : Fault} (h : (g.reach level).result = .error f) : (g.reach level).after = g := by
  cases hceiling : g.ceilingOf level with
  | error e => rw [reach_of_error hceiling]
  | ok n =>
      rw [reach_of_ok hceiling] at h ⊢
      exact congrArg (fun gauge => { g with gauge }) (Gauge.after_setCeiling_of_error h)

section Integers

variable {c m n : Int}

theorem reach_of_nonneg (hgauge : g.gauge = .ofInts c m) (hn : 0 ≤ n) (h : g.ceilingOf level = .ok n) :
    g.reach level =
      ⟨.ok (), { g with gauge := .ofInts (min c n) n }, [.ceiling level (.int m) (.int n)]⟩ := by
  rw [reach_of_ok h, onGauge, hgauge, Gauge.run_setCeiling c m hn]
  rfl

/-- The change to a negative ceiling is recorded, but the gauge refuses it. -/
theorem result_reach_of_neg (hn : n < 0) (h : g.ceilingOf level = .ok n) :
    (g.reach level).result = .error (Fault.negativeAmount (.int n)).worded := by
  have hamount : Gauge.checkAmount (.int n) = .error (Fault.negativeAmount (.int n)).worded := by
    rw [Gauge.checkAmount_int, if_pos hn]
  rw [reach_of_ok h, onGauge, Gauge.run_setCeiling_eq, hamount]
  rfl

/-- A level is reached exactly if it has a ceiling that is not negative. -/
theorem result_reach_eq_ok_iff (hgauge : g.gauge = .ofInts c m) :
    (g.reach level).result = .ok () ↔ ∃ n, 0 ≤ n ∧ g.ceilingOf level = .ok n := by
  constructor
  · intro h
    cases hceiling : g.ceilingOf level with
    | error f =>
        rw [reach_of_error hceiling] at h
        cases h
    | ok n =>
        rcases Int.lt_or_le n 0 with hneg | hn
        · rw [result_reach_of_neg hneg hceiling] at h
          cases h
        · exact ⟨n, hn, rfl⟩
  · rintro ⟨n, hn, hceiling⟩
    rw [reach_of_nonneg hgauge hn hceiling]

end Integers

theorem inRange_obey (hg : g.gauge.InRange) {command : Command} (h : command.IsIntegral) :
    (g.obey command).after.gauge.InRange := by
  cases command with
  | reach level =>
      show (g.reach level).after.gauge.InRange
      cases hreach : (g.reach level).result with
      | error f => rwa [after_reach_of_error hreach]
      | ok _ =>
          obtain ⟨c, m, hgauge, hc, -⟩ := hg
          obtain ⟨n, hn, hceiling⟩ := (result_reach_eq_ok_iff hgauge).mp hreach
          rw [reach_of_nonneg hgauge hn hceiling]
          exact ⟨_, _, rfl, by omega, by omega⟩
  | ceilingOf level => exact hg
  | change a amount =>
      obtain ⟨n, rfl⟩ := h
      exact hg.step a n
  | quote => exact hg
  | save => exact hg

/-- Commands that change the gauge by integers only keep it in its range, whatever comes of the levels. -/
theorem inRange_outcomes (hg : g.gauge.InRange) {commands : List Command}
    (h : ∀ command ∈ commands, command.IsIntegral) : ∀ o ∈ g.outcomes commands, o.after.gauge.InRange := by
  induction commands generalizing g with
  | nil => exact fun o ho => absurd ho List.not_mem_nil
  | cons command commands ih =>
      obtain ⟨hcommand, hmore⟩ := List.forall_mem_cons.mp h
      have hafter := inRange_obey hg hcommand
      exact List.forall_mem_cons.mpr ⟨hafter, ih hafter hmore⟩

/-- Reaching a level is all or nothing. A fault leaves the level gauge as it was; else the ceiling is that of the
level, the counter the lesser of the old one and the ceiling, and nothing else has changed. So the counter stays
from zero to the ceiling over every run of commands. -/
theorem reach_all_or_nothing {rule : CeilingRule} {gauge : Gauge} {request : TypeRequest} {g : LevelGauge}
    {c m : Int} (hgauge : Gauge.ofParts (.int c) (.int m) = .ok gauge) (hg : ofParts rule gauge request = .ok g) :
    (∀ level f, (g.reach level).result = .error f → (g.reach level).after = g) ∧
    (∀ level, (g.reach level).result = .ok () ↔ ∃ n, 0 ≤ n ∧ g.ceilingOf level = .ok n) ∧
    (∀ level, (g.reach level).result = .ok () →
      ∃ n, g.ceilingOf level = .ok n ∧ (g.reach level).after = { g with gauge := .ofInts (min c n) n } ∧
        0 ≤ min c n ∧ min c n ≤ n) ∧
    ∀ commands : List Command, (∀ command ∈ commands, command.IsIntegral) →
      ∀ o ∈ g.outcomes commands, o.after.gauge.InRange := by
  obtain ⟨t, -, -, rfl⟩ := ofParts_eq_ok_iff.mp hg
  obtain ⟨hc, hm, rfl⟩ := Gauge.ofParts_int_eq_ok_iff.mp hgauge
  refine ⟨fun level f => after_reach_of_error, fun level => result_reach_eq_ok_iff rfl, fun level hreach => ?_,
    fun commands => inRange_outcomes (Gauge.inRange_of_ofParts hgauge)⟩
  obtain ⟨n, hn, hceiling⟩ := (result_reach_eq_ok_iff rfl).mp hreach
  refine ⟨n, hceiling, ?_, by omega, by omega⟩
  rw [reach_of_nonneg rfl hn hceiling]

/-- The levels 1 and 2, of which the second is too high for a byte. -/
def twoLevels : LevelTable := ⟨⟨[(.int 1, .int 100), (.int 2, .int 300)]⟩⟩

def byteGauge : LevelGauge := ⟨.table twoLevels, .ofInts 120 150, .u8⟩

theorem ceilingOf_byteGauge_one : byteGauge.ceilingOf (.int 1) = .ok 100 := by decide +kernel

theorem ceilingOf_byteGauge_two :
    byteGauge.ceilingOf (.int 2) = .error (.refused (.above .u8 (.int 255)) (.double 300)) := by
  decide +kernel

theorem reach_all_or_nothing_byte :
    Gauge.ofParts (.int 120) (.int 150) = .ok (.ofInts 120 150) ∧
      ofParts (.table twoLevels) (.ofInts 120 150) (.exactly .u8) = .ok byteGauge ∧
      (byteGauge.reach (.int 1)).after = { byteGauge with gauge := .ofInts 100 100 } ∧
      (byteGauge.reach (.int 2)).after = byteGauge ∧
      ∀ o ∈ byteGauge.outcomes [.reach (.int 2), .change .add (.int 40), .reach (.int 1)],
        o.after.gauge.InRange := by
  have hgauge : Gauge.ofParts (.int 120) (.int 150) = .ok (.ofInts 120 150) := Gauge.ofParts_int 120 150
  have hg : ofParts (.table twoLevels) (.ofInts 120 150) (.exactly .u8) = .ok byteGauge := rfl
  obtain ⟨hfault, hreached, hafter, hruns⟩ := reach_all_or_nothing hgauge hg
  refine ⟨hgauge, hg, ?_, ?_, ?_⟩
  · obtain ⟨n, hn, h, -⟩ := hafter (.int 1) ((hreached _).mpr ⟨100, by decide, ceilingOf_byteGauge_one⟩)
    cases ceilingOf_byteGauge_one.symm.trans hn
    exact h
  · exact hfault _ _ (by rw [reach_of_error ceilingOf_byteGauge_two])
  · apply hruns
    simp [Command.IsIntegral]

end Progression.LevelGauge
