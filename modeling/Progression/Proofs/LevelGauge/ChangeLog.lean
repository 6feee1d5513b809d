import Progression.Proofs.LevelGauge.UnsignedCeilings

/-! # The log of ceilings

A ceiling is recorded before the gauge takes it, and the gauge refuses a negative one. So what is recorded while levels
are asked for in turn are the changes of the ceiling and, between them, the negative ceilings that were refused. The log
is the history of the changes exactly if no level has a negative ceiling, as none has where a formula or a table sets
ceilings of an unsigned type. -/

namespace Progression

/-- Whether the record is that of a negative ceiling. -/
def Record.isNegative : Record → Bool
  | .ceiling _ _ (.number (.int n)) => n < 0
  | _ => false

/-- A level that was reached, with the ceilings before and after. -/
structure CeilingChange where
  level : Value
  old : Value
  new : Value
  deriving DecidableEq

def CeilingChange.record (c : CeilingChange) : Record := .ceiling c.level c.old c.new

theorem StorageType.nonneg_of_integer {t : StorageType} (ht : t.isUnsigned = .ok true) {v : Double} {n : Int}
    (h : t.integer v = .ok n) : 0 ≤ n := by
  cases hr : v.toRat? with
  | none =>
      have htruncate : v.truncate? = none := by rw [Double.truncate?_eq, hr, Option.map_none]
      rw [integer, htruncate] at h
      cases h
  | some r =>
      have htruncate : v.truncate? = some (towardZero r) := by rw [Double.truncate?_eq, hr, Option.map_some]
      rw [integer_of_truncate t htruncate, ht] at h
      change (if v.less 0 = true then _ else _) = _ at h
      split at h
      · cases h
      · rename_i hsign
        obtain ⟨-, -, hn⟩ := exists_of_bind_eq_ok h
        cases hn
        have hr0 : 0 ≤ r := not_lt.mp (mt (Double.less_zero_iff hr).mpr hsign)
        rw [towardZero, if_pos hr0]
        exact Int.floor_nonneg.mpr hr0

/-- What a formula or a table gives was stored as the type asked for. -/
theorem CeilingRule.exists_store_of_evaluate {rule : CeilingRule} (hrule : ∀ c, rule ≠ .custom c) {level value : Value}
    {output : TypeRequest} (h : rule.evaluate level output = .ok value) :
    ∃ (v : Double) (n : Number), v.store output = .ok n ∧ .number n = value := by
  cases rule with
  | formula f =>
      obtain ⟨n, heval, hn⟩ := exists_of_map_eq_ok h
      obtain ⟨x, -, hstore⟩ := exists_of_bind_eq_ok heval
      exact ⟨_, n, hstore, hn⟩
  | table t =>
      obtain ⟨n, heval, hn⟩ := exists_of_map_eq_ok h
      change (t.lookup level >>= fun value => value.toDouble none >>= fun v => v.store output) = _ at heval
      obtain ⟨value, -, hvalue⟩ := exists_of_bind_eq_ok heval
      obtain ⟨v, -, hstore⟩ := exists_of_bind_eq_ok hvalue
      exact ⟨v, n, hstore, hn⟩
  | custom c => exact absurd rfl (hrule c)

namespace LevelGauge

variable {g : LevelGauge}

/-- A formula or a table has no negative ceiling of an unsigned type. -/
theorem nonneg_of_ceilingOf (hinteger : g.ceilingType.isInteger) (hunsigned : g.ceilingType.isUnsigned = .ok true)
    (hrule : ∀ c, g.rule ≠ .custom c) {level : Value} {n : Int} (h : g.ceilingOf level = .ok n) : 0 ≤ n := by
  obtain ⟨value, heval, hpart⟩ := exists_of_bind_eq_ok h
  obtain ⟨v, number, hstore, rfl⟩ := CeilingRule.exists_store_of_evaluate hrule heval
  rw [StorageType.store_of_isInteger hinteger rfl] at hstore
  obtain ⟨m, hm, rfl⟩ := exists_of_map_eq_ok hstore
  cases hpart
  exact StorageType.nonneg_of_integer hunsigned hm

/-- A level without a ceiling is not recorded. One with a negative ceiling is recorded and refused, and any other one is
recorded and reached. -/
theorem reach_cases (hg : g.gauge.Ordered) (level : Value) :
    (∃ f, g.ceilingOf level = .error f ∧ g.reach level = ⟨.error f, g, []⟩) ∨
      (∃ n : Int, n < 0 ∧ g.ceilingOf level = .ok n ∧ g.reach level =
        ⟨.error (Fault.negativeAmount (.int n)).worded, g, [.ceiling level g.gauge.ceiling (.int n)]⟩) ∨
      ∃ (n : Int) (current : Value), 0 ≤ n ∧ g.ceilingOf level = .ok n ∧ g.reach level =
        ⟨.ok (), { g with gauge := ⟨current, .int n⟩ }, [.ceiling level g.gauge.ceiling (.int n)]⟩ := by
  cases hceiling : g.ceilingOf level with
  | error f => exact .inl ⟨f, rfl, reach_of_error hceiling⟩
  | ok n =>
      right
      rcases Int.lt_or_le n 0 with hneg | hn
      · have hresult := result_reach_of_neg hneg hceiling
        have hafter := after_reach_of_error hresult
        have hrecords : (g.reach level).records = [.ceiling level g.gauge.ceiling (.int n)] := by
          rw [reach_of_ok hceiling]
        refine .inl ⟨n, hneg, rfl, ?_⟩
        rw [← hresult, ← hrecords]
        exact congrArg (fun after => (⟨_, after, _⟩ : Outcome Unit)) hafter
      · obtain ⟨current, -, hrun⟩ := hg.run_setCeiling hn
        refine .inr ⟨n, current, hn, rfl, ?_⟩
        rw [reach_of_ok hceiling, onGauge, hrun]

theorem Keeps.ceilingOf_eq {h : LevelGauge} (hkeeps : g.Keeps h) (level : Value) :
    h.ceilingOf level = g.ceilingOf level := by
  rw [ceilingOf, ceilingOf, hkeeps.rule, hkeeps.ceilingType]

theorem keeps_reach (hg : g.gauge.Ordered) (level : Value) : g.Keeps (g.reach level).after :=
  keeps_obey hg (.reach level)

/-- What is recorded while levels are asked for in turn. -/
def log (g : LevelGauge) (levels : List Value) : List Record :=
  (g.outcomes (levels.map .reach)).flatMap Outcome.records

/-- The levels in turn that are reached, each with the ceilings before and after. -/
def changes (g : LevelGauge) : List Value → List CeilingChange
  | [] => []
  | level :: more =>
    let o := g.reach level
    match o.result with
    | .ok _ => ⟨level, g.gauge.ceiling, o.after.gauge.ceiling⟩ :: changes o.after more
    | .error _ => changes o.after more

theorem log_cons (g : LevelGauge) (level : Value) (more : List Value) :
    g.log (level :: more) = (g.reach level).records ++ (g.reach level).after.log more := rfl

/-- Without the negative ceilings, the log is the history of the changes. -/
theorem filter_log (hg : g.gauge.Ordered) (levels : List Value) :
    (g.log levels).filter (fun r => !r.isNegative) = (g.changes levels).map CeilingChange.record := by
  induction levels generalizing g with
  | nil => rfl
  | cons level more ih =>
      have hmore := ih (keeps_reach hg level).ordered
      rw [log_cons, List.filter_append, hmore, changes]
      rcases reach_cases hg level with ⟨f, -, hreach⟩ | ⟨n, hneg, -, hreach⟩ | ⟨n, current, hn, -, hreach⟩
      · rw [hreach]
        rfl
      · have hnegative : (Record.ceiling level g.gauge.ceiling (.int n)).isNegative = true := decide_eq_true hneg
        rw [hreach]
        simp only [List.filter_cons, hnegative, Bool.not_true, Bool.false_eq_true, if_false, List.filter_nil,
          List.nil_append]
      · have hnegative : (Record.ceiling level g.gauge.ceiling (.int n)).isNegative = false :=
          decide_eq_false (Int.not_lt.mpr hn)
        rw [hreach]
        simp only [List.filter_cons, hnegative, Bool.not_false, if_true, List.filter_nil, List.map_cons]
        rfl

/-- No negative ceiling is recorded exactly if no level has one. -/
theorem forall_log_iff (hg : g.gauge.Ordered) (levels : List Value) :
    (∀ r ∈ g.log levels, r.isNegative = false) ↔ ∀ level ∈ levels, ∀ n, g.ceilingOf level = .ok n → 0 ≤ n := by
  induction levels generalizing g with
  | nil => exact iff_of_true (fun r hr => absurd hr List.not_mem_nil) fun level hlevel => absurd hlevel List.not_mem_nil
  | cons level more ih =>
      have hkeeps := keeps_reach hg level
      have hmore := ih hkeeps.ordered
      simp only [hkeeps.ceilingOf_eq] at hmore
      rw [log_cons, List.forall_mem_append, hmore, List.forall_mem_cons]
      refine and_congr_left fun _ => ?_
      rcases reach_cases hg level with ⟨f, hceiling, hreach⟩ | ⟨n, hneg, hceiling, hreach⟩ |
        ⟨n, current, hn, hceiling, hreach⟩
      · rw [hreach, hceiling]
        exact iff_of_true (fun r hr => absurd hr List.not_mem_nil) fun n hn => by cases hn
      · rw [hreach, hceiling, List.forall_mem_singleton]
        exact iff_of_false (Bool.ne_false_iff.mpr (decide_eq_true hneg)) fun h =>
          absurd (h n rfl) (Int.not_le.mpr hneg)
      · rw [hreach, hceiling, List.forall_mem_singleton]
        refine iff_of_true (decide_eq_false (Int.not_lt.mpr hn)) fun m hm => ?_
        cases hm
        exact hn

theorem log_eq_changes_iff (hg : g.gauge.Ordered) (levels : List Value) :
    g.log levels = (g.changes levels).map CeilingChange.record ↔
      ∀ level ∈ levels, ∀ n, g.ceilingOf level = .ok n → 0 ≤ n := by
  rw [← filter_log hg, ← forall_log_iff hg, eq_comm, List.filter_eq_self]
  simp only [Bool.not_eq_true']

/-- The ceiling after levels in turn is that of the last change. -/
theorem ceiling_afterCommands (g : LevelGauge) (levels : List Value) :
    (g.afterCommands (levels.map .reach)).gauge.ceiling =
      ((g.changes levels).getLast?.map CeilingChange.new).getD g.gauge.ceiling := by
  induction levels generalizing g with
  | nil => rfl
  | cons level more ih =>
      have hfirst : g.afterCommands ((level :: more).map .reach) =
          (g.reach level).after.afterCommands (more.map .reach) := rfl
      rw [hfirst, ih, changes]
      cases hresult : (g.reach level).result with
      | error f => rw [after_reach_of_error hresult]
      | ok _ =>
          dsimp only
          rw [List.getLast?_cons]
          cases ((g.reach level).after.changes more).getLast? <;> rfl

/-- After any commands, the log of levels in turn is the history of the changes of the ceiling, but for the records of
negative ceilings. It has none of those exactly if no level has a negative ceiling, and so for a formula or a table with
an unsigned type. The ceiling at the end is that of the last change. -/
theorem log_records_changes {rule : CeilingRule} {gauge : Gauge} {request : TypeRequest} {g : LevelGauge}
    {current ceiling : Value} (hgauge : Gauge.ofParts current ceiling = .ok gauge)
    (hg : ofParts rule gauge request = .ok g) (commands : List Command) (levels : List Value) :
    let h := g.afterCommands commands
    (h.log levels).filter (fun r => !r.isNegative) = (h.changes levels).map CeilingChange.record ∧
      (h.log levels = (h.changes levels).map CeilingChange.record ↔
        ∀ level ∈ levels, ∀ n, g.ceilingOf level = .ok n → 0 ≤ n) ∧
      (g.ceilingType.isUnsigned = .ok true → (∀ c, rule ≠ .custom c) →
        h.log levels = (h.changes levels).map CeilingChange.record) ∧
      (h.afterCommands (levels.map .reach)).gauge.ceiling =
        ((h.changes levels).getLast?.map CeilingChange.new).getD h.gauge.ceiling := by
  obtain ⟨t, -, hinteger, rfl⟩ := ofParts_eq_ok_iff.mp hg
  intro h
  have hkeeps : Keeps ⟨rule, gauge, t⟩ h := keeps_afterCommands (Gauge.ordered_of_ofParts hgauge) commands
  have hiff := log_eq_changes_iff hkeeps.ordered levels
  simp only [hkeeps.ceilingOf_eq] at hiff
  refine ⟨filter_log hkeeps.ordered levels, hiff, fun hunsigned hrule => hiff.mpr fun level _ n hn => ?_,
    ceiling_afterCommands h levels⟩
  exact nonneg_of_ceilingOf hinteger hunsigned hrule hn

/-- The level less five, in a signed byte. -/
def lessFiveGauge : LevelGauge := ⟨.formula (.apply .sub .unknown (.literal 5)), .ofInts 1 10, .signed 8⟩

/-- Of the levels 2, 7 and 8 the first one is recorded with its ceiling -3, and refused. -/
theorem log_records_changes_negative :
    Gauge.ofParts (.int 1) (.int 10) = .ok lessFiveGauge.gauge ∧
      ofParts lessFiveGauge.rule lessFiveGauge.gauge (.exactly (.signed 8)) = .ok lessFiveGauge ∧
      lessFiveGauge.log [.int 2, .int 7, .int 8] ≠
        (lessFiveGauge.changes [.int 2, .int 7, .int 8]).map CeilingChange.record ∧
      (lessFiveGauge.afterCommands [.reach (.int 2), .reach (.int 7), .reach (.int 8)]).gauge.ceiling = .int 3 ∧
      Gauge.ofParts (.int 120) (.int 150) = .ok byteGauge.gauge ∧
      ofParts byteGauge.rule byteGauge.gauge (.exactly .u8) = .ok byteGauge ∧
      byteGauge.ceilingType.isUnsigned = .ok true ∧ (∀ c, byteGauge.rule ≠ .custom c) ∧
      byteGauge.log [.int 1, .int 2] = (byteGauge.changes [.int 1, .int 2]).map CeilingChange.record := by
  have hsigned : Gauge.ofParts (.int 1) (.int 10) = .ok lessFiveGauge.gauge := Gauge.ofParts_int 1 10
  have hlessFive : ofParts lessFiveGauge.rule lessFiveGauge.gauge (.exactly (.signed 8)) = .ok lessFiveGauge := rfl
  have hunsignedGauge : Gauge.ofParts (.int 120) (.int 150) = .ok byteGauge.gauge := Gauge.ofParts_int 120 150
  have hbyte : ofParts byteGauge.rule byteGauge.gauge (.exactly .u8) = .ok byteGauge := rfl
  have hceiling : lessFiveGauge.ceilingOf (.int 2) = .ok (-3) := by decide +kernel
  have hchanges : lessFiveGauge.changes [.int 2, .int 7, .int 8] =
      [⟨.int 7, .int 10, .int 2⟩, ⟨.int 8, .int 2, .int 3⟩] := by
    decide +kernel
  have hunsigned : byteGauge.ceilingType.isUnsigned = .ok true := by decide +kernel
  have htable (c : CustomRule) : byteGauge.rule ≠ .custom c := by
    intro h
    cases h
  obtain ⟨-, hiff, -, hlast⟩ := log_records_changes hsigned hlessFive [] [.int 2, .int 7, .int 8]
  refine ⟨hsigned, hlessFive, fun heq => ?_, ?_, hunsignedGauge, hbyte, hunsigned, htable, ?_⟩
  · exact absurd (hiff.mp heq (.int 2) List.mem_cons_self (-3) hceiling) (by decide)
  · rw [show lessFiveGauge.afterCommands [] = lessFiveGauge from rfl, hchanges] at hlast
    exact hlast
  · exact (log_records_changes hunsignedGauge hbyte [] [.int 1, .int 2]).2.2.1 hunsigned htable

/-- A ceiling can be recorded that the gauge never had. -/
theorem log_without_change :
    ¬∀ (rule : CeilingRule) (gauge : Gauge) (request : TypeRequest) (g : LevelGauge) (current ceiling : Value),
      Gauge.ofParts current ceiling = .ok gauge → ofParts rule gauge request = .ok g →
        ∀ levels, g.log levels = (g.changes levels).map CeilingChange.record := by
  intro h
  have heq := h lessFiveGauge.rule lessFiveGauge.gauge (.exactly (.signed 8)) lessFiveGauge (.int 1) (.int 10)
    (Gauge.ofParts_int 1 10) rfl [.int 2]
  have hlog : lessFiveGauge.log [.int 2] = [.ceiling (.int 2) (.int 10) (.int (-3))] := by decide +kernel
  have hchanges : lessFiveGauge.changes [.int 2] = [] := by decide +kernel
  rw [hlog, hchanges] at heq
  cases heq

end LevelGauge
end Progression
