import Progression.Proofs.Gauge.Kinds
import Progression.Proofs.LevelGauge.Reaching
import Progression.Proofs.Machine.Standard
import Progression.Proofs.StorageType.Truncating

/-! # Unsigned ceilings

What a formula or a table comes to at a level may be negative, not finite or not a number. An unsigned ceiling type
lets none of that through, so that a gauge never meets a ceiling that it would refuse: a level is refused for its value
or for what the rule comes to there, or else it is reached. Neither happens only where the refusal would quote an
integer with too many digits. -/

namespace Progression

namespace CeilingRule

/-- The double that the rule comes to at the level, before it is stored. A caller's own rule need not have one. -/
inductive ComesTo : CeilingRule → Value → Double → Prop
  | formula {f : Formula} {level : Value} {x : Double} :
      level.toDouble none = .ok x → ComesTo (.formula f) level (f.eval x)
  | table {t : LevelTable} {level value : Value} {v : Double} :
      t.lookup level = .ok value → value.toDouble none = .ok v → ComesTo (.table t) level v

/-- The level can be asked for: of a formula every value, and of a table all but a signaling not-a-number, so that every
integer can. -/
def Admits : CeilingRule → Value → Prop
  | .formula _, _ => True
  | .table _, level => level.isSignaling = false
  | .custom _, _ => False

theorem ComesTo.unique {rule : CeilingRule} {level : Value} {v w : Double} (hv : rule.ComesTo level v)
    (hw : rule.ComesTo level w) : v = w := by
  cases hv with
  | formula hx =>
      cases hw with
      | formula hy => rw [Except.ok.inj (hx.symm.trans hy)]
  | table hlookup hv =>
      cases hw with
      | table hlookup' hw =>
          obtain rfl := Except.ok.inj (hlookup.symm.trans hlookup')
          exact Except.ok.inj (hv.symm.trans hw)

/-- What the rule would refuse at the level has too many digits to be quoted: the level itself, without a double or, in a
table, without an entry, or the value that a table has for it. -/
inductive Unwritable : CeilingRule → Value → Prop
  | formula {f : Formula} {level : Value} (hlacks : level.LacksDouble) (hlong : level.isWritable = false) :
      Unwritable (.formula f) level
  | missing {t : LevelTable} {level : Value} (hmissing : ∀ value, t.lookup level ≠ .ok value)
      (hlong : level.isWritable = false) : Unwritable (.table t) level
  | held {t : LevelTable} {level value : Value} (hlookup : t.lookup level = .ok value) (hlacks : value.LacksDouble)
      (hlong : value.isWritable = false) : Unwritable (.table t) level

theorem unwritable_formula_iff {f : Formula} {level : Value} :
    Unwritable (.formula f) level ↔ level.toDouble none = .error .unwritable := by
  rw [Value.toDouble_eq_unwritable_iff]
  constructor
  · rintro ⟨hlacks, hlong⟩
    exact ⟨hlacks, hlong⟩
  · rintro ⟨hlacks, hlong⟩
    exact .formula hlacks hlong

theorem unwritable_table_iff {t : LevelTable} {level value : Value} (h : t.lookup level = .ok value) :
    Unwritable (.table t) level ↔ value.toDouble none = .error .unwritable := by
  rw [Value.toDouble_eq_unwritable_iff]
  constructor
  · rintro (- | ⟨hmissing, -⟩ | ⟨hlookup, hlacks, hlong⟩)
    · exact absurd h (hmissing value)
    · obtain rfl := Except.ok.inj (hlookup.symm.trans h)
      exact ⟨hlacks, hlong⟩
  · rintro ⟨hlacks, hlong⟩
    exact .held h hlacks hlong

theorem unwritable_table_iff_of_missing {t : LevelTable} {level : Value} (h : ∀ value, t.lookup level ≠ .ok value) :
    Unwritable (.table t) level ↔ level.isWritable = false := by
  constructor
  · rintro (- | ⟨-, hlong⟩ | ⟨hlookup, -, -⟩)
    · exact hlong
    · exact absurd hlookup (h _)
  · exact .missing h

theorem lookup_cases (t : LevelTable) {level : Value} (hlevel : level.isSignaling = false) :
    (∃ value, t.lookup level = .ok value) ∨ t.lookup level = .error (Fault.refused .notInTable level).worded := by
  unfold LevelTable.lookup Level.ofValue
  rw [dif_pos hlevel]
  dsimp only [bind, Except.bind]
  cases t.entries.find? ⟨level, hlevel⟩ with
  | some value => exact .inl ⟨value, rfl⟩
  | none => exact .inr rfl

/-- How a rule is evaluated at a level: it comes to a double, which is stored, or it refuses a value, or that has too many
digits for it. -/
inductive Evaluated (rule : CeilingRule) (level : Value) (output : TypeRequest) : Except Fault Value → Prop
  | stored (v : Double) (hv : rule.ComesTo level v) (hwritable : ¬rule.Unwritable level) :
    Evaluated rule level output ((v.store output).map .number)
  | refused (r : Refusal) (value : Value) (hnone : ∀ v, ¬rule.ComesTo level v) (hwritable : ¬rule.Unwritable level) :
    Evaluated rule level output (.error (.refused r value))
  | unwritable (hnone : ∀ v, ¬rule.ComesTo level v) (hunwritable : rule.Unwritable level) :
    Evaluated rule level output (.error .unwritable)

/-- A rule that computes on the double of one value is evaluated as that value is converted. -/
theorem evaluated_of_value {rule : CeilingRule} {level value : Value} {output : TypeRequest} {k : Double → Double}
    (heval : rule.evaluate level output = (value.toDouble none >>= fun x => (k x).store output).map .number)
    (hcomes : ∀ v, rule.ComesTo level v ↔ ∃ x, value.toDouble none = .ok x ∧ v = k x)
    (hunwritable : rule.Unwritable level ↔ value.toDouble none = .error .unwritable) :
    Evaluated rule level output (rule.evaluate level output) := by
  have hnone {f : Fault} (hf : value.toDouble none = .error f) (v : Double) : ¬rule.ComesTo level v := by
    rw [hcomes]
    rintro ⟨x, hx, -⟩
    cases hf.symm.trans hx
  rw [heval]
  rcases value.toDouble_cases with ⟨x, hx⟩ | ⟨r, hr⟩ | ⟨-, hlong⟩
  · have hv : rule.ComesTo level (k x) := (hcomes _).mpr ⟨x, hx, rfl⟩
    rw [hx] at hunwritable ⊢
    exact .stored (k x) hv fun h => by cases hunwritable.mp h
  · have hv := hnone hr
    rw [hr] at hunwritable ⊢
    exact .refused r value hv fun h => by cases hunwritable.mp h
  · have hv := hnone hlong
    rw [hlong] at hunwritable ⊢
    exact .unwritable hv (hunwritable.mpr rfl)

theorem evaluated_formula (f : Formula) (level : Value) (output : TypeRequest) :
    Evaluated (.formula f) level output ((formula f).evaluate level output) := by
  refine evaluated_of_value (k := f.eval) rfl (fun v => ⟨fun hv => ?_, ?_⟩) unwritable_formula_iff
  · cases hv with
    | formula hx => exact ⟨_, hx, rfl⟩
  · rintro ⟨x, hx, rfl⟩
    exact .formula hx

theorem evaluated_table (t : LevelTable) {level : Value} (hlevel : level.isSignaling = false) (output : TypeRequest) :
    Evaluated (.table t) level output ((table t).evaluate level output) := by
  have heval : (table t).evaluate level output =
      (t.lookup level >>= fun value => value.toDouble none >>= fun v => v.store output).map Value.number := rfl
  rcases lookup_cases t hlevel with ⟨value, hlookup⟩ | hmissing
  · rw [hlookup] at heval
    refine evaluated_of_value (k := id) heval (fun v => ⟨fun hv => ?_, ?_⟩) (unwritable_table_iff hlookup)
    · cases hv with
      | table hlookup' hv =>
          obtain rfl := Except.ok.inj (hlookup.symm.trans hlookup')
          exact ⟨v, hv, rfl⟩
    · rintro ⟨x, hx, rfl⟩
      exact .table hlookup hx
  · -- The table has no value, and it is the level that is refused.
    have hnot (value : Value) : t.lookup level ≠ .ok value := fun h => by cases hmissing.symm.trans h
    have hunwritable := unwritable_table_iff_of_missing hnot
    have hnone (v : Double) : ¬ComesTo (.table t) level v := by
      intro hv
      cases hv with
      | table hlookup hv => exact hnot _ hlookup
    rw [heval, hmissing]
    rcases Fault.worded_refused_cases (r := .notInTable) rfl level with ⟨hshort, hworded⟩ | ⟨hlong, hworded⟩
    · rw [hworded]
      exact .refused _ level hnone fun h => Bool.false_ne_true ((hunwritable.mp h).symm.trans hshort)
    · rw [hworded]
      exact .unwritable hnone (hunwritable.mpr hlong)

theorem evaluated {rule : CeilingRule} {level : Value} (h : rule.Admits level) (output : TypeRequest) :
    Evaluated rule level output (rule.evaluate level output) := by
  cases rule with
  | formula f => exact evaluated_formula f level output
  | table t => exact evaluated_table t h output
  | custom c => exact h.elim

end CeilingRule

namespace LevelGauge

variable {g : LevelGauge}

/-- The ceiling of a level is the integer that its type takes the double of the level for; a level without one is
refused, unless the rule has too many digits to quote. -/
theorem ceilingOf_cases (hinteger : g.ceilingType.isInteger) (hlimits : g.ceilingType.HasIntegerLimits)
    (hwritable : g.ceilingType.HasWritableLimits) {level : Value} (h : g.rule.Admits level) :
    (∃ v n, g.rule.ComesTo level v ∧ g.ceilingType.Takes v n ∧ ¬g.rule.Unwritable level ∧ g.ceilingOf level = .ok n) ∨
      (∀ v n, g.rule.ComesTo level v → ¬g.ceilingType.Takes v n) ∧
        (¬g.rule.Unwritable level ∧ (∃ r value, g.ceilingOf level = .error (.refused r value)) ∨
          g.rule.Unwritable level ∧ g.ceilingOf level = .error .unwritable) := by
  unfold ceilingOf
  have hevaluated := CeilingRule.evaluated h (.exactly g.ceilingType)
  generalize g.rule.evaluate level (.exactly g.ceilingType) = outcome at hevaluated ⊢
  cases hevaluated with
  | stored v hv hshort =>
      rw [StorageType.store_of_isInteger hinteger rfl]
      rcases StorageType.takes_or_refused hlimits v with ⟨n, hn⟩ | ⟨-, r, hr⟩ | ⟨⟨q, -, -, hpast⟩, -⟩
      · rw [StorageType.integer_of_takes hlimits hn]
        exact .inl ⟨v, n, hv, hn, hshort, rfl⟩
      · rw [hr]
        refine .inr ⟨fun w n hw hn => ?_, .inl ⟨hshort, r, _, rfl⟩⟩
        obtain rfl := hv.unique hw
        cases hr.symm.trans (StorageType.integer_of_takes hlimits hn)
      · exact absurd hpast (hwritable.not_pastUnwritable _)
  | refused r value hnone hshort => exact .inr ⟨fun v n hv => absurd hv (hnone v), .inl ⟨hshort, r, value, rfl⟩⟩
  | unwritable hnone hunwritable => exact .inr ⟨fun v n hv => absurd hv (hnone v), .inr ⟨hunwritable, rfl⟩⟩

/-- The level gauge after commands that are obeyed in turn. -/
def afterCommands (g : LevelGauge) (commands : List Command) : LevelGauge :=
  commands.foldl (fun g command => (g.obey command).after) g

/-- Nothing but the gauge has changed, and that can still be compared with the integers. -/
structure Keeps (g h : LevelGauge) : Prop where
  rule : h.rule = g.rule
  ceilingType : h.ceilingType = g.ceilingType
  ordered : h.gauge.Ordered

theorem keeps_obey (hg : g.gauge.Ordered) (command : Command) : g.Keeps (g.obey command).after := by
  have hsame : g.Keeps g := ⟨rfl, rfl, hg⟩
  cases command with
  | reach level =>
      change g.Keeps (g.reach level).after
      cases hceiling : g.ceilingOf level with
      | error f => rwa [reach_of_error hceiling]
      | ok n =>
          have hstep := hg.step .setCeiling (.int n)
          rw [Gauge.Action.step, Gauge.run_map] at hstep
          rw [reach_of_ok hceiling]
          exact ⟨rfl, rfl, hstep⟩
  | ceilingOf level => exact hsame
  | change a amount => exact ⟨rfl, rfl, hg.step a amount⟩
  | quote => exact hsame
  | save => exact hsame

/-- Commands with amounts of any kind keep a level gauge one whose gauge can be compared with the integers. -/
theorem keeps_afterCommands (hg : g.gauge.Ordered) (commands : List Command) : g.Keeps (g.afterCommands commands) := by
  unfold afterCommands
  induction commands generalizing g with
  | nil => exact ⟨rfl, rfl, hg⟩
  | cons command commands ih =>
      have hfirst := keeps_obey hg command
      have hmore := ih hfirst.ordered
      exact ⟨hmore.rule.trans hfirst.rule, hmore.ceilingType.trans hfirst.ceilingType, hmore.ordered⟩

/-- The level is reached with the ceiling `n`: the counter is the lesser of the old one and `n`, and nothing else has
changed. -/
def ReachedWith (g : LevelGauge) (level : Value) (n : Int) : Prop :=
  (g.reach level).result = .ok () ∧ ∃ current, Gauge.lesser g.gauge.current (.int n) = .ok current ∧
    (g.reach level).after = { g with gauge := ⟨current, .int n⟩ }

/-- The level is refused, and nothing has changed. -/
def Refused (g : LevelGauge) (level : Value) : Prop :=
  (∃ reason value, (g.reach level).result = .error (.refused reason value)) ∧ (g.reach level).after = g

/-- The level can neither be reached nor refused, since the refusal cannot be put into words, and nothing has changed. -/
def Unworded (g : LevelGauge) (level : Value) : Prop :=
  (g.reach level).result = .error .unwritable ∧ (g.reach level).after = g

/-- A level with a ceiling that is not negative is reached. -/
theorem reachedWith_of_nonneg (hg : g.gauge.Ordered) {level : Value} {n : Int} (hn : 0 ≤ n)
    (h : g.ceilingOf level = .ok n) : g.ReachedWith level n := by
  obtain ⟨current, hlesser, hrun⟩ := hg.run_setCeiling hn
  unfold ReachedWith
  rw [reach_of_ok h, onGauge, hrun]
  exact ⟨rfl, current, hlesser, rfl⟩

section Unsigned

variable {bits : Nat}

theorem value_of_takes {v : Double} {n : Int} (h : (StorageType.unsigned bits).Takes v n) :
    ∃ r : ℚ, v.toRat? = some r ∧ 0 ≤ r ∧ n = towardZero r ∧ 0 ≤ n ∧ n ≤ (Nat.pow 2 bits : Nat) - 1 := by
  obtain ⟨r, hr, hn, hsign⟩ := h.truncated
  exact ⟨r, hr, hsign rfl, hn, StorageType.holds_unsigned_iff.mp h.holds⟩

/-- Whatever a lawful machine comes to at a level, it refuses a value, if the level can be written, or the gauge takes the
ceiling. -/
theorem setCeiling_of_machine (hwritable : (StorageType.unsigned bits).HasWritableLimits) {m : Machine} (hm : m.Lawful)
    (f : Formula) (level : Value) {gauge : Gauge} (hgauge : gauge.Ordered) :
    (∃ reason value, m.evaluate f level (.exactly (.unsigned bits)) = .error (.fault (.refused reason value))) ∨
      (level.isWritable = false ∧ m.evaluate f level (.exactly (.unsigned bits)) = .error (.fault .unwritable)) ∨
      ∃ n : Int, m.evaluate f level (.exactly (.unsigned bits)) = .ok (.int n) ∧
        ∃ current, (Gauge.setCeiling (.int n)).run.run gauge = (.ok (), ⟨current, .int n⟩) := by
  have houtput : (TypeRequest.exactly (.unsigned bits)).resolve? = some (.unsigned bits) := rfl
  obtain ⟨outcome, hsettles, heval⟩ :=
    Machine.evaluate_settles hm (StorageType.hasIntegerLimits_unsigned bits) hwritable houtput f level
  rw [heval]
  rcases hsettles with (⟨number, rfl, hstores⟩ | ⟨reason, value, rfl⟩) | ⟨hlong, rfl⟩
  · obtain ⟨n, rfl, hholds⟩ := hstores
    obtain ⟨current, -, hrun⟩ := hgauge.run_setCeiling (StorageType.holds_unsigned_iff.mp hholds).1
    exact .inr (.inr ⟨n, rfl, current, hrun⟩)
  · exact .inl ⟨reason, value, rfl⟩
  · exact .inr (.inl ⟨hlong, rfl⟩)

end Unsigned

/-- The gauge never refuses an unsigned ceiling. After any commands with any amounts, a level is reached with the
double of the rule without its fraction, an integer of the type, or it is refused, since there is no double that the
type takes. Only where the rule has too many digits to quote the refusal cannot be put into words. On a lawful machine
no trap comes between either. -/
theorem reach_unsigned {rule : CeilingRule} {gauge : Gauge} {g : LevelGauge} {current ceiling : Value} {bits : Nat}
    (hwritable : (StorageType.unsigned bits).HasWritableLimits)
    (hgauge : Gauge.ofParts current ceiling = .ok gauge) (hg : ofParts rule gauge (.exactly (.unsigned bits)) = .ok g)
    (commands : List Command) {level : Value} (hlevel : rule.Admits level) :
    ((¬rule.Unwritable level ∧ ∃ v r, rule.ComesTo level v ∧ v.toRat? = some r ∧ 0 ≤ r ∧ 0 ≤ towardZero r ∧
          towardZero r ≤ (Nat.pow 2 bits : Nat) - 1 ∧ (g.afterCommands commands).ReachedWith level (towardZero r)) ∨
        (¬rule.Unwritable level ∧ (g.afterCommands commands).Refused level ∧
          ∀ v n, rule.ComesTo level v → ¬(StorageType.unsigned bits).Takes v n) ∨
        rule.Unwritable level ∧ (g.afterCommands commands).Unworded level) ∧
      ∀ f, rule = .formula f → ∀ m : Machine, m.Lawful →
        (∃ reason value, m.evaluate f level (.exactly (.unsigned bits)) = .error (.fault (.refused reason value))) ∨
          (level.isWritable = false ∧ m.evaluate f level (.exactly (.unsigned bits)) = .error (.fault .unwritable)) ∨
          ∃ n : Int, m.evaluate f level (.exactly (.unsigned bits)) = .ok (.int n) ∧
            ∃ c, (Gauge.setCeiling (.int n)).run.run (g.afterCommands commands).gauge = (.ok (), ⟨c, .int n⟩) := by
  obtain ⟨t, ht, hinteger, rfl⟩ := ofParts_eq_ok_iff.mp hg
  obtain rfl : StorageType.unsigned bits = t := Except.ok.inj ht
  have hkeeps := keeps_afterCommands (g := ⟨rule, gauge, .unsigned bits⟩) (Gauge.ordered_of_ofParts hgauge) commands
  generalize afterCommands ⟨rule, gauge, .unsigned bits⟩ commands = h at hkeeps ⊢
  obtain ⟨hrule, htype, hordered⟩ := hkeeps
  dsimp only at hrule htype
  refine ⟨?_, fun f _ m hm => setCeiling_of_machine hwritable hm f level hordered⟩
  have hlimits : h.ceilingType.HasIntegerLimits := by
    rw [htype]
    exact StorageType.hasIntegerLimits_unsigned bits
  rw [← hrule] at hlevel ⊢
  rw [← htype] at hinteger hwritable
  rcases ceilingOf_cases hinteger hlimits hwritable hlevel with
    ⟨v, n, hv, htakes, hshort, hceiling⟩ | ⟨hnone, ⟨hshort, reason, value, hceiling⟩ | ⟨hlong, hceiling⟩⟩
  · rw [htype] at htakes
    obtain ⟨r, hr, hsign, rfl, hn, hle⟩ := value_of_takes htakes
    exact .inl ⟨hshort, v, r, hv, hr, hsign, hn, hle, reachedWith_of_nonneg hordered hn hceiling⟩
  · rw [htype] at hnone
    refine .inr (.inl ⟨hshort, ?_, hnone⟩)
    unfold Refused
    rw [reach_of_error hceiling]
    exact ⟨⟨reason, value, rfl⟩, rfl⟩
  · refine .inr (.inr ⟨hlong, ?_⟩)
    unfold Unworded
    rw [reach_of_error hceiling]
    exact ⟨rfl, rfl⟩

/-- One divided by the level, in a byte. -/
def reciprocalGauge : LevelGauge := ⟨.formula Machine.reciprocal, ⟨.double 1, .fraction (5 / 2)⟩, .u8⟩

/-- An amount that is refused, and one that is no integer. -/
def additions : List Command := [.change .add (.decimal (.nan false true 0)), .change .add (.fraction (1 / 3))]

/-- After the additions the level 1/4 has the ceiling 4, also on the standard machine. The level -2 is refused, although
its double is 0 without the fraction. -/
theorem reach_unsigned_reciprocal :
    (StorageType.unsigned 8).HasWritableLimits ∧
      Gauge.ofParts (.double 1) (.fraction (5 / 2)) = .ok reciprocalGauge.gauge ∧
      ofParts (.formula Machine.reciprocal) reciprocalGauge.gauge (.exactly (.unsigned 8)) = .ok reciprocalGauge ∧
      (reciprocalGauge.afterCommands additions).ReachedWith (.fraction (1 / 4)) 4 ∧
      Machine.standard.Lawful ∧
      Machine.standard.evaluate Machine.reciprocal (.fraction (1 / 4)) (.exactly (.unsigned 8)) = .ok (.int 4) ∧
      (∃ c, (Gauge.setCeiling (.int 4)).run.run (reciprocalGauge.afterCommands additions).gauge =
        (.ok (), ⟨c, .int 4⟩)) ∧
      (reciprocalGauge.afterCommands [.reach (.fraction (1 / 4))]).Refused (.int (-2)) := by
  have hgauge : Gauge.ofParts (.double 1) (.fraction (5 / 2)) = .ok reciprocalGauge.gauge := by decide +kernel
  have hg : ofParts (.formula Machine.reciprocal) reciprocalGauge.gauge (.exactly (.unsigned 8)) =
      .ok reciprocalGauge := rfl
  have hadmits (level : Value) : (CeilingRule.formula Machine.reciprocal).Admits level := trivial
  have hcomes {level : Value} {x : Double} (h : level.toDouble none = .ok x) :
      (CeilingRule.formula Machine.reciprocal).ComesTo level (1 / x) := .formula h
  have hwritable : (StorageType.unsigned 8).HasWritableLimits :=
    StorageType.hasWritableLimits_named (t := .u8) List.mem_cons_self
  have heval : Machine.standard.evaluate Machine.reciprocal (.fraction (1 / 4)) (.exactly (.unsigned 8)) =
      .ok (.int 4) := by
    decide +kernel
  obtain ⟨hquarter, hmachine⟩ := reach_unsigned hwritable hgauge hg additions (hadmits (.fraction (1 / 4)))
  refine ⟨hwritable, hgauge, hg, ?_, Machine.lawful_standard, heval, ?_, ?_⟩
  · have hlevel : (Value.fraction (1 / 4)).toDouble none = .ok (.ofRat (1 / 4)) := by decide +kernel
    have hfour : (1 / Double.ofRat (1 / 4)).toRat? = some ((4 : Int) : ℚ) := by decide +kernel
    rcases hquarter with ⟨-, v, r, hv, hr, -, -, -, hreached⟩ | ⟨-, -, hnone⟩ | ⟨⟨hlacks, hlong⟩, -⟩
    · obtain rfl := (hcomes hlevel).unique hv
      obtain rfl := Option.some.inj (hfour.symm.trans hr)
      rwa [towardZero_intCast] at hreached
    · refine absurd ?_ (hnone _ 4 (hcomes hlevel))
      exact (StorageType.takes_iff_of_intCast hfour 4).mpr ⟨rfl, StorageType.holds_unsigned_iff.mpr (by decide)⟩
    · exact absurd hlong (by decide +kernel)
  · rcases hmachine Machine.reciprocal rfl _ Machine.lawful_standard with
      ⟨reason, value, herror⟩ | ⟨-, herror⟩ | ⟨n, hn, htaken⟩
    · cases heval.symm.trans herror
    · cases heval.symm.trans herror
    · cases heval.symm.trans hn
      exact htaken
  · have hlevel : (Value.int (-2)).toDouble none = .ok (.ofRat (-2)) := by decide +kernel
    have hhalf : (1 / Double.ofRat (-2)).toRat? = some (-1 / 2) := by decide +kernel
    rcases (reach_unsigned hwritable hgauge hg [.reach (.fraction (1 / 4))] (hadmits (.int (-2)))).1 with
      ⟨-, v, r, hv, hr, hsign, -⟩ | ⟨-, hrefused, -⟩ | ⟨⟨hlacks, hlong⟩, -⟩
    · obtain rfl := (hcomes hlevel).unique hv
      obtain rfl := Option.some.inj (hhalf.symm.trans hr)
      exact absurd hsign (by norm_num)
    · exact hrefused
    · exact absurd hlong (by decide +kernel)

/-- A table with a value that has one digit too many to be written. -/
def longTable : LevelTable := ⟨⟨[(.int 1, .int Value.leastUnwritable)]⟩⟩

/-- Not every level is reached or refused: a value of a table may have too many digits to be quoted. -/
theorem longTable_not_refused :
    ¬∀ (rule : CeilingRule) (gauge : Gauge) (g : LevelGauge) (c m : Int) (level : Value), ∀ bits ∈ [8, 16, 32, 64],
      Gauge.ofParts (.int c) (.int m) = .ok gauge → ofParts rule gauge (.exactly (.unsigned bits)) = .ok g →
        rule.Admits level → (∃ n, g.ReachedWith level n) ∨ g.Refused level := by
  intro h
  have hresult : (reach ⟨.table longTable, .ofInts 1 10, .u8⟩ (.int 1)).result = .error .unwritable := by
    decide +kernel
  rcases h (.table longTable) (.ofInts 1 10) ⟨.table longTable, .ofInts 1 10, .u8⟩ 1 10 (.int 1) 8
    List.mem_cons_self (Gauge.ofParts_int 1 10) rfl rfl with ⟨n, hreached, -⟩ | ⟨⟨reason, value, hrefused⟩, -⟩
  · cases hresult.symm.trans hreached
  · cases hresult.symm.trans hrefused

end LevelGauge
end Progression
