import Progression.Proofs.Formula.RoundTrip
import Progression.Proofs.LevelGauge.Reaching
import Progression.Proofs.LevelTable.Saving

/-! # Saving level gauges

A level gauge between integers whose rule was read from a text or lists integer levels that their texts read back as,
and whose ceilings have one of the named types, is restored from what was saved of it. From then on the two cannot be told apart: whatever is asked
of them, they answer alike and their gauges stand alike. -/

namespace Progression

/-- The text of a formula that was read under the default limit is read as it. -/
theorem Formula.ofText_toText {text : String} {f : Formula} (h : ofText text = .ok f) : ofText f.toText = .ok f := by
  obtain ⟨hfinite, hdepth, hnesting⟩ := finite_of_read h
  exact read_toText_of_finite hfinite (by decide) (by omega)

namespace CeilingRule

/-- The rule is a formula that a text writes under the default limit, or a table of integer levels, each of which is the
integer that its text is read as. -/
def Restorable : CeilingRule → Prop
  | formula f => ∃ text, Formula.ofText text = .ok f
  | table t => ∃ entries : List (Int × Value), LevelTable.ofList (entries.map fun e => (.int e.1, e.2)) = .ok t ∧
      ∀ e ∈ entries, (Value.text (Value.intText e.1)).integerPart = .ok e.1
  | custom _ => False

theorem restore_save {rule : CeilingRule} (h : rule.Restorable) :
    ∃ saved, rule.save = .ok saved ∧ restore saved = .ok rule := by
  cases rule with
  | formula f =>
      obtain ⟨text, hread⟩ := h
      refine ⟨_, rfl, ?_⟩
      show (Formula.ofText f.toText).map formula = _
      rw [Formula.ofText_toText hread]
      rfl
  | table t =>
      obtain ⟨entries, hlist, hread⟩ := h
      rw [LevelTable.ofList_int] at hlist
      obtain rfl := Except.ok.inj hlist
      have hdistinct := Entries.distinct_ofList entries
      have hshort := LevelTable.short_ofList fun e he => Value.integerPart_intText_iff.mp (hread e he)
      refine ⟨⟨none, some ((Entries.ofList entries).mapKeys Value.intText)⟩, ?_, ?_⟩
      · rw [save, LevelTable.save_ofInts hdistinct hshort]
        rfl
      · show (LevelTable.restore ⟨some ((Entries.ofList entries).mapKeys Value.intText)⟩).map table = _
        rw [LevelTable.restore_texts hdistinct hshort]
        rfl
  | custom c => exact h.elim

end CeilingRule

theorem Gauge.InRange.restore_save {g : Gauge} (h : g.InRange) : restore g.save = .ok g := by
  obtain ⟨c, m, rfl, hc, hm⟩ := h
  exact ofParts_int_eq_ok_iff.mpr ⟨hc, hm, rfl⟩

/-- A named type is found by its name. -/
theorem StorageType.ofName_name {t : StorageType} (h : t ∈ named) : ofName (.text t.name) = .ok t := by
  have hfind : ∀ t ∈ named, find? t.name = some t := by decide
  rw [ofName, hfind t h]

theorem TypeRequest.mem_named_of_resolve {request : TypeRequest} {t : StorageType}
    (h : request = .builtin .integer ∨ ∃ t ∈ StorageType.named, request = .exactly t) (ht : request.resolve = .ok t) :
    t ∈ StorageType.named := by
  rcases h with rfl | ⟨t', hnamed, rfl⟩
  · cases ht
    decide
  · cases ht
    exact hnamed

namespace LevelGauge

/-- What a caller sees of an outcome: the answer or the fault, and where the gauge stands afterwards. -/
def Outcome.seen (o : Outcome Answer) : Except Fault Answer × Gauge := (o.result, o.after.gauge)

theorem restore_save {g : LevelGauge} (hrule : g.rule.Restorable) (hgauge : g.gauge.InRange)
    (hnamed : g.ceilingType ∈ StorageType.named) (hinteger : g.ceilingType.isInteger) :
    ∃ saved, g.save = .ok saved ∧ restore saved = .ok g := by
  obtain ⟨savedRule, hsave, hrestore⟩ := CeilingRule.restore_save hrule
  refine ⟨⟨some savedRule, some g.gauge.save, some (.text g.ceilingType.name)⟩, ?_, ?_⟩
  · rw [save, hsave]
    rfl
  · have hparts : ofParts g.rule g.gauge (.exactly g.ceilingType) = .ok g :=
      ofParts_eq_ok_iff.mpr ⟨g.ceilingType, rfl, hinteger, rfl⟩
    simp only [restore, hrestore, hgauge.restore_save, Option.getD_some, StorageType.ofName_name hnamed]
    exact hparts

/-- A level gauge that was made of a rule that can be restored, a gauge between integers and a named type is saved and
restored, and no sequence of commands tells the two apart. -/
theorem restored_alike {rule : CeilingRule} {gauge : Gauge} {request : TypeRequest} {g : LevelGauge} {c m : Int}
    (hrule : rule.Restorable) (hgauge : Gauge.ofParts (.int c) (.int m) = .ok gauge)
    (hrequest : request = .builtin .integer ∨ ∃ t ∈ StorageType.named, request = .exactly t)
    (hg : ofParts rule gauge request = .ok g) :
    ∃ saved h, g.save = .ok saved ∧ restore saved = .ok h ∧
      ∀ commands, (h.outcomes commands).map Outcome.seen = (g.outcomes commands).map Outcome.seen := by
  obtain ⟨t, ht, hinteger, rfl⟩ := ofParts_eq_ok_iff.mp hg
  obtain ⟨saved, hsave, hrestore⟩ := @restore_save ⟨rule, gauge, t⟩ hrule (Gauge.inRange_of_ofParts hgauge)
    (TypeRequest.mem_named_of_resolve hrequest ht) hinteger
  exact ⟨saved, _, hsave, hrestore, fun commands => rfl⟩

/-- Twice the level. -/
def doubling : Formula := .apply .add .unknown .unknown

def doublingGauge : LevelGauge := ⟨.formula doubling, .ofInts 30 150, .int⟩

theorem restored_alike_doubling_and_byte :
    (CeilingRule.formula doubling).Restorable ∧ (CeilingRule.table twoLevels).Restorable ∧
      (∃ saved h, doublingGauge.save = .ok saved ∧ restore saved = .ok h ∧
        ∀ commands, (h.outcomes commands).map Outcome.seen = (doublingGauge.outcomes commands).map Outcome.seen) ∧
      ∃ saved h, byteGauge.save = .ok saved ∧ restore saved = .ok h ∧
        ∀ commands, (h.outcomes commands).map Outcome.seen = (byteGauge.outcomes commands).map Outcome.seen := by
  have hformula : (CeilingRule.formula doubling).Restorable :=
    ⟨String.ofList ['(', ' ', 'x', '+', 'x', ')'], by decide +kernel⟩
  have htable : (CeilingRule.table twoLevels).Restorable :=
    ⟨[(1, .int 7), (2, .int 300), (1, .int 100)], by decide +kernel, by decide +kernel⟩
  refine ⟨hformula, htable, ?_, ?_⟩
  · exact restored_alike hformula (Gauge.ofParts_int 30 150) (.inl rfl) rfl
  · exact restored_alike htable (Gauge.ofParts_int 120 150) (.inr ⟨.u8, by decide, rfl⟩) rfl

end LevelGauge
end Progression
