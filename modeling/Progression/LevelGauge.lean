import Progression.CeilingRule
import Progression.Gauge

/-! # Level gauges

A level gauge is a gauge whose ceiling follows from a level by a ceiling rule. Reaching a level sets the
ceiling to that of the level, and every step says what it recorded. -/

namespace Progression

structure LevelGauge where
  rule : CeilingRule
  gauge : Gauge
  ceilingType : StorageType

namespace LevelGauge

/-- The ceiling type if nothing else is said. -/
def defaultCeilingType : StorageType := .u64

/-- A level gauge of its parts. Ceilings are integers. -/
def ofParts (rule : CeilingRule) (gauge : Gauge) (request : TypeRequest) : Except Fault LevelGauge := do
  let ceilingType ← request.resolve
  if ceilingType.isInteger then return ⟨rule, gauge, ceilingType⟩
  else throw (.fractionalCeiling ceilingType)

/-- The ceiling of a level. -/
def ceilingOf (g : LevelGauge) (level : Value) : Except Fault Int := do
  (← g.rule.evaluate level (.exactly g.ceilingType)).integerPart

/-- What a step leads to: its result, the level gauge afterwards, and what was recorded. -/
structure Outcome (α : Type) where
  result : Except Fault α
  after : LevelGauge
  records : List Record

/-- A step of the gauge alone. -/
def onGauge {α : Type} (g : LevelGauge) (step : Gauge.Step α) : Outcome α :=
  let (result, gauge) := step.run.run g.gauge
  ⟨result, { g with gauge }, []⟩

/-- Sets the ceiling to that of a level. The change is recorded before the gauge may refuse it. -/
def reach (g : LevelGauge) (level : Value) : Outcome Unit :=
  match g.ceilingOf level with
  | .error f => ⟨.error f, g, []⟩
  | .ok n =>
    { g.onGauge (Gauge.setCeiling (.int n)) with records := [.ceiling level g.gauge.ceiling (.int n)] }

/-- The form in which messages quote a level gauge. -/
def quoted (g : LevelGauge) : Except Fault String := do
  return "Growth(" ++ (← g.rule.quoted) ++ ", " ++ (← g.gauge.quoted) ++ ")"

/-- A saved level gauge. The ceiling type is saved by its name alone. -/
structure Saved where
  rule : Option CeilingRule.Saved
  gauge : Option Gauge.Saved
  ceilingType : Option Value
  deriving DecidableEq

def save (g : LevelGauge) : Except Fault Saved := do
  let rule ← g.rule.save
  return ⟨some rule, some g.gauge.save, some (.text g.ceilingType.name)⟩

def restore (saved : Saved) : Except Fault LevelGauge := do
  let some savedRule := saved.rule | throw (.missing "evaluation")
  let rule ← CeilingRule.restore savedRule
  let some savedGauge := saved.gauge | throw (.missing "progress")
  let gauge ← Gauge.restore savedGauge
  let ceilingType ← StorageType.ofName (saved.ceilingType.getD (.text defaultCeilingType.name))
  ofParts rule gauge (.exactly ceilingType)

/-- What restoring a level gauge records. -/
def recordsOf (saved : Saved) : List Record :=
  match saved.rule with
  | some rule => CeilingRule.recordsOf rule
  | none => []

/-- What is the same in a level gauge and in its restored copy. -/
structure Comparison where
  rule : Bool
  gauge : Bool
  ceilingType : String

/-- Saves and restores a level gauge, and compares the two. -/
def saveAndRestore (g : LevelGauge) : Outcome Comparison :=
  match g.save with
  | .error f => ⟨.error f, g, []⟩
  | .ok saved =>
    let compare (h : LevelGauge) : Comparison :=
      ⟨g.rule.same h.rule, g.gauge = h.gauge, h.ceilingType.name⟩
    ⟨(restore saved).map compare, g, recordsOf saved⟩

end LevelGauge
end Progression
