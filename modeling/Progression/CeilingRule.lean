import Progression.LevelTable
import Progression.Record
import Progression.Formula.Parse

/-! # Ceiling rules

A ceiling rule gives the value of every level: by a formula, by a table, or in a way of its own that a
caller supplies. Formulas and tables can be saved; a caller's own rule cannot. -/

namespace Progression

/-- A rule supplied by a caller. -/
structure CustomRule where
  kind : String
  quoted : String
  run : Value → TypeRequest → Except Fault Value

inductive CeilingRule where
  | formula (f : Formula)
  | table (t : LevelTable)
  | custom (c : CustomRule)

namespace CeilingRule

/-- The value of a level as the storage type asked for. A caller's own rule may return anything. -/
def evaluate (rule : CeilingRule) (level : Value) (output : TypeRequest) : Except Fault Value :=
  match rule with
  | formula f => (f.evaluate level output none).map .number
  | table t => (t.evaluate level output none).map .number
  | custom c => c.run level output

/-- The form in which messages quote a rule. -/
def quoted : CeilingRule → Except Fault String
  | formula f => .ok f.quotedWhole
  | table t => t.quoted
  | custom c => .ok c.quoted

/-- A saved rule has the field of a saved formula or that of a saved table. -/
structure Saved where
  formula : Option Value
  values : Option (Entries String Value)
  deriving DecidableEq

def save : CeilingRule → Except Fault Saved
  | formula f => .ok ⟨f.save.formula, none⟩
  | table t => do return ⟨none, (← t.save).values⟩
  | custom c => .error (.unsavable c.kind)

/-- A saved rule is a formula if it has the field of one, and else a table. -/
def restore (saved : Saved) : Except Fault CeilingRule :=
  if saved.formula.isSome then (Formula.restore ⟨saved.formula⟩).map formula
  else (LevelTable.restore ⟨saved.values⟩).map table

/-- What restoring a rule records. -/
def recordsOf (saved : Saved) : List Record :=
  match saved.formula with
  | some (.text text) => Record.ofReading text (Formula.ofText text)
  | _ => []

/-- Whether two rules that can be saved are the same. -/
def same : CeilingRule → CeilingRule → Bool
  | formula f, formula g => f.same g
  | table t, table u => t.same u
  | _, _ => false

end CeilingRule
end Progression
