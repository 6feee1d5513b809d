import Progression.Formula.Recognizer
import Progression.Conversion

/-! # Reading and evaluating formulas

A text is a formula if the whole of it is one expression and its brackets nest no deeper than a limit.
A formula is evaluated by converting a value to a double, computing, and converting the result. -/

namespace Progression.Formula

/-- The nesting that is allowed if nothing else is said. -/
def defaultLimit : Nat := 100

/-- The formula that a reading stands for. -/
def ofReading (r : Reading) : Except Fault Formula := r.toFormula.mapError fun m => (Fault.malformed m).worded

/-- The formula that a text writes, with brackets nested at most `limit` deep. -/
def parse (text : List Char) (limit : Nat) : Except Fault Formula := do
  let reading ← (Recognizer.reading Recognizer.remembering limit text).mapError (.syntaxError text)
  ofReading reading

/-- The formula that a string writes. The limit must be positive. -/
def read (text : String) (limit : Int) : Except Fault Formula :=
  if limit < 1 then .error (Fault.nestingLimit limit).worded else parse text.toList limit.toNat

/-- The formula that a string writes, with the default limit. -/
def ofText (text : String) : Except Fault Formula := read text defaultLimit

/-- The value of the formula at what a caller hands over, as the storage type asked for. -/
def evaluate (f : Formula) (value : Value) (output : TypeRequest) (input : Option TypeRequest) :
    Except Fault Number := do
  let x ← value.toDouble input
  (f.eval x).store output

/-- A saved formula is its text. Any value may stand in its place, but only a text can be read. -/
structure Saved where
  formula : Option Value
  deriving DecidableEq

def save (f : Formula) : Saved := ⟨some (.text f.toText)⟩

def restore (saved : Saved) : Except Fault Formula :=
  match saved.formula with
  | some (.text text) => ofText text
  | some value => .error (.notText value.kind)
  | none => .error (.missing "formula")

end Progression.Formula
