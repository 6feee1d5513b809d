import Progression.Conversion

/-! # Gauges

A gauge is a counter between zero and a ceiling, such as the experience gained within a level. What
does not fit is handed back, to be carried over to the next level or the one before. A step may fail
where two kinds of numbers do not mix; the gauge is then left as the step had made it so far. -/

namespace Progression

structure Gauge where
  current : Value
  ceiling : Value
  deriving DecidableEq

namespace Gauge

/-- The gauge at `current` below `ceiling`. Neither may be negative, nor `current` above `ceiling`; what
is found first is the fault. -/
def ofParts (current ceiling : Value) : Except Fault Gauge := do
  if ← current.less (.int 0) then throw (Fault.negativeGauge current ceiling).worded
  if ← ceiling.less (.int 0) then throw (Fault.negativeGauge current ceiling).worded
  if ← current.greater ceiling then throw (Fault.overfullGauge current ceiling).worded
  return ⟨current, ceiling⟩

/-- A step of a gauge: a result or a fault, and the gauge afterwards. -/
abbrev Step := ExceptT Fault (StateM Gauge)

/-- Refuses negative amounts. -/
def checkAmount (n : Value) : Except Fault Unit := do
  if ← n.less (.int 0) then throw (Fault.negativeAmount n).worded

/-- The second value if it is less than the first, and else the first. -/
def lesser (a b : Value) : Except Fault Value := do
  if ← b.less a then return b else return a

/-- Sets the counter, at most to the ceiling. -/
def setCurrent (n : Value) : Step Unit := do
  MonadExcept.ofExcept (checkAmount n)
  let g ← get
  let current ← MonadExcept.ofExcept (lesser n g.ceiling)
  set { g with current }

/-- Sets the ceiling, and lowers the counter to it if need be. -/
def setCeiling (n : Value) : Step Unit := do
  MonadExcept.ofExcept (checkAmount n)
  let g ← get
  let current ← MonadExcept.ofExcept (lesser g.current n)
  set (⟨current, n⟩ : Gauge)

/-- Adds an amount and hands back what is past the ceiling. -/
def add (n : Value) : Step Value := do
  MonadExcept.ofExcept (checkAmount n)
  let g ← get
  let added ← MonadExcept.ofExcept (Value.operate .plus g.current n)
  if ← MonadExcept.ofExcept (added.greater g.ceiling) then
    set { g with current := g.ceiling }
    MonadExcept.ofExcept (Value.operate .minus added g.ceiling)
  else
    set { g with current := added }
    return .int 0

/-- Subtracts an amount and hands back what is past zero. -/
def sub (n : Value) : Step Value := do
  MonadExcept.ofExcept (checkAmount n)
  let g ← get
  if ← MonadExcept.ofExcept (g.current.less n) then
    let rest ← MonadExcept.ofExcept (Value.operate .minus n g.current)
    set { g with current := .int 0 }
    return rest
  else
    let current ← MonadExcept.ofExcept (Value.operate .inPlace g.current n)
    set { g with current }
    return .int 0

/-- Whether two gauges have the same counter and the same ceiling. -/
def same (g h : Gauge) : Bool := g.current.same h.current && g.ceiling.same h.ceiling

/-- The form in which messages quote a gauge. -/
def quoted (g : Gauge) : Except Fault String := do
  return "Progress(" ++ (← g.current.write) ++ "/" ++ (← g.ceiling.write) ++ ")"

structure Saved where
  current : Option Value
  ceiling : Option Value
  deriving DecidableEq

def save (g : Gauge) : Saved := ⟨some g.current, some g.ceiling⟩

def restore (saved : Saved) : Except Fault Gauge :=
  match saved.current, saved.ceiling with
  | none, _ => .error (.missing "current")
  | _, none => .error (.missing "max")
  | some current, some ceiling => ofParts current ceiling

end Gauge
end Progression
