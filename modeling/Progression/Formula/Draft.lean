import Progression.Formula.Parse

/-! # Drafts

A draft is a tree that was put together by hand. Some of its leaves may be no part of a formula; the
leftmost of these is the one that is complained of. -/

namespace Progression

inductive Draft where
  | literal (v : Double)
  | unknown
  | stray (leaf : Value)
  | apply (op : Operator) (left right : Draft)
  deriving DecidableEq

namespace Draft

/-- The formula that a draft is, if it has no stray leaves. -/
def toFormula : Draft → Except Fault Formula
  | literal v => .ok (.literal v)
  | unknown => .ok .unknown
  | stray leaf => .error (Fault.stray leaf).worded
  | apply op left right => do
    let l ← left.toFormula
    let r ← right.toFormula
    return .apply op l r

/-- The text of a draft as an operand. -/
def operandText (d : Draft) : Except Fault String := do
  return String.ofList (← d.toFormula).operandChars

/-- Evaluates a draft. The value is converted before the tree is looked at. -/
def evaluate (d : Draft) (value : Value) (output : TypeRequest) (input : Option TypeRequest) :
    Except Fault Number := do
  let x ← value.toDouble input
  ((← d.toFormula).eval x).store output

end Draft
end Progression
