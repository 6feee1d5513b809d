import Progression.Formula.Basic
import Progression.Value.Basic

/-! # Readings

A reading is what the grammar finds in a text, before the parentheses around leaves are dropped: the
operands with their shapes, and the applications. Readings can also be put together by hand, and then an
operand may hold something that its shape does not allow. -/

namespace Progression

/-- The shapes of an operand. -/
inductive Shape where
  | number
  | unknown
  | subexpression
  deriving DecidableEq

namespace Shape

def all : List Shape := [number, unknown, subexpression]

theorem mem_all (shape : Shape) : shape ∈ all := by cases shape <;> decide

def name : Shape → String
  | number => "NUMBER"
  | unknown => "VARIABLE"
  | subexpression => "SUBEXPRESSION"

end Shape

/-- An operand that holds a plain value, an operand that holds another reading, or an application. -/
inductive Reading where
  | plain (shape : Shape) (value : Value)
  | nested (shape : Shape) (inner : Reading)
  | application (op : Operator) (left right : Reading)
  deriving DecidableEq

namespace Reading

def operandText (shape : Shape) (content : String) : String :=
  "ParsedOperand(shape=" ++ shape.name ++ ", value=" ++ content ++ ")"

/-- The form in which messages quote a reading. -/
def quoted : Reading → String
  | plain shape value => operandText shape value.quoted
  | nested shape inner => operandText shape inner.quoted
  | application op left right =>
    "ParsedApplication(operator=" ++ op.name ++ ", left=" ++ left.quoted ++ ", right=" ++ right.quoted ++ ")"

/-- The values in a reading. -/
def values : Reading → List Value
  | plain _ value => [value]
  | nested _ inner => inner.values
  | application _ left right => left.values ++ right.values

/-- What an operand holds that its shape does not allow. -/
inductive Content where
  | value (v : Value)
  | reading (r : Reading)
  deriving DecidableEq

def Content.quoted : Content → String
  | value v => v.quoted
  | reading r => r.quoted

def Content.values : Content → List Value
  | value v => [v]
  | reading r => r.values

/-- What is wrong with a reading. -/
inductive Malformed where
  | number (content : Content)
  | subexpression (content : Content)
  deriving DecidableEq

def Malformed.message : Malformed → String
  | number content => "Unexpected number operand value: " ++ content.quoted
  | subexpression content => "Unexpected subexpression operand value: " ++ content.quoted

def Malformed.values : Malformed → List Value
  | number content => content.values
  | subexpression content => content.values

/-- The formula that a reading stands for. -/
def toFormula : Reading → Except Malformed Formula
  | plain .number (.number (.double v)) => .ok (.literal v)
  | plain .number value => .error (.number (.value value))
  | nested .number inner => .error (.number (.reading inner))
  | plain .unknown _ => .ok .unknown
  | nested .unknown _ => .ok .unknown
  | plain .subexpression value => .error (.subexpression (.value value))
  | nested .subexpression inner => inner.toFormula
  | application op left right => do
    let l ← left.toFormula
    let r ← right.toFormula
    return .apply op l r

end Reading
end Progression
