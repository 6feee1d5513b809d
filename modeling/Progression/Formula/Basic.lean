import Progression.Double.Layout
import Progression.Double.Power
import Progression.Formula.Token

/-! # Formulas

A formula is built from numbers and the unknown `x` by seven binary operators. Its text puts every
application in parentheses of its own, so that no precedence is needed; a formula that is a single
leaf is put in parentheses as well. -/

namespace Progression

inductive Operator where
  | add
  | sub
  | mul
  | div
  | mod
  | pow
  | log
  deriving DecidableEq

namespace Operator

/-- The operators in the order in which a parser tries them. -/
def all : List Operator := [add, sub, mul, div, mod, pow, log]

theorem mem_all (op : Operator) : op ∈ all := by cases op <;> decide

def name : Operator → String
  | add => "ADD"
  | sub => "SUB"
  | mul => "MUL"
  | div => "DIV"
  | mod => "MOD"
  | pow => "POW"
  | log => "LOG"

/-- The token that an operator is written as. -/
def token : Operator → TokenKind
  | add => .plus
  | sub => .minus
  | mul => .star
  | div => .slash
  | mod => .percent
  | pow => .caret
  | log => .log

def symbol : Operator → List Char
  | add => ['+']
  | sub => ['-']
  | mul => ['*']
  | div => ['/']
  | mod => ['%']
  | pow => ['^']
  | log => ['l', 'o', 'g']

theorem spelling_token (op : Operator) : op.token.spelling? = some op.symbol := by cases op <;> rfl

/-- The operation on doubles. `a log b` is the logarithm of `a` to the base `b`. -/
def apply : Operator → Double → Double → Double
  | add, a, b => a + b
  | sub, a, b => a - b
  | mul, a, b => a * b
  | div, a, b => a / b
  | mod, a, b => a % b
  | pow, a, b => a.pow b
  | log, a, b => a.ln / b.ln

end Operator

inductive Formula where
  | literal (v : Double)
  | unknown
  | apply (op : Operator) (left right : Formula)
  deriving DecidableEq

namespace Formula

/-- The value of a formula at `x`. -/
def eval (x : Double) : Formula → Double
  | literal v => v
  | unknown => x
  | apply op left right => op.apply (left.eval x) (right.eval x)

/-- How deep applications are nested. -/
def depth : Formula → Nat
  | literal _ => 0
  | unknown => 0
  | apply _ left right => max left.depth right.depth + 1

/-- The text of an operator between the texts of its operands. -/
def applicationChars (op : Operator) (left right : List Char) : List Char :=
  '(' :: (left ++ ' ' :: (op.symbol ++ ' ' :: (right ++ [')'])))

/-- The text of a formula as an operand. -/
def operandChars : Formula → List Char
  | literal v => v.chars
  | unknown => ['x']
  | apply op left right => applicationChars op left.operandChars right.operandChars

/-- The text of a whole formula. -/
def chars : Formula → List Char
  | apply op left right => (apply op left right).operandChars
  | leaf => '(' :: (leaf.operandChars ++ [')'])

def toText (f : Formula) : String := String.ofList f.chars

/-- Whether two formulas have the same shape and the same numbers; the two zeros are one number. -/
def same : Formula → Formula → Bool
  | literal v, literal w => v.same w
  | unknown, unknown => true
  | apply op left right, apply op' left' right' => op == op' && left.same left' && right.same right'
  | _, _ => false

/-- The form in which messages quote a formula. -/
def quoted : Formula → String
  | literal v => "Number(value=" ++ v.toText ++ ")"
  | unknown => "Variable()"
  | apply op left right =>
    "BinaryOperation(operator=" ++ op.name ++ ", left=" ++ left.quoted ++ ", right=" ++ right.quoted ++ ")"

/-- The form in which messages quote a formula as a whole. -/
def quotedWhole (f : Formula) : String := "Expression(root=" ++ f.quoted ++ ")"

end Formula
end Progression
