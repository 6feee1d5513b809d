import Progression.Formula.Reading
import Progression.Formula.SyntaxError
import Progression.Double.Decimal

/-! # The grammar of formulas

    expression  := "(" number ")" | "(" unknown ")"
                 | "(" space? operand space? operator space? operand space? ")"
    operand     := number | unknown | expression

The alternatives are tried in a fixed order and the first that matches wins: the number, the unknown,
and then for each operator the shapes of the two operands. Results are remembered by place, so that a
place is read only once. What was expected at the furthest place that was reached is kept for the error
message. -/

namespace Progression.Recognizer

/-- A place in a text and the text from there on. -/
structure Cursor where
  offset : Nat
  rest : List Char
  deriving DecidableEq

namespace Cursor

def start (text : List Char) : Cursor := ⟨0, text⟩

def advance (c : Cursor) (n : Nat) : Cursor := ⟨c.offset + n, c.rest.drop n⟩

def skipSpaces (c : Cursor) : Cursor := c.advance (c.rest.takeWhile TokenKind.isSpace).length

end Cursor

/-- A reading and the place behind it. -/
abbrev Match := Reading × Cursor

/-- What is known during a run: the results by place, and the kinds of tokens that were looked for in
vain at the furthest place. -/
structure Trace where
  results : List (Nat × Option Match)
  furthest : Nat
  expected : List TokenKind

def Trace.start : Trace := ⟨[], 0, []⟩

/-- Records that a kind of token was not found at a place. -/
def Trace.miss (s : Trace) (kind : TokenKind) (offset : Nat) : Trace :=
  if s.furthest < offset then { s with furthest := offset, expected := [kind] }
  else if offset = s.furthest then { s with expected := s.expected.insert kind }
  else s

abbrev Run := StateT Trace (Except SyntaxError)

/-- Hands on what was found, and records a miss if nothing was. -/
def attempt {α : Type} (kind : TokenKind) (c : Cursor) (found : Option α) : Run (Option α) := do
  if found.isNone then modify (·.miss kind c.offset)
  return found

/-- The place behind a token. -/
def token (kind : TokenKind) (c : Cursor) : Run (Option Cursor) :=
  attempt kind c ((kind.lexeme? c.rest).map fun lexeme => c.advance lexeme.length)

/-- A number literal and the place behind it. One that reads as an infinity ends the run. -/
def number (c : Cursor) : Run (Option Match) := do
  match ← attempt .number c (Text.Literal.scan? c.rest) with
  | none => return none
  | some (literal, _) =>
    if literal.toDouble.isInfinite then throw ⟨.outOfRange literal.spelling, c.offset⟩
    else return some (.plain .number (.double literal.toDouble), c.advance literal.spelling.length)

/-- An operand of a shape, and the place behind it. -/
def operand (expression : Cursor → Run (Option Match)) (c : Cursor) : Shape → Run (Option Match)
  | .number => number c
  | .unknown => do return (← token .unknown c).map fun next => (.plain .unknown .null, next)
  | .subexpression => do return (← expression c).map fun found => (.nested .subexpression found.1, found.2)

/-- The first result of a list of alternatives. -/
def firstOf {α : Type} : List (Run (Option α)) → Run (Option α)
  | [] => return none
  | alternative :: more => do
    match ← alternative with
    | some found => return some found
    | none => firstOf more

/-- The closing bracket behind a reading. -/
def closed (reading : Reading) (c : Cursor) : Run (Option Match) := do
  return (← token .bracketClose c).map fun next => (reading, next)

/-- A leaf directly between its brackets; `c` is behind the opening one. -/
def bare (expression : Cursor → Run (Option Match)) (c : Cursor) (shape : Shape) : Run (Option Match) := do
  match ← operand expression c shape with
  | none => return none
  | some (reading, next) => closed reading next

/-- An application; `c` is behind the opening bracket. -/
def application (expression : Cursor → Run (Option Match)) (c : Cursor) (op : Operator)
    (leftShape rightShape : Shape) : Run (Option Match) := do
  let some (left, afterLeft) ← operand expression c.skipSpaces leftShape | return none
  let some afterOperator ← token op.token afterLeft.skipSpaces | return none
  let some (right, afterRight) ← operand expression afterOperator.skipSpaces rightShape | return none
  closed (.application op left right) afterRight.skipSpaces

/-- The pairs of operand shapes in the order in which they are tried. -/
def shapePairs : List (Shape × Shape) :=
  Shape.all.flatMap fun left => Shape.all.map fun right => (left, right)

/-- All ways to go on behind an opening bracket. -/
def alternatives (expression : Cursor → Run (Option Match)) (c : Cursor) : List (Run (Option Match)) :=
  [bare expression c .number, bare expression c .unknown] ++
    Operator.all.flatMap fun op =>
      shapePairs.map fun shapes => application expression c op shapes.1 shapes.2

/-- What is done when an expression is wanted at a place: it is told how many brackets may still be
opened, the place, and how to find out. -/
abbrev Memory := Nat → Cursor → Run (Option Match) → Run (Option Match)

/-- Finds out every time. -/
def forgetful : Memory := fun _ _ run => run

/-- The remembered result of a place, or else the result of `run`, which is then remembered. -/
def remembering : Memory := fun _ c run => do
  match (← get).results.lookup c.offset with
  | some result => return result
  | none =>
    let result ← run
    modify fun s => { s with results := (c.offset, result) :: s.results }
    return result

/-- An opening bracket, and what may stand behind it. -/
def bracketed (c : Cursor) (inside : Cursor → Run (Option Match)) : Run (Option Match) := do
  match ← token .bracketOpen c with
  | none => return none
  | some next => inside next

/-- An expression at a place, where as many brackets as the number says may still be opened. -/
def expression (memory : Memory) (limit : Nat) : Nat → Cursor → Run (Option Match)
  | 0, c => memory 0 c (bracketed c fun _ => throw ⟨.tooDeep limit, c.offset⟩)
  | allowance + 1, c =>
    memory (allowance + 1) c
      (bracketed c fun next => firstOf (alternatives (expression memory limit allowance) next))

/-- The reading of a whole text. -/
def reading (memory : Memory) (limit : Nat) (text : List Char) : Except SyntaxError Reading := do
  match ← (expression memory limit limit (.start text)).run .start with
  | (none, s) => throw ⟨.expected s.expected, s.furthest⟩
  | (some (found, c), _) =>
    if c.rest.isEmpty then return found else throw ⟨.trailing, c.offset⟩

end Progression.Recognizer
