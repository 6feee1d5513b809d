import Progression.Formula.Parse

/-! # Interactive sessions

A session keeps a current formula. A line that begins with a bracket is a new formula, any other line a
value at which the current formula is evaluated; blank lines are passed over. What is wrong with a line
is printed and leaves the current formula as it was. A session ends with its input, unless a fault
arises that is not the line's. -/

namespace Progression.Session

/-- The formula of a new session. -/
def start : Formula := .unknown

def prompt : String := "> "

/-- What a line leads to: the formula that is current afterwards, and what is printed. -/
structure Answer where
  current : Formula
  printed : String
  deriving DecidableEq

/-- Makes a line the current formula. -/
def enterFormula (current : Formula) (line : List Char) : Except Fault Answer :=
  match Formula.parse line Formula.defaultLimit with
  | .ok f => .ok ⟨f, "formula: " ++ f.toText ++ "\n"⟩
  | .error (.syntaxError text e) => .ok ⟨current, (Fault.syntaxError text e).message ++ "\n"⟩
  | .error fault => .error fault

/-- Evaluates the current formula at the number that a line writes. -/
def evaluateAt (current : Formula) (line : List Char) : Except Fault Answer :=
  match Double.read? line with
  | none =>
    let got := String.ofList (Text.quoted line)
    .ok ⟨current, "Enter a formula like (x ^ 2) or a value for x, got " ++ got ++ "\n"⟩
  | some v =>
    match current.evaluate (.double v) (.builtin .double) none with
    | .ok result => .ok ⟨current, (Value.number result).display ++ "\n"⟩
    | .error (.refused refusal value) => .ok ⟨current, (Fault.refused refusal value).message ++ "\n"⟩
    | .error fault => .error fault

/-- Answers a line. -/
def answer (current : Formula) (line : String) : Except Fault Answer :=
  match Text.strip line.toList with
  | [] => .ok ⟨current, ""⟩
  | '(' :: rest => enterFormula current ('(' :: rest)
  | line => evaluateAt current line

/-- All that a session prints, and the fault that ended it if it was not the end of the input. -/
structure Transcript where
  printed : List String
  fault : Option Fault
  deriving DecidableEq

/-- The session on some lines: each is answered behind a prompt, and the last prompt finds no more. -/
def transcript (current : Formula) : List String → Transcript
  | [] => ⟨[prompt], none⟩
  | line :: more =>
    match answer current line with
    | .error fault => ⟨[prompt], some fault⟩
    | .ok answer =>
      let later := transcript answer.current more
      { later with printed := (prompt ++ answer.printed) :: later.printed }

end Progression.Session
