import Progression.Formula.Parse

/-! # Samples

A tour of the library: some formula texts, each with its tree, its text and its values. -/

namespace Progression.Samples

def texts : List String :=
  ["(6)", "(x)", "(x+1)", "(x -1)", "(x - -1)", "((x * 100) + 50)", "(x ^ 2)", "(25 log 5)",
    "((1) / (0))", "(((2 * (x ^2))-((6/ x) +(25 log 5)))%80)", "(2 +)", "(1 + 2 + 3)", "(x) "]

/-- The levels at which each formula is evaluated. -/
def levels : List Int := [0, 1, 7, 10]

/-- A value or the reason why there is none. -/
def outcome (result : Except Fault Number) : String :=
  match result with
  | .ok n => (Value.number n).display
  | .error fault => fault.message

/-- A number at the right end of a field of two. -/
def aligned (n : Int) : String :=
  let ds := Text.intDigits n
  String.ofList (List.replicate (2 - ds.length) ' ' ++ ds)

def levelLine (f : Formula) (level : Int) : String :=
  " x = " ++ aligned level ++ ": " ++ outcome (f.evaluate (.int level) (.builtin .double) none) ++
    " / u8: " ++ outcome (f.evaluate (.int level) (.exactly .u8) none) ++ "\n"

/-- What is shown of one text. -/
def sample (text : String) : String :=
  "==========\ncode: " ++ Text.quotedString text ++ "\n" ++
    match Formula.ofText text with
    | .error fault => fault.message ++ "\n"
    | .ok f =>
      "ast: " ++ f.quoted ++ "\ntext: " ++ f.toText ++ "\n" ++ String.join (levels.map (levelLine f))

/-- What is shown of all texts. -/
def tour : String := String.join (texts.map sample)

end Progression.Samples
