import Progression.Double.Fixed
import Progression.Formula.Parse

/-! # Random formulas

Formula texts are made from a stream of draws, each a natural number below `drawBound`. They exercise
what the grammar allows: spaces of all kinds, bare and bracketed leaves, and numbers in four forms. -/

namespace Progression.Generator

/-- One more than the largest draw. -/
def drawBound : Nat := 1000003

/-- A computation that takes draws from a stream; its state is the number of draws taken. -/
abbrev Draw := ReaderT (Nat → Nat) (StateM Nat)

/-- The next draw. -/
def next : Draw Nat := do
  let stream ← read
  let taken ← get
  set (taken + 1)
  return stream taken

/-- A draw as a fraction of the bound. -/
def fraction : Draw Double := do return .ofRat (mkRat (← next) drawBound)

/-- An integer between two bounds, both included. -/
def integer (lo hi : Int) : Draw Int := do return lo + (← next) % (hi - lo + 1)

/-- A double from `lo` up to `hi`. -/
def uniform (lo hi : Int) : Draw Double := do
  return Double.ofInt lo + Double.ofInt (hi - lo) * (← fraction)

/-- One of several texts, of which `first` is the first. -/
def choose (first : List Char) (more : List (List Char)) : Draw (List Char) := do
  let texts := first :: more
  return texts.getD ((← next) % texts.length) first

/-- A number in one of four forms. All four are drawn before one is chosen. -/
def number : Draw (List Char) := do
  let whole ← integer (-100) 100
  let fixed ← uniform (-10) 10
  let scientific ← uniform 0 10
  let hundredths ← integer 0 99
  choose (Text.intDigits whole)
    [fixed.fixed 3, scientific.scientificText 2, '.' :: Text.intDigits hundredths]

/-- A number or the unknown, bare or in brackets. -/
def leaf : Draw (List Char) := do
  let bare ← number
  let bracketed ← number
  choose bare [['x'], '(' :: (bracketed ++ [')']), ['(', 'x', ')']]

/-- Some space between tokens, or none. -/
def space : Draw (List Char) := choose [] [[' '], [' ', ' '], ['\t']]

/-- One of the operators. -/
def operator : Draw Operator := do return Operator.all.getD ((← next) % Operator.all.length) .add

/-- The fraction of trees that end early. -/
def leafFraction : Double := .ofDecimal false 3 (-1)

/-- An early leaf, or an application of an operator to two subtrees. -/
def grown {m : Type → Type} [Monad m] [MonadLiftT Draw m] (subtree : m (List Char)) : m (List Char) := do
  if (← (fraction : Draw Double)).less leafFraction then (leaf : Draw (List Char))
  else
    let op ← (operator : Draw Operator)
    let left ← subtree
    let right ← subtree
    let s₁ ← (space : Draw (List Char))
    let s₂ ← (space : Draw (List Char))
    let s₃ ← (space : Draw (List Char))
    let s₄ ← (space : Draw (List Char))
    return '(' :: (s₁ ++ left ++ s₂ ++ op.symbol ++ s₃ ++ right ++ s₄ ++ [')'])

/-- The text of a formula with at most `depth` nested applications. -/
def formula : Nat → Draw (List Char)
  | 0 => leaf
  | depth + 1 => grown (formula depth)

/-- The text of a formula that only the draws end. There is none if they nest `fuel` applications. -/
def endless : Nat → OptionT Draw (List Char)
  | 0 => failure
  | fuel + 1 => grown (endless fuel)

/-- How many nested applications the draws may ask for where no depth is given. -/
def endlessFuel : Nat := 1000

/-- A generated text as a whole formula: in brackets, unless it begins with one. -/
def whole (cs : List Char) : List Char := if cs.head? = some '(' then cs else '(' :: (cs ++ [')'])

/-- The text made from a list of draws, which starts over at its end, and the number of draws taken. A
negative depth sets no limit, so there may be no text. -/
def ofDraws (depth : Int) (draws : List Nat) : Option (List Char) × Nat :=
  let made : OptionT Draw (List Char) :=
    if depth < 0 then endless endlessFuel else liftM (formula depth.toNat)
  made.run.run (fun i => draws.getD (i % draws.length) 0) |>.run 0

/-- Whether two results agree: as the same number, or in being none. -/
def agree (a b : Double) : Bool := (a.isNaN && b.isNaN) || a.same b

end Progression.Generator
