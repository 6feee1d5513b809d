import Progression.Text.Literal
import Progression.Text.Quoted

/-! # Tokens

Tokens are matched on demand, at a given place and for a given kind: a minus sign is an operator in
`(x -1)` but part of the literal in `(x - -1)`, and only the grammar knows which of them is wanted. -/

namespace Progression

inductive TokenKind where
  | number
  | unknown
  | plus
  | minus
  | star
  | slash
  | percent
  | caret
  | log
  | bracketOpen
  | bracketClose
  | space
  deriving DecidableEq

namespace TokenKind

def all : List TokenKind :=
  [number, unknown, plus, minus, star, slash, percent, caret, log, bracketOpen, bracketClose, space]

theorem mem_all (kind : TokenKind) : kind ∈ all := by cases kind <;> decide

def name : TokenKind → String
  | number => "NUMBER"
  | unknown => "VARIABLE"
  | plus => "PLUS"
  | minus => "MINUS"
  | star => "STAR"
  | slash => "SLASH"
  | percent => "PERCENT"
  | caret => "CARET"
  | log => "LOG"
  | bracketOpen => "BRACKET_OPEN"
  | bracketClose => "BRACKET_CLOSE"
  | space => "SPACE"

/-- The spelling of a kind that has only one. -/
def spelling? : TokenKind → Option (List Char)
  | number => none
  | unknown => some ['x']
  | plus => some ['+']
  | minus => some ['-']
  | star => some ['*']
  | slash => some ['/']
  | percent => some ['%']
  | caret => some ['^']
  | log => some ['l', 'o', 'g']
  | bracketOpen => some ['(']
  | bracketClose => some [')']
  | space => none

/-- The blanks that may stand between tokens. -/
def isSpace (c : Char) : Bool := c == ' ' || c == '\t'

/-- The token of the kind that a text begins with. -/
def lexeme? (kind : TokenKind) (cs : List Char) : Option (List Char) :=
  match kind.spelling? with
  | some spelling => if spelling.isPrefixOf cs then some spelling else none
  | none =>
    if kind = number then (Text.Literal.scan? cs).map (·.1.spelling)
    else if (cs.takeWhile isSpace).isEmpty then none
    else some (cs.takeWhile isSpace)

/-- How error messages name the kind. -/
def description (kind : TokenKind) : List Char :=
  match kind.spelling? with
  | some spelling => Text.quoted spelling
  | none => if kind = number then "number".toList else "space".toList

/-- All kinds in the order of their descriptions. -/
def byDescription : List TokenKind :=
  [percent, bracketOpen, bracketClose, star, plus, minus, slash, caret, log, unknown, number, space]

theorem description_sorted : byDescription.Pairwise fun a b => a.description < b.description := by
  decide +kernel

theorem mem_byDescription (kind : TokenKind) : kind ∈ byDescription := by cases kind <;> decide

end TokenKind

/-- A token and the place where it stands in a text. -/
structure Token where
  kind : TokenKind
  lexeme : List Char
  position : Nat
  deriving DecidableEq

namespace Token

/-- The place behind the token. -/
def stop (t : Token) : Nat := t.position + t.lexeme.length

def display (t : Token) : String := "<" ++ t.kind.name ++ ">" ++ String.ofList t.lexeme

/-- The token of the kind that stands at a place of a text. -/
def at? (kind : TokenKind) (text : List Char) (position : Nat) : Option Token :=
  (kind.lexeme? (text.drop position)).map fun lexeme => ⟨kind, lexeme, position⟩

/-- The first place from `position` on that holds no space. -/
def skipSpaces (text : List Char) (position : Nat) : Nat :=
  match at? .space text position with
  | some token => token.stop
  | none => position

end Token
end Progression
