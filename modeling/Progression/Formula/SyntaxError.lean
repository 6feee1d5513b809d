import Progression.Formula.Token
import Progression.Text.Excerpt

/-! # Syntax errors

A syntax error says why a text is no formula and at which place. Its message has the place, an excerpt
of the text around it, and a caret line. -/

namespace Progression

/-- Why a text is no formula. -/
inductive SyntaxError.Cause where
  | expected (kinds : List TokenKind)
  | trailing
  | outOfRange (lexeme : List Char)
  | tooDeep (limit : Nat)
  deriving DecidableEq

structure SyntaxError where
  cause : SyntaxError.Cause
  offset : Nat
  deriving DecidableEq

namespace SyntaxError

/-- Texts with a comma between them. -/
def commaSeparated (parts : List (List Char)) : List Char := [',', ' '].intercalate parts

/-- What stands at a place of the text. -/
def found (text : List Char) (offset : Nat) : List Char :=
  match text[offset]? with
  | some c => Text.quoted [c]
  | none => "end of input".toList

/-- The cause in words. -/
def Cause.chars (text : List Char) (offset : Nat) : Cause → List Char
  | expected kinds =>
    let expected := (TokenKind.byDescription.filter (kinds.contains ·)).map TokenKind.description
    "Expected ".toList ++ commaSeparated expected ++ ", found ".toList ++ found text offset
  | trailing => "Unexpected trailing input ".toList ++ Text.quoted (text.drop offset)
  | outOfRange lexeme => "Number literal ".toList ++ Text.quoted lexeme ++ " is out of range".toList
  | tooDeep limit => "Formula is nested deeper than ".toList ++ Text.decimalDigits limit ++ " levels".toList

/-- The text from the place of the error on. -/
def remainder (text : List Char) (e : SyntaxError) : List Char := text.drop e.offset

/-- The message in three lines. -/
def chars (text : List Char) (e : SyntaxError) : List Char :=
  let excerpt := Text.excerpt text e.offset Text.excerptWidth
  "[Parser error] ".toList ++ e.cause.chars text e.offset ++ " (offset ".toList ++
    Text.decimalDigits e.offset ++ [')', '\n'] ++ excerpt.window ++ '\n' :: excerpt.caret

end SyntaxError
end Progression
