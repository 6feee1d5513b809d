import Progression.Formula.Recognizer
import Progression.Proofs.Formula.Brackets
import Progression.Proofs.Text.LongestLiteral

/-! # Phrases

A phrase is a derivation in the grammar of formulas, read as a context-free grammar:

    expression := "(" number ")" | "(" "x" ")"
                | "(" blanks operand blanks operator blanks operand blanks ")"
    operand    := number | "x" | expression

A number is any well-formed literal and blanks are any run of spaces and tabs. Nothing is said about
longest matches or about an order of the alternatives. A phrase writes a text and stands for a formula;
phrases that write the same text are equal. -/

namespace Progression

/-- A run of spaces and tabs, possibly empty. -/
@[ext] structure Blanks where
  chars : List Char
  blank : ∀ c ∈ chars, TokenKind.isSpace c

/-- A number as it is written. -/
@[ext] structure Numeral where
  literal : Text.Literal
  wellFormed : literal.WellFormed

namespace Numeral

def value (n : Numeral) : Double := n.literal.toDouble

end Numeral

/-- A number or the unknown. -/
inductive Leaf where
  | number (n : Numeral)
  | unknown

namespace Leaf

def kind : Leaf → TokenKind
  | number _ => .number
  | unknown => .unknown

def chars : Leaf → List Char
  | number n => n.literal.spelling
  | unknown => ['x']

def formula : Leaf → Formula
  | number n => .literal n.value
  | unknown => .unknown

def reading : Leaf → Reading
  | number n => .plain .number (.double n.value)
  | unknown => .plain .unknown .null

/-- The number, if it is one, is not out of range. -/
def InRange : Leaf → Prop
  | number n => ¬n.value.isInfinite
  | unknown => True

end Leaf

/-- A derivation of an operand. -/
inductive Phrase where
  | leaf (l : Leaf)
  | bracketed (l : Leaf)
  | application (a : Blanks) (left : Phrase) (b : Blanks) (op : Operator) (c : Blanks) (right : Phrase)
      (d : Blanks)

namespace Phrase

/-- Whether the phrase is an expression: it has brackets of its own. -/
def IsExpression : Phrase → Prop
  | leaf _ => False
  | _ => True

/-- The text that a phrase writes. -/
def chars : Phrase → List Char
  | leaf l => l.chars
  | bracketed l => '(' :: (l.chars ++ [')'])
  | application a left b op c right d =>
    '(' :: (a.chars ++ (left.chars ++ (b.chars ++ (op.symbol ++ (c.chars ++ (right.chars ++ (d.chars ++ [')'])))))))

/-- The tokens of a phrase with what they are written as. Blanks are tokens that may be empty. -/
def tokens : Phrase → List (TokenKind × List Char)
  | leaf l => [(l.kind, l.chars)]
  | bracketed l => [(.bracketOpen, ['(']), (l.kind, l.chars), (.bracketClose, [')'])]
  | application a left b op c right d =>
    (.bracketOpen, ['(']) :: (.space, a.chars) ::
      (left.tokens ++ (.space, b.chars) :: (op.token, op.symbol) :: (.space, c.chars) ::
        (right.tokens ++ [(.space, d.chars), (.bracketClose, [')'])]))

/-- The formula that a phrase stands for: brackets around a leaf add nothing. -/
def formula : Phrase → Formula
  | leaf l => l.formula
  | bracketed l => l.formula
  | application _ left _ op _ right _ => .apply op left.formula right.formula

/-- The reading of an operand. -/
def reading : Phrase → Reading
  | leaf l => l.reading
  | bracketed l => .nested .subexpression l.reading
  | application _ left _ op _ right _ =>
    .nested .subexpression (.application op left.reading right.reading)

/-- The reading of an expression, which is that of the operand without the mark of a subexpression. -/
def inner : Phrase → Reading
  | leaf l => l.reading
  | bracketed l => l.reading
  | application _ left _ op _ right _ => .application op left.reading right.reading

/-- How deep the brackets of a phrase are nested. -/
def brackets : Phrase → Nat
  | leaf _ => 0
  | bracketed _ => 1
  | application _ left _ _ _ right _ => max left.brackets right.brackets + 1

/-- No number of the phrase is out of range. -/
def InRange : Phrase → Prop
  | leaf l => l.InRange
  | bracketed l => l.InRange
  | application _ left _ _ _ right _ => left.InRange ∧ right.InRange

/-- Whether the phrase may stand where so many brackets may still be opened. -/
def Fits (allowance : Nat) (p : Phrase) : Prop := p.brackets ≤ allowance ∧ p.InRange

theorem fits_application {allowance : Nat} {a b c d : Blanks} {left right : Phrase} {op : Operator} :
    (application a left b op c right d).Fits (allowance + 1) ↔ left.Fits allowance ∧ right.Fits allowance := by
  rw [Fits, brackets, InRange, Nat.add_le_add_iff_right, Nat.max_le, and_and_and_comm]
  rfl

end Phrase

/-- The text that a list of tokens writes. -/
def written (tokens : List (TokenKind × List Char)) : List Char := tokens.flatMap (·.2)

/-- Some text of the grammar begins with `front` and has a token of the kind behind it. -/
def MayFollow (front : List Char) (kind : TokenKind) : Prop :=
  ∃ p : Phrase, p.IsExpression ∧ ∃ before lexeme after,
    p.tokens = before ++ (kind, lexeme) :: after ∧ written before = front

@[simp] theorem written_nil : written [] = [] := rfl

@[simp] theorem written_cons (token : TokenKind × List Char) (tokens : List (TokenKind × List Char)) :
    written (token :: tokens) = token.2 ++ written tokens := rfl

@[simp] theorem written_append (tokens tokens' : List (TokenKind × List Char)) :
    written (tokens ++ tokens') = written tokens ++ written tokens' :=
  List.flatMap_append

/-- The characters that a literal may begin with. -/
def Text.Literal.Start (c : Char) : Prop := Text.isDigit c ∨ c = '.' ∨ c = '+' ∨ c = '-'

instance (c : Char) : Decidable (Text.Literal.Start c) := inferInstanceAs (Decidable (_ ∨ _))

theorem Text.Literal.WellFormed.head_spelling {l : Text.Literal} (hl : l.WellFormed) :
    ∃ c more, l.spelling = c :: more ∧ Start c := by
  obtain ⟨c, more, hhead, hc⟩ := hl.head []
  rw [List.append_nil] at hhead
  rw [spelling, hhead]
  cases l.sign with
  | absent => exact ⟨c, more, rfl, hc.imp_right .inl⟩
  | plus => exact ⟨'+', _, rfl, .inr (.inr (.inl rfl))⟩
  | minus => exact ⟨'-', _, rfl, .inr (.inr (.inr rfl))⟩

theorem Text.Literal.WellFormed.length_spelling_pos {l : Text.Literal} (hl : l.WellFormed) :
    0 < l.spelling.length := by
  obtain ⟨c, more, hspelling, -⟩ := hl.head_spelling
  rw [hspelling]
  exact Nat.succ_pos _

theorem Operator.length_symbol_pos (op : Operator) : 0 < op.symbol.length := by
  cases op <;> decide

/-- The scanner finds nothing where no literal begins. -/
theorem Text.Literal.scan?_eq_none {cs : List Char} (h : ∀ c ∈ cs.head?, ¬Start c) : scan? cs = none := by
  cases hscan : scan? cs with
  | none => rfl
  | some found =>
      obtain ⟨l, rest⟩ := found
      obtain ⟨c, more, hspelling, hstart⟩ := (wellFormed_of_scan? hscan).head_spelling
      have happend := spelling_append_of_scan? hscan
      rw [hspelling, List.cons_append] at happend
      exact absurd hstart (h c (by rw [← happend]; rfl))

theorem Leaf.head_chars (l : Leaf) : ∃ c more, l.chars = c :: more ∧ (Text.Literal.Start c ∨ c = 'x') := by
  cases l with
  | number n =>
      obtain ⟨c, more, hspelling, hstart⟩ := n.wellFormed.head_spelling
      exact ⟨c, more, hspelling, .inl hstart⟩
  | unknown => exact ⟨'x', [], rfl, .inr rfl⟩

theorem not_isSpace_of_start {c : Char} (h : Text.Literal.Start c) : ¬TokenKind.isSpace c := by
  intro hspace
  rcases (by simpa [TokenKind.isSpace] using hspace : c = ' ' ∨ c = '\t') with rfl | rfl <;>
    exact absurd h (by decide)

/-- The text is at its end or goes on with something else than a blank. -/
def Unspaced (cs : List Char) : Prop := ∀ c ∈ cs.head?, ¬TokenKind.isSpace c

theorem Leaf.unspaced (l : Leaf) (rest : List Char) : Unspaced (l.chars ++ rest) := by
  obtain ⟨c, more, hchars, hc⟩ := l.head_chars
  intro d hd
  rw [hchars] at hd
  obtain rfl := Option.some.inj hd
  rcases hc with hc | rfl
  · exact not_isSpace_of_start hc
  · decide

namespace Phrase

theorem head_chars_of_isExpression {p : Phrase} (h : p.IsExpression) : ∃ more, p.chars = '(' :: more := by
  cases p with
  | leaf l => exact h.elim
  | bracketed l => exact ⟨_, rfl⟩
  | application a left b op c right d => exact ⟨_, rfl⟩

theorem unspaced (p : Phrase) (rest : List Char) : Unspaced (p.chars ++ rest) := by
  cases p with
  | leaf l => exact l.unspaced rest
  | bracketed l => exact fun c hc => by obtain rfl := Option.some.inj hc; decide
  | application a left b op c right d => exact fun c hc => by obtain rfl := Option.some.inj hc; decide

@[simp] theorem written_tokens (p : Phrase) : written p.tokens = p.chars := by
  induction p with
  | leaf l => simp [tokens, chars]
  | bracketed l => simp [tokens, chars]
  | application a left b op c right d ihleft ihright => simp [tokens, chars, ihleft, ihright]

@[simp] theorem toFormula_reading (p : Phrase) : p.reading.toFormula = .ok p.formula := by
  have hleaf (l : Leaf) : l.reading.toFormula = .ok l.formula := by cases l <;> rfl
  induction p with
  | leaf l => exact hleaf l
  | bracketed l => exact hleaf l
  | application a left b op c right d ihleft ihright =>
      simp only [reading, Reading.toFormula, ihleft, ihright]
      rfl

theorem reading_of_isExpression {p : Phrase} (h : p.IsExpression) : p.reading = .nested .subexpression p.inner := by
  cases p with
  | leaf l => exact h.elim
  | bracketed l => rfl
  | application a left b op c right d => rfl

theorem toFormula_inner {p : Phrase} (h : p.IsExpression) : p.inner.toFormula = .ok p.formula := by
  have hreading := p.toFormula_reading
  rwa [reading_of_isExpression h, Reading.toFormula] at hreading

theorem brackets_pos {p : Phrase} (h : p.IsExpression) : 0 < p.brackets := by
  cases p with
  | leaf l => exact h.elim
  | bracketed l => exact Nat.succ_pos 0
  | application a left b op c right d => exact Nat.succ_pos _

theorem not_fits_zero {p : Phrase} (h : p.IsExpression) : ¬p.Fits 0 := by
  intro hfits
  exact absurd hfits.1 (Nat.not_le_of_lt (brackets_pos h))

theorem depth_formula_le (p : Phrase) : p.formula.depth ≤ p.brackets := by
  have hleaf (l : Leaf) : l.formula.depth = 0 := by cases l <;> rfl
  induction p with
  | leaf l => exact Nat.le_of_eq (hleaf l)
  | bracketed l => exact Nat.le_trans (Nat.le_of_eq (hleaf l)) (Nat.zero_le 1)
  | application a left b op c right d ihleft ihright =>
      simp only [formula, Formula.depth, brackets]
      omega

end Phrase

/-! ## Counting brackets -/

theorem Blanks.unbracketed (b : Blanks) : Unbracketed b.chars := by
  intro c hc
  have hspace := b.blank c hc
  exact ⟨fun h => absurd (h ▸ hspace) (by decide), fun h => absurd (h ▸ hspace) (by decide)⟩

theorem Operator.unbracketed (op : Operator) : Unbracketed op.symbol := by
  cases op <;> simp [Unbracketed, Operator.symbol]

theorem Text.Literal.WellFormed.unbracketed {l : Text.Literal} (hl : l.WellFormed) :
    Unbracketed l.spelling := by
  intro c hc
  constructor
  · rintro rfl
    exact hl.not_mem_spelling (by decide) (by decide) hc
  · rintro rfl
    exact hl.not_mem_spelling (by decide) (by decide) hc

theorem Leaf.unbracketed (l : Leaf) : Unbracketed l.chars := by
  cases l with
  | number n => exact n.wellFormed.unbracketed
  | unknown => simp [Unbracketed, Leaf.chars]

namespace Phrase

/-- Every bracket of a phrase has its partner in it. -/
theorem unclosedFrom_chars (p : Phrase) (n : Nat) : unclosedFrom n p.chars = n := by
  induction p generalizing n with
  | leaf l => exact l.unbracketed.unclosedFrom n
  | bracketed l => simp [chars, unclosedFrom_append, l.unbracketed.unclosedFrom]
  | application a left b op c right d ihleft ihright =>
      simp [chars, unclosedFrom_append, a.unbracketed.unclosedFrom, b.unbracketed.unclosedFrom,
        c.unbracketed.unclosedFrom, d.unbracketed.unclosedFrom, op.unbracketed.unclosedFrom, ihleft, ihright]

theorem nestingFrom_chars (p : Phrase) (n : Nat) : nestingFrom n p.chars = n + p.brackets := by
  induction p generalizing n with
  | leaf l => exact l.unbracketed.nestingFrom n
  | bracketed l =>
      simp [chars, nestingFrom_append, l.unbracketed.unclosedFrom, l.unbracketed.nestingFrom, brackets,
        nestingFrom, bracketStep]
  | application a left b op c right d ihleft ihright =>
      simp only [chars, nestingFrom_open, nestingFrom_append, a.unbracketed.unclosedFrom, a.unbracketed.nestingFrom,
        b.unbracketed.unclosedFrom, b.unbracketed.nestingFrom, c.unbracketed.unclosedFrom, c.unbracketed.nestingFrom,
        d.unbracketed.unclosedFrom, d.unbracketed.nestingFrom, op.unbracketed.unclosedFrom,
        op.unbracketed.nestingFrom, unclosedFrom_chars, ihleft, ihright, brackets]
      simp only [nestingFrom, bracketStep]
      simp
      omega

theorem nesting_chars (p : Phrase) : nesting p.chars = p.brackets := by
  rw [nesting, nestingFrom_chars, Nat.zero_add]

end Phrase
end Progression
