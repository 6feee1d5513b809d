import Progression.Proofs.Formula.Runs
import Progression.Proofs.Formula.Unambiguity

/-! # Reading without alternatives

At each place of a text the next character decides how an expression can go on, so it can be read without
trying anything out. The predictive reader does so. It says what it has found, or where it is stuck and
which kinds of tokens could stand there, or which error ends the search. The recognizer, which goes
through its alternatives and keeps the furthest misses, comes to the same findings. -/

namespace Progression.Recognizer

variable {α β : Type}

/-- The kinds of tokens that an operand may begin with. -/
def operandKinds : List TokenKind := [.number, .unknown, .bracketOpen]

/-- The kinds of tokens that operators are. -/
def operatorKinds : List TokenKind := Operator.all.map Operator.token

/-- An opening bracket, and what stands behind it. -/
def readOpen (c : Cursor) (inside : Cursor → Finding α) : Finding α :=
  if c.rest.head? = some '(' then inside (c.advance 1) else .stuck c.offset [.bracketOpen]

/-- The closing bracket behind a reading. -/
def readClose (reading : Reading) (c : Cursor) : Finding Reading :=
  if c.rest.head? = some ')' then .found reading (c.advance 1) else .stuck c.offset [.bracketClose]

/-- An operator. -/
def readOperator (c : Cursor) : Finding Operator :=
  match Operator.all.find? fun op => op.symbol.isPrefixOf c.rest with
  | some op => .found op (c.advance op.symbol.length)
  | none => .stuck c.offset operatorKinds

section Expression

variable (expression : Cursor → Finding Reading)

/-- An operand, told how expressions are read. -/
def readOperand (c : Cursor) : Finding Reading :=
  match Text.Literal.scan? c.rest with
  | some (literal, _) =>
    if literal.toDouble.isInfinite then .refused ⟨.outOfRange literal.spelling, c.offset⟩
    else .found (.plain .number (.double literal.toDouble)) (c.advance literal.spelling.length)
  | none =>
    if c.rest.head? = some 'x' then .found (.plain .unknown .null) (c.advance 1)
    else if c.rest.head? = some '(' then (expression c).map (.nested .subexpression)
    else .stuck c.offset operandKinds

/-- What follows the left operand of an application. -/
def readRest (left : Reading) (c : Cursor) : Finding Reading :=
  (readOperator c.skipSpaces).bind fun op afterOperator =>
    (readOperand expression afterOperator.skipSpaces).bind fun right afterRight =>
      readClose (.application op left right) afterRight.skipSpaces

/-- Where nothing was found at the place, a closing bracket was looked for as well. -/
def Finding.orClose (place : Nat) : Finding α → Finding α
  | .stuck p kinds => if p = place then .stuck p (kinds ++ [.bracketClose]) else .stuck p kinds
  | o => o

/-- Whether a reading is that of a leaf. -/
def isPlain : Reading → Bool
  | .plain _ _ => true
  | _ => false

/-- What stands behind an opening bracket. A leaf that follows the bracket at once may be closed. -/
def readInside (c : Cursor) : Finding Reading :=
  (readOperand expression c.skipSpaces).bind fun left afterLeft =>
    if c.skipSpaces = c ∧ isPlain left then
      if afterLeft.rest.head? = some ')' then .found left (afterLeft.advance 1)
      else (readRest expression left afterLeft).orClose afterLeft.offset
    else readRest expression left afterLeft

end Expression

/-- An expression at a place, where as many brackets as the number says may still be opened. -/
def predict (limit : Nat) : Nat → Cursor → Finding Reading
  | 0, c => readOpen c fun _ => .refused ⟨.tooDeep limit, c.offset⟩
  | allowance + 1, c => readOpen c (readInside (predict limit allowance))

theorem Cursor.advance_offset (c : Cursor) (n : Nat) : (c.advance n).offset = c.offset + n := rfl

theorem Cursor.le_skipSpaces (c : Cursor) : c.offset ≤ c.skipSpaces.offset := Nat.le_add_right _ _

theorem Cursor.skipSpaces_of_unspaced {c : Cursor} (h : Unspaced c.rest) : c.skipSpaces = c := by
  obtain ⟨offset, rest⟩ := c
  cases rest with
  | nil => rfl
  | cons d rest =>
      have hspace := h d rfl
      simp [skipSpaces, advance, hspace]

theorem Cursor.skipSpaces_blanks (offset : Nat) (b : Blanks) {rest : List Char} (h : Unspaced rest) :
    skipSpaces ⟨offset, b.chars ++ rest⟩ = ⟨offset + b.chars.length, rest⟩ := by
  simp [skipSpaces, advance, b.takeWhile_append h]

theorem Cursor.head_of_skipSpaces_ne {c : Cursor} (h : c.skipSpaces ≠ c) :
    ∃ d, c.rest.head? = some d ∧ TokenKind.isSpace d = true ∧ c.offset < c.skipSpaces.offset := by
  obtain ⟨offset, rest⟩ := c
  cases rest with
  | nil => exact absurd rfl h
  | cons d rest =>
      cases hspace : TokenKind.isSpace d with
      | true => exact ⟨d, rfl, hspace, by simp [skipSpaces, advance, hspace]⟩
      | false =>
          refine absurd (skipSpaces_of_unspaced fun e he => ?_) h
          rw [← Option.some.inj he, hspace]
          exact Bool.false_ne_true

theorem exists_blanks (cs : List Char) : ∃ (b : Blanks) (rest : List Char), cs = b.chars ++ rest ∧ Unspaced rest := by
  refine ⟨⟨cs.takeWhile TokenKind.isSpace, fun c hc => List.all_eq_true.mp List.all_takeWhile c hc⟩,
    cs.dropWhile TokenKind.isSpace, List.takeWhile_append_dropWhile.symm, fun c hc => ?_⟩
  have hhead := List.head?_dropWhile_not TokenKind.isSpace cs
  rw [Option.mem_def.mp hc] at hhead
  simpa using hhead

theorem Finding.From.orClose {n : Nat} {o : Finding α} (h : o.From n) (place : Nat) : (o.orClose place).From n := by
  cases o with
  | found value next => exact h
  | refused e => exact h
  | stuck p kinds =>
      rw [Finding.orClose]
      split <;> exact h

theorem Finding.orClose_of_from {n : Nat} {o : Finding α} (h : o.From (n + 1)) : o.orClose n = o := by
  cases o with
  | found value next => rfl
  | refused e => rfl
  | stuck place kinds => exact if_neg (Nat.ne_of_gt h)

theorem Finding.bind_eq_found {o : Finding α} {f : α → Cursor → Finding β} {b : β} {d : Cursor} :
    o.bind f = .found b d ↔ ∃ a c, o = .found a c ∧ f a c = .found b d := by
  cases o with
  | found a c => exact ⟨fun h => ⟨a, c, rfl, h⟩, fun ⟨_, _, heq, h⟩ => by cases heq; exact h⟩
  | stuck place kinds => exact ⟨fun h => (nomatch h), fun ⟨_, _, heq, _⟩ => (nomatch heq)⟩
  | refused e => exact ⟨fun h => (nomatch h), fun ⟨_, _, heq, _⟩ => (nomatch heq)⟩

theorem lexeme?_of_spelling {kind : TokenKind} {spelling : List Char} (h : kind.spelling? = some spelling)
    (cs : List Char) : kind.lexeme? cs = if spelling.isPrefixOf cs then some spelling else none := by
  rw [TokenKind.lexeme?, h]

theorem isPrefixOf_singleton (c : Char) (cs : List Char) : [c].isPrefixOf cs = decide (cs.head? = some c) := by
  cases cs with
  | nil => rfl
  | cons d cs =>
      show (c == d && true) = decide (some d = some c)
      by_cases h : c = d
      · simp [h]
      · simp [h, Ne.symm h]

/-- The token of a kind that is spelled with one character only. -/
theorem lexeme?_of_singleton {kind : TokenKind} {d : Char} (h : kind.spelling? = some [d]) (cs : List Char) :
    kind.lexeme? cs = if cs.head? = some d then some [d] else none := by
  rw [lexeme?_of_spelling h, isPrefixOf_singleton]
  simp only [decide_eq_true_eq]

theorem scan?_eq_none_of_head {cs : List Char} {d : Char} (hd : ¬Text.Literal.Start d) (h : cs.head? = some d) :
    Text.Literal.scan? cs = none :=
  Text.Literal.scan?_eq_none fun c hc => by
    rw [h] at hc
    exact Option.some.inj hc ▸ hd

theorem from_readClose (reading : Reading) (c : Cursor) : (readClose reading c).From c.offset := by
  rw [readClose]
  split
  · exact Nat.le_add_right _ _
  · exact Nat.le_refl _

theorem from_readOperator (c : Cursor) : (readOperator c).From c.offset := by
  rw [readOperator]
  split
  · exact Nat.le_add_right _ _
  · exact Nat.le_refl _

section Expression

variable {expression : Cursor → Finding Reading}

theorem from_readOperand (h : ∀ c, (expression c).From c.offset) (c : Cursor) :
    (readOperand expression c).From c.offset := by
  rw [readOperand]
  split
  · split
    · trivial
    · exact Nat.le_add_right _ _
  · split
    · exact Nat.le_add_right _ _
    · split
      · exact (h c).map _
      · exact Nat.le_refl _

theorem from_readRest (h : ∀ c, (expression c).From c.offset) (left : Reading) (c : Cursor) :
    (readRest expression left c).From c.skipSpaces.offset := by
  refine (from_readOperator _).bind fun op afterOperator _ => ?_
  refine Finding.From.mono ?_ (Cursor.le_skipSpaces afterOperator)
  refine (from_readOperand h _).bind fun right afterRight _ => ?_
  exact (from_readClose _ _).mono (Cursor.le_skipSpaces afterRight)

theorem from_readInside (h : ∀ c, (expression c).From c.offset) (c : Cursor) :
    (readInside expression c).From c.offset := by
  rw [readInside]
  refine Finding.From.mono ?_ c.le_skipSpaces
  refine (from_readOperand h _).bind fun left afterLeft _ => ?_
  have hrest := (from_readRest h left afterLeft).mono afterLeft.le_skipSpaces
  split
  · split
    · exact Nat.le_succ _
    · exact hrest.orClose _
  · exact hrest

theorem lt_of_readRest (h : ∀ c, (expression c).From c.offset) {left reading : Reading} {c d : Cursor}
    (hrest : readRest expression left c = .found reading d) : c.offset < d.offset := by
  rw [readRest, Finding.bind_eq_found] at hrest
  obtain ⟨op, afterOperator, hop, hrest⟩ := hrest
  obtain ⟨right, afterRight, hright, hclose⟩ := Finding.bind_eq_found.mp hrest
  have hop' := from_readOperator c.skipSpaces
  have hright' := from_readOperand h afterOperator.skipSpaces
  rw [hop] at hop'
  rw [hright] at hright'
  have hclose' : afterRight.skipSpaces.offset < d.offset := by
    rw [readClose] at hclose
    split at hclose
    · cases hclose
      exact Nat.lt_succ_self _
    · exact nomatch hclose
  have hspaces := c.le_skipSpaces
  have hspaces' := afterOperator.le_skipSpaces
  have hspaces'' := afterRight.le_skipSpaces
  simp only [Finding.From] at hop' hright'
  omega

end Expression

end Progression.Recognizer
