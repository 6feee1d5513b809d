import Progression.Proofs.Formula.Prediction
import Progression.Proofs.Text.LiteralLanguage

/-! # Number tokens

The token of a number is the longest literal that stands at its place, and there is one wherever any literal
stands. It reads as a double. Taking the longest one takes nothing away: a shorter literal at the same place is
followed by nothing that may stand behind an operand. -/

namespace Progression

open Text (literalWords mem_literalWords_iff)
open Text.Literal (Barrier scan?)

namespace TokenKind

/-- What may stand behind an operand: blanks, an operator, or the closing bracket. -/
def behindOperand : List TokenKind := .space :: .bracketClose :: Recognizer.operatorKinds

/-- Whatever may stand behind an operand carries no literal on. -/
theorem barrier_of_behindOperand {kind : TokenKind} (hkind : kind ∈ behindOperand) {cs lexeme : List Char}
    (h : kind.lexeme? cs = some lexeme) : Barrier cs := by
  rcases List.mem_cons.mp hkind with rfl | hkind
  · cases cs with
    | nil => exact barrier_nil
    | cons c cs =>
        cases hspace : isSpace c with
        | false => simp [lexeme?, spelling?, hspace] at h
        | true =>
            rcases (by simpa [isSpace] using hspace : c = ' ' ∨ c = '\t') with rfl | rfl <;>
              exact barrier_cons (by decide)
  rcases List.mem_cons.mp hkind with rfl | hkind
  · rw [@Recognizer.lexeme?_of_singleton .bracketClose ')' rfl] at h
    split at h
    · rename_i hhead
      obtain ⟨more, rfl⟩ := List.head?_eq_some_iff.mp hhead
      exact barrier_close more
    · cases h
  · obtain ⟨op, -, rfl⟩ := List.mem_map.mp hkind
    rw [Recognizer.lexeme?_of_spelling op.spelling_token] at h
    split at h
    · rename_i hbegins
      obtain ⟨more, rfl⟩ := List.isPrefixOf_iff_prefix.mp hbegins
      exact op.barrier more
    · cases h

end TokenKind

namespace Token

/-- The token is a number that is the longest of the literals at a place of the text. -/
structure IsLongestLiteral (text : List Char) (place : Nat) (t : Token) : Prop where
  kind : t.kind = .number
  position : t.position = place
  literal : t.lexeme ∈ literalWords
  stands : t.lexeme <+: text.drop place
  longest : ∀ cs ∈ literalWords, cs <+: text.drop place → cs.length ≤ t.lexeme.length

variable {text : List Char} {place : Nat} {t t' : Token}

theorem IsLongestLiteral.unique (h : IsLongestLiteral text place t) (h' : IsLongestLiteral text place t') :
    t = t' := by
  have hle := h'.longest t.lexeme h.literal h.stands
  have hge := h.longest t'.lexeme h'.literal h'.stands
  have hlexeme : t.lexeme = t'.lexeme :=
    (List.prefix_of_prefix_length_le h.stands h'.stands hle).eq_of_length (Nat.le_antisymm hle hge)
  obtain ⟨kind, lexeme, position⟩ := t
  obtain ⟨kind', lexeme', position'⟩ := t'
  rw [Token.mk.injEq]
  exact ⟨h.kind.trans h'.kind.symm, hlexeme, h.position.trans h'.position.symm⟩

theorem at?_number (text : List Char) (place : Nat) :
    at? .number text place = (scan? (text.drop place)).map fun found => ⟨.number, found.1.spelling, place⟩ := by
  rw [at?, show TokenKind.number.lexeme? (text.drop place) = (scan? (text.drop place)).map (·.1.spelling) from rfl,
    Option.map_map]
  rfl

theorem isLongestLiteral_of_scan? {l : Text.Literal} {rest : List Char} (h : scan? (text.drop place) = some (l, rest)) :
    IsLongestLiteral text place ⟨.number, l.spelling, place⟩ where
  kind := rfl
  position := rfl
  literal := mem_literalWords_iff.mpr ⟨l, Text.Literal.wellFormed_of_scan? h, rfl⟩
  stands := ⟨rest, Text.Literal.spelling_append_of_scan? h⟩
  longest := by
    intro cs hcs hbegins
    obtain ⟨l', hl', rfl⟩ := mem_literalWords_iff.mp hcs
    exact Text.Literal.length_le_of_scan? h hl' hbegins

/-- If a literal stands at a place, so does a number. -/
theorem exists_scan?_of_prefix {cs : List Char} (hcs : cs ∈ literalWords) (hbegins : cs <+: text.drop place) :
    ∃ found, scan? (text.drop place) = some found := by
  obtain ⟨l, hl, rfl⟩ := mem_literalWords_iff.mp hcs
  obtain ⟨rest, hrest⟩ := hbegins
  obtain ⟨l', rest', hscan, -⟩ := Text.Literal.exists_scan?_append hl rest
  exact ⟨_, hrest ▸ hscan⟩

theorem at?_number_eq_none_iff :
    at? .number text place = none ↔ ∀ cs ∈ literalWords, ¬cs <+: text.drop place := by
  rw [at?_number, Option.map_eq_none_iff]
  constructor
  · intro hnone cs hcs hbegins
    obtain ⟨found, hfound⟩ := exists_scan?_of_prefix hcs hbegins
    rw [hnone] at hfound
    cases hfound
  · intro h
    cases hscan : scan? (text.drop place) with
    | none => rfl
    | some found =>
        have hlongest := isLongestLiteral_of_scan? hscan
        exact absurd hlongest.stands (h _ hlongest.literal)

theorem at?_number_eq_some_iff : at? .number text place = some t ↔ IsLongestLiteral text place t := by
  rw [at?_number, Option.map_eq_some_iff]
  constructor
  · rintro ⟨⟨l, rest⟩, hscan, rfl⟩
    exact isLongestLiteral_of_scan? hscan
  · intro h
    obtain ⟨found, hfound⟩ := exists_scan?_of_prefix h.literal h.stands
    exact ⟨found, hfound, (isLongestLiteral_of_scan? hfound).unique h⟩

/-- The text of the token reads as a double. -/
theorem IsLongestLiteral.isSome_read? (h : IsLongestLiteral text place t) : (Double.read? t.lexeme).isSome := by
  obtain ⟨l, hl, hspelling⟩ := mem_literalWords_iff.mp h.literal
  rw [← hspelling, hl.read?_spelling, Option.isSome_some]

/-- A literal that is followed by something that may stand behind an operand is the longest one. -/
theorem at?_number_of_followed {cs : List Char} (hcs : cs ∈ literalWords) (hbegins : cs <+: text.drop place)
    {kind : TokenKind} (hkind : kind ∈ TokenKind.behindOperand) (h : at? kind text (place + cs.length) = some t) :
    at? .number text place = some ⟨.number, cs, place⟩ := by
  obtain ⟨l, hl, rfl⟩ := mem_literalWords_iff.mp hcs
  obtain ⟨lexeme, hlexeme, -⟩ := Option.map_eq_some_iff.mp h
  have hscan := Text.Literal.scan?_spelling_append hl (TokenKind.barrier_of_behindOperand hkind hlexeme)
  rw [← List.drop_drop, List.prefix_iff_eq_append.mp hbegins] at hscan
  rw [at?_number, hscan, Option.map_some]

/-- At every place of every text the token of a number is the longest literal that stands there, if any does. Its text
is a numeral, and no shorter literal at the place is followed by blanks, an operator or the closing bracket. -/
theorem number_is_longest_literal (text : List Char) (place : Nat) :
    (at? .number text place = none ↔ ∀ cs ∈ literalWords, ¬cs <+: text.drop place) ∧
      (∀ t, at? .number text place = some t ↔ IsLongestLiteral text place t) ∧
      ∀ t, at? .number text place = some t →
        t.stop = place + t.lexeme.length ∧ (Double.read? t.lexeme).isSome ∧
          ∀ cs ∈ literalWords, cs <+: t.lexeme → cs ≠ t.lexeme →
            ∀ kind ∈ TokenKind.behindOperand, at? kind text (place + cs.length) = none := by
  refine ⟨at?_number_eq_none_iff, fun t => at?_number_eq_some_iff, fun t ht => ?_⟩
  have hlongest := at?_number_eq_some_iff.mp ht
  refine ⟨by rw [stop, hlongest.position], hlongest.isSome_read?, fun cs hcs hbegins hne kind hkind => ?_⟩
  cases hfollows : at? kind text (place + cs.length) with
  | none => rfl
  | some behind =>
      -- Followed so, the shorter literal would be the token.
      have hshorter := at?_number_of_followed hcs (hbegins.trans hlongest.stands) hkind hfollows
      rw [ht] at hshorter
      exact absurd (congrArg Token.lexeme (Option.some.inj hshorter)).symm hne

/-- In `(2.5e+x)` the mark `e` has no digits behind it, so the number is `2.5`. The literal `2.` is shorter, and no
operator stands behind it. -/
theorem number_is_longest_literal_without_exponent :
    at? .number "(2.5e+x)".toList 1 = some ⟨.number, "2.5".toList, 1⟩ ∧ "2.".toList ∈ literalWords ∧
      "2.".toList <+: "2.5".toList ∧ "2.".toList ≠ "2.5".toList ∧ TokenKind.plus ∈ TokenKind.behindOperand ∧
      (Double.read? "2.5".toList).isSome ∧ at? .plus "(2.5e+x)".toList 3 = none := by
  have htoken : at? .number "(2.5e+x)".toList 1 = some ⟨.number, "2.5".toList, 1⟩ := by decide
  have hdigit (c : Char) (hc : c ∈ ['2']) : Text.isDigit c := by
    obtain rfl := List.mem_singleton.mp hc
    decide
  have hliteral : "2.".toList ∈ literalWords :=
    mem_literalWords_iff.mpr ⟨⟨.absent, ['2'], some [], none⟩,
      ⟨hdigit, fun c hc => absurd hc List.not_mem_nil, .inl (by decide), fun e he => by cases he⟩, by decide⟩
  have hbegins : "2.".toList <+: "2.5".toList := by decide
  have hne : "2.".toList ≠ "2.5".toList := by decide
  have hplus : TokenKind.plus ∈ TokenKind.behindOperand := by decide
  obtain ⟨-, hread, hfollowed⟩ := (number_is_longest_literal "(2.5e+x)".toList 1).2.2 _ htoken
  exact ⟨htoken, hliteral, hbegins, hne, hplus, hread, hfollowed _ hliteral hbegins hne _ hplus⟩

end Token
end Progression
