import Progression.Proofs.Double.FixedPlaces
import Progression.Proofs.Formula.RoundTrip
import Progression.Proofs.Generator.Produced

/-! # Generated texts are formulas

Every text that a generator may produce is written by a phrase of the grammar, with at most one pair of brackets more
than it has nested applications and with finite numbers. So up to a depth of one less than the limit the text is read,
and the formula that it stands for is read back from its own text. -/

namespace Progression.Generator

theorem exists_numeral_of_writes {cs : List Char} {q : ℚ} (h : Double.Writes cs q) (hnonneg : 0 ≤ q) (hle : q ≤ 100)
    (s : Bool) : ∃ n : Numeral, n.literal.spelling = (if s then ['-'] else []) ++ cs ∧ n.value.isFinite := by
  obtain ⟨l, hl, hspelling, hvalue⟩ := h.exists_signed s
  refine ⟨⟨l, hl⟩, hspelling, ?_⟩
  rw [Numeral.value, hvalue, Double.isFinite_signed_iff, abs_of_nonneg hnonneg]
  exact Double.lt_overflowBound (hle.trans (by norm_num))

theorem writes_decimalDigits (n : Nat) : Double.Writes (Text.decimalDigits n) n := by
  have hwrites := Double.writes_whole (fun _ => Text.isDigit_of_mem_decimalDigits) (Text.decimalDigits_ne_nil n)
  rwa [Double.digitsRat, sub_add_cancel, sub_self, Text.digitsValue_decimalDigits, decimalRat_eq, zpow_zero,
    mul_one] at hwrites

/-- Digits behind a point write no more than they do in front of it. -/
theorem exists_writes_fraction (n : Nat) : ∃ q : ℚ, 0 ≤ q ∧ q ≤ n ∧ Double.Writes ('.' :: Text.decimalDigits n) q := by
  have hwrites := Double.writes_fraction (fun _ => Text.isDigit_of_mem_decimalDigits) (Text.decimalDigits_ne_nil n)
  rw [Double.digitsRat, Text.digitsValue_decimalDigits] at hwrites
  refine ⟨_, decimalRat_nonneg _ _, ?_, hwrites⟩
  rw [decimalRat_eq]
  exact mul_le_of_le_one_right (Nat.cast_nonneg n) (zpow_le_one_of_nonpos₀ (by norm_num) (by omega))

theorem exists_numeral_intDigits {n : Int} (hlo : -100 ≤ n) (hhi : n ≤ 100) :
    ∃ numeral : Numeral, numeral.literal.spelling = Text.intDigits n ∧ numeral.value.isFinite := by
  have hle : (n.natAbs : ℚ) ≤ 100 := by exact_mod_cast (by omega : n.natAbs ≤ 100)
  have hnumeral := exists_numeral_of_writes (writes_decimalDigits n.natAbs) (Nat.cast_nonneg _) hle
  cases n with
  | ofNat n => exact hnumeral false
  | negSucc n => exact hnumeral true

/-- The text of a number is a numeral in range. -/
theorem NumberText.exists_numeral {cs : List Char} (h : NumberText cs) :
    ∃ n : Numeral, n.literal.spelling = cs ∧ n.value.isFinite := by
  cases h with
  | whole lo hi => exact exists_numeral_intDigits lo hi
  | fixed hv =>
      obtain ⟨l, hl, hspelling, hfinite⟩ := Double.exists_literal_fixed 3 (by decide) (by decide) hv
      exact ⟨⟨l, hl⟩, hspelling, hfinite⟩
  | scientific hv =>
      obtain ⟨l, hl, hspelling, hfinite⟩ := Double.exists_literal_scientificText 2 (by decide) (by decide) hv
      exact ⟨⟨l, hl⟩, hspelling, hfinite⟩
  | @hundredths n lo hi =>
      obtain ⟨n, rfl⟩ := Int.eq_ofNat_of_zero_le lo
      have hle : (n : ℚ) ≤ 100 := by exact_mod_cast (by omega : n ≤ 100)
      obtain ⟨q, hnonneg, hqn, hwrites⟩ := exists_writes_fraction n
      exact exists_numeral_of_writes hwrites hnonneg (hqn.trans hle) false

theorem exists_numberLeaf {cs : List Char} (h : NumberText cs) : ∃ l : Leaf, l.chars = cs ∧ l.InRange := by
  obtain ⟨n, hspelling, hfinite⟩ := h.exists_numeral
  refine ⟨.number n, hspelling, fun hinfinite => ?_⟩
  rw [Double.eq_infinite_of_isInfinite hinfinite] at hfinite
  exact Bool.false_ne_true hfinite

theorem exists_blanks {s : List Char} (h : s ∈ spaces) : ∃ b : Blanks, b.chars = s := by
  have hall : spaces.all (·.all TokenKind.isSpace) = true := by decide
  exact ⟨⟨s, List.all_eq_true.mp (List.all_eq_true.mp hall s h)⟩, rfl⟩

/-- The phrase may stand for a text of the depth. -/
structure Bounded (depth : Nat) (p : Phrase) : Prop where
  brackets : p.brackets ≤ depth + 1
  depth : p.formula.depth ≤ depth
  inRange : p.InRange

theorem depth_leaf (l : Leaf) : l.formula.depth = 0 := by
  cases l <;> rfl

theorem bounded_leaf {depth : Nat} {l : Leaf} (h : l.InRange) : Bounded depth (.leaf l) :=
  ⟨Nat.zero_le _, (depth_leaf l).trans_le (Nat.zero_le _), h⟩

theorem bounded_bracketed {depth : Nat} {l : Leaf} (h : l.InRange) : Bounded depth (.bracketed l) :=
  ⟨Nat.le_add_left 1 depth, (depth_leaf l).trans_le (Nat.zero_le _), h⟩

theorem bounded_application {depth : Nat} {left right : Phrase} (hleft : Bounded depth left)
    (hright : Bounded depth right) (a b c d : Blanks) (op : Operator) : Bounded (depth + 1) (.application a left b op c right d) := by
  refine ⟨?_, ?_, hleft.inRange, hright.inRange⟩
  · exact Nat.succ_le_succ (Nat.max_le.mpr ⟨hleft.brackets, hright.brackets⟩)
  · have hl := hleft.depth
    have hr := hright.depth
    simp only [Phrase.formula, Formula.depth]
    omega

theorem LeafText.exists_phrase {cs : List Char} (h : LeafText cs) (depth : Nat) :
    ∃ p : Phrase, p.chars = cs ∧ Bounded depth p := by
  cases h with
  | number h =>
      obtain ⟨l, hchars, hrange⟩ := exists_numberLeaf h
      exact ⟨.leaf l, hchars, bounded_leaf hrange⟩
  | unknown => exact ⟨.leaf .unknown, rfl, bounded_leaf trivial⟩
  | bracketedNumber h =>
      obtain ⟨l, hchars, hrange⟩ := exists_numberLeaf h
      exact ⟨.bracketed l, by rw [Phrase.chars, hchars], bounded_bracketed hrange⟩
  | bracketedUnknown => exact ⟨.bracketed .unknown, rfl, bounded_bracketed trivial⟩

theorem Produces.exists_phrase {depth : Nat} {cs : List Char} (h : Produces depth cs) :
    ∃ p : Phrase, p.chars = cs ∧ Bounded depth p := by
  induction h with
  | leaf h => exact h.exists_phrase _
  | application op h₁ hleft h₂ h₃ hright h₄ ihleft ihright =>
      obtain ⟨left, rfl, hl⟩ := ihleft
      obtain ⟨right, rfl, hr⟩ := ihright
      obtain ⟨a, rfl⟩ := exists_blanks h₁
      obtain ⟨b, rfl⟩ := exists_blanks h₂
      obtain ⟨c, rfl⟩ := exists_blanks h₃
      obtain ⟨d, rfl⟩ := exists_blanks h₄
      refine ⟨.application a left b op c right d, ?_, bounded_application hl hr a b c d op⟩
      simp only [Phrase.chars, List.append_assoc]

theorem whole_of_isExpression {p : Phrase} (h : p.IsExpression) : whole p.chars = p.chars := by
  obtain ⟨more, hchars⟩ := Phrase.head_chars_of_isExpression h
  rw [whole, hchars]
  exact if_pos rfl

theorem whole_leaf (l : Leaf) : whole l.chars = (Phrase.bracketed l).chars := by
  have hhead : l.chars.head? ≠ some '(' := by
    intro hopen
    obtain ⟨c, more, hchars, hc⟩ := l.head_chars
    rw [hchars] at hopen
    obtain rfl := Option.some.inj hopen
    exact absurd hc (by decide)
  rw [whole, if_neg hhead, Phrase.chars]

/-- Brackets are put around a text that is only an operand. -/
theorem Produces.exists_expression {depth : Nat} {cs : List Char} (h : Produces depth cs) :
    ∃ p : Phrase, p.IsExpression ∧ p.chars = whole cs ∧ Bounded depth p := by
  obtain ⟨p, rfl, hp⟩ := h.exists_phrase
  by_cases hexpression : p.IsExpression
  · exact ⟨p, hexpression, (whole_of_isExpression hexpression).symm, hp⟩
  · cases p with
    | leaf l => exact ⟨.bracketed l, trivial, (whole_leaf l).symm, bounded_bracketed hp.inRange⟩
    | bracketed l => exact absurd trivial hexpression
    | application a left b op c right d => exact absurd trivial hexpression

/-- The text, made whole, is read under the default limit as a formula whose applications nest no deeper than the depth,
and what this formula writes is read as the same formula. -/
def Accepted (depth : Nat) (cs : List Char) : Prop :=
  ∃ f, Formula.ofText (String.ofList (whole cs)) = .ok f ∧ f.depth ≤ depth ∧ Formula.ofText f.toText = .ok f

theorem accepted_of_produces {depth : Nat} {cs : List Char} (hdepth : depth < Formula.defaultLimit)
    (h : Produces depth cs) : Accepted depth cs := by
  obtain ⟨p, hp, hchars, hbounded⟩ := h.exists_expression
  have hle := hbounded.depth
  have hbrackets := hbounded.brackets
  refine ⟨p.formula, ?_, hle, ?_⟩
  · refine Formula.read_eq_ok_iff_phrase.mpr ⟨p, hp, ?_, rfl, ?_, hbounded.inRange⟩
    · rw [hchars, String.toList_ofList]
    · rw [String.toList_ofList, ← hchars, Phrase.nesting_chars]
      omega
  · exact Formula.read_toText_of_finite (Phrase.finite_formula hbounded.inRange) (by decide) (by omega)

/-- Whatever is drawn, a text of a depth below the limit is accepted. So is every text that may be produced at that
depth, wherever its numbers come from. -/
theorem formula_accepted {depth : Nat} (hdepth : depth ≤ 99) :
    (∀ stream : Nat → Nat, (∀ i, stream i < drawBound) → ∀ taken,
      Accepted depth (drawn (formula depth) stream taken)) ∧
      ∀ cs, Produces depth cs → Accepted depth cs := by
  have hlimit : depth < Formula.defaultLimit := Nat.lt_succ_iff.mpr hdepth
  refine ⟨fun stream hstream taken => ?_, fun cs => accepted_of_produces hlimit⟩
  exact accepted_of_produces hlimit (always_formula depth stream hstream taken)

/-- Draws of a sum without spaces. Its left operand is rounded up to two digits in front of the point, so that the
exponent changes, and its right operand has a sign. -/
def crowded (i : Nat) : Nat :=
  match i with
  | 0 => 500000
  | 4 => 999999
  | 6 => 2
  | 14 => 125000
  | 17 => 1
  | _ => 0

theorem formula_accepted_crowded :
    (1 ≤ 99 ∧ ∀ i, crowded i < drawBound) ∧ drawn (formula 1) crowded 0 =
      ['(', '1', '.', '0', '0', 'e', '+', '0', '1', '+', '-', '7', '.', '5', '0', '0', ')'] ∧
        Accepted 1 (drawn (formula 1) crowded 0) := by
  have hdraws : ∀ i, crowded i < drawBound := by
    intro i
    unfold crowded
    split <;> decide
  exact ⟨⟨by decide, hdraws⟩, by decide +kernel, (formula_accepted (by decide)).1 crowded hdraws 0⟩

end Progression.Generator
