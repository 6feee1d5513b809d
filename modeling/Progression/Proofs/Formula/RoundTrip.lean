import Progression.Proofs.Double.Spelling
import Progression.Proofs.Formula.Acceptance

/-! # Writing and reading back

The text of a formula with finite numbers is derived by the grammar as that formula, with brackets nested as
deep as its applications. So reading it gives the formula back, and a formula that was read once is read
again from its own text under the same limit. -/

namespace Progression

namespace Formula

/-- All numbers of the formula are finite. -/
def Finite : Formula → Prop
  | literal v => v.isFinite
  | unknown => True
  | apply _ left right => left.Finite ∧ right.Finite

instance Finite.decidable : (f : Formula) → Decidable f.Finite
  | literal v => inferInstanceAs (Decidable (v.isFinite = true))
  | unknown => inferInstanceAs (Decidable True)
  | apply _ left right => @instDecidableAnd _ _ (decidable left) (decidable right)

end Formula

theorem Text.Literal.isFinite_toDouble {l : Text.Literal} (h : ¬l.toDouble.isInfinite) : l.toDouble.isFinite := by
  rw [toDouble, Double.ofDecimal_eq, Double.signed] at h ⊢
  split
  · rfl
  · rename_i hlimit
    rw [dif_neg hlimit] at h
    exact absurd rfl h

theorem Leaf.finite_formula {l : Leaf} (h : l.InRange) : l.formula.Finite := by
  cases l with
  | number n => exact Text.Literal.isFinite_toDouble h
  | unknown => trivial

theorem Phrase.finite_formula {p : Phrase} (h : p.InRange) : p.formula.Finite := by
  induction p with
  | leaf l => exact l.finite_formula h
  | bracketed l => exact l.finite_formula h
  | application a left b op c right d ihleft ihright => exact ⟨ihleft h.1, ihright h.2⟩

/-- One space. -/
def Blanks.one : Blanks := ⟨[' '], fun c hc => by rw [List.mem_singleton.mp hc]; decide⟩

namespace Formula

/-- A finite double is written as a numeral with its value. -/
theorem exists_numeral {v : Double} (hv : v.isFinite) : ∃ n : Numeral, n.literal.spelling = v.chars ∧ n.value = v := by
  obtain ⟨l, hl, hspelling, hvalue⟩ := Double.exists_literal .standard hv
  exact ⟨⟨l, hl⟩, hspelling, hvalue⟩

theorem exists_leaf {f : Formula} (hf : f.Finite) (hdepth : f.depth = 0) :
    ∃ l : Leaf, l.chars = f.operandChars ∧ l.formula = f ∧ l.InRange := by
  cases f with
  | literal v =>
      obtain ⟨n, hspelling, hvalue⟩ := exists_numeral hf
      refine ⟨.number n, hspelling, congrArg literal hvalue, ?_⟩
      rw [Leaf.InRange, hvalue]
      cases v with
      | finite negative rank => exact Bool.false_ne_true
      | infinite negative => exact nomatch hf
      | nan => exact nomatch hf
  | unknown => exact ⟨.unknown, rfl, rfl, trivial⟩
  | apply op left right => exact nomatch hdepth

/-- The text of an operand is derived with as many brackets as it has applications inside each other. -/
theorem exists_phrase {f : Formula} (hf : f.Finite) :
    ∃ p : Phrase, p.chars = f.operandChars ∧ p.formula = f ∧ p.brackets = f.depth ∧ p.InRange := by
  induction f with
  | literal v =>
      obtain ⟨l, hchars, hformula, hrange⟩ := exists_leaf hf rfl
      exact ⟨.leaf l, hchars, hformula, rfl, hrange⟩
  | unknown => exact ⟨.leaf .unknown, rfl, rfl, rfl, trivial⟩
  | apply op left right ihleft ihright =>
      obtain ⟨p, hp, hpformula, hpbrackets, hprange⟩ := ihleft hf.1
      obtain ⟨q, hq, hqformula, hqbrackets, hqrange⟩ := ihright hf.2
      refine ⟨.application .none p .one op .one q .none, ?_, ?_, ?_, hprange, hqrange⟩
      · rw [Phrase.chars, hp, hq]
        rfl
      · rw [Phrase.formula, hpformula, hqformula]
      · rw [Phrase.brackets, hpbrackets, hqbrackets, depth]

/-- The text of a whole formula is derived as an expression; around a leaf it has one pair of brackets. -/
theorem exists_expression {f : Formula} (hf : f.Finite) :
    ∃ p : Phrase, p.IsExpression ∧ p.chars = f.chars ∧ p.formula = f ∧ p.brackets = max 1 f.depth ∧ p.InRange := by
  cases f with
  | literal v =>
      obtain ⟨l, hchars, hformula, hrange⟩ := exists_leaf hf rfl
      refine ⟨.bracketed l, trivial, ?_, hformula, rfl, hrange⟩
      rw [Phrase.chars, hchars]
      rfl
  | unknown => exact ⟨.bracketed .unknown, trivial, rfl, rfl, rfl, trivial⟩
  | apply op left right =>
      obtain ⟨p, hchars, hformula, hbrackets, hrange⟩ := exists_phrase hf
      refine ⟨p, ?_, hchars, hformula, ?_, hrange⟩
      · cases p with
        | leaf l => cases hbrackets
        | bracketed l => trivial
        | application a left b op c right d => trivial
      · rw [hbrackets, depth]
        omega

theorem read_toText_of_finite {f : Formula} {limit : Int} (hf : f.Finite) (hlimit : 1 ≤ limit)
    (hdepth : (f.depth : Int) ≤ limit) : read f.toText limit = .ok f := by
  obtain ⟨p, hp, hchars, hformula, hbrackets, hrange⟩ := exists_expression hf
  rw [read_of_pos _ hlimit, parse_eq_ok_iff_phrase, toText, String.toList_ofList]
  refine ⟨p, hp, hchars, hformula, ?_, hrange⟩
  omega

/-- What was read has finite numbers only, and applications nest no deeper than the brackets of the text. -/
theorem finite_of_read {text : String} {limit : Int} {f : Formula} (h : read text limit = .ok f) :
    f.Finite ∧ f.depth ≤ nesting text.toList ∧ (nesting text.toList : Int) ≤ limit := by
  obtain ⟨p, -, hchars, rfl, hnesting, hrange⟩ := read_eq_ok_iff_phrase.mp h
  refine ⟨Phrase.finite_formula hrange, ?_, hnesting⟩
  rw [← hchars, Phrase.nesting_chars]
  exact p.depth_formula_le

/-- The text of a formula with finite numbers is read back as it, under every limit that is not below its
depth. What is read from any text is such a formula, so that its text is read under the same limit, and
computes the same. -/
theorem read_toText :
    (∀ (f : Formula) (limit : Int), f.Finite → 1 ≤ limit → (f.depth : Int) ≤ limit →
      read f.toText limit = .ok f) ∧
    ∀ (text : String) (limit : Int) (f : Formula), read text limit = .ok f →
      f.Finite ∧ f.depth ≤ nesting text.toList ∧ (nesting text.toList : Int) ≤ limit ∧
        read f.toText limit = .ok f ∧
        ∀ value output input,
          (do (← read f.toText limit).evaluate value output input) =
            (do (← read text limit).evaluate value output input) := by
  refine ⟨fun f limit => read_toText_of_finite, fun text limit f h => ?_⟩
  obtain ⟨hfinite, hdepth, hnesting⟩ := finite_of_read h
  have hlimit : 1 ≤ limit := by
    by_contra hlt
    rw [read, if_pos (by omega)] at h
    cases h
  have hread := read_toText_of_finite hfinite hlimit (by omega)
  refine ⟨hfinite, hdepth, hnesting, hread, fun value output input => ?_⟩
  rw [hread, h]

/-- Negative zero less the product of the least subnormal and the largest double. -/
def extremes : Formula :=
  .apply .sub (.literal (.zero true))
    (.apply .mul (.literal (.finite false ⟨1, by decide⟩)) (.literal (.finite false ⟨binary64.limit - 1, by decide⟩)))

theorem read_toText_extremes :
    read extremes.toText 2 = .ok extremes ∧
      ∃ f, read (String.ofList ['(', ' ', 'x', '+', 'x', ')']) 1 = .ok f ∧ read f.toText 1 = .ok f := by
  have hread : read (String.ofList ['(', ' ', 'x', '+', 'x', ')']) 1 = .ok (.apply .add .unknown .unknown) := by
    rw [read_of_pos _ (Int.le_refl 1), String.toList_ofList]
    rfl
  refine ⟨read_toText.1 extremes 2 (by decide) (by decide) (by decide), _, hread, ?_⟩
  exact (read_toText.2 _ 1 _ hread).2.2.2.1

end Formula

end Progression
