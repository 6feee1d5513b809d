import Mathlib.Computability.Language
import Progression.Double.Decimal
import Progression.Proofs.Text.IntegerNumeral

/-! # The language of number literals

The literals are the words of the regular expression `[+-]?(d+(.d*)?|.d+)([eE][+-]?d+)?`, where `d` is any
decimal digit. They are what the well-formed literals spell, and each of them is a numeral: it reads as the
number that its parts write. -/

namespace Progression.Text

/-- The runs of digits, the empty one among them. -/
def digitRuns : Language Char := {cs : List Char | ∀ c ∈ cs, isDigit c}

/-- The runs of one digit or more. -/
def digitWords : Language Char := {cs : List Char | cs ≠ [] ∧ ∀ c ∈ cs, isDigit c}

/-- A plus sign, a minus sign, or nothing. -/
def signWords : Language Char := 1 + {['+']} + {['-']}

/-- The digits of a number, with a point among them or none. -/
def mantissaWords : Language Char := digitWords * (1 + {['.']} * digitRuns) + {['.']} * digitWords

/-- The mark of an exponent and what stands behind it. -/
def exponentWords : Language Char := ({['e']} + {['E']}) * signWords * digitWords

/-- The number literals. -/
def literalWords : Language Char := signWords * mantissaWords * (1 + exponentWords)

theorem mem_signWords_iff {cs : List Char} : cs ∈ signWords ↔ ∃ sign : Sign, sign.spelling = cs := by
  rw [signWords, Language.mem_add, Language.mem_add, Language.mem_one]
  constructor
  · rintro ((rfl | rfl) | rfl)
    · exact ⟨.absent, rfl⟩
    · exact ⟨.plus, rfl⟩
    · exact ⟨.minus, rfl⟩
  · rintro ⟨sign, rfl⟩
    cases sign with
    | absent => exact .inl (.inl rfl)
    | plus => exact .inl (.inr rfl)
    | minus => exact .inr rfl

theorem mem_exponentWords_iff {cs : List Char} :
    cs ∈ exponentWords ↔ ∃ e : Exponent, e.WellFormed ∧ e.spelling = cs := by
  rw [exponentWords, Language.mem_mul]
  constructor
  · rintro ⟨front, hfront, digits, hdigits, rfl⟩
    obtain ⟨mark, hmark, sign, hsign, rfl⟩ := Language.mem_mul.mp hfront
    obtain ⟨sign, rfl⟩ := mem_signWords_iff.mp hsign
    obtain ⟨capital, rfl⟩ : ∃ capital, [Exponent.mark capital] = mark := by
      rcases hmark with rfl | rfl
      · exact ⟨false, rfl⟩
      · exact ⟨true, rfl⟩
    refine ⟨⟨capital, sign, digits⟩, ⟨hdigits.1, hdigits.2⟩, ?_⟩
    rw [Exponent.spelling, List.append_assoc]
    rfl
  · rintro ⟨e, he, rfl⟩
    have hmark : [Exponent.mark e.capital] ∈ ({['e']} + {['E']} : Language Char) := by
      cases e.capital with
      | false => exact .inl rfl
      | true => exact .inr rfl
    have hsign : e.sign.spelling ∈ signWords := mem_signWords_iff.mpr ⟨e.sign, rfl⟩
    exact ⟨_, Language.append_mem_mul hmark hsign, e.digits, ⟨he.nonempty, he.digits⟩, rfl⟩

theorem mem_mantissaWords_iff {cs : List Char} :
    cs ∈ mantissaWords ↔ ∃ whole fraction, (∀ c ∈ whole, isDigit c) ∧ (∀ c ∈ fraction.getD [], isDigit c) ∧
      (whole ≠ [] ∨ fraction.getD [] ≠ []) ∧ whole ++ Literal.fractionSpelling fraction = cs := by
  rw [mantissaWords, Language.mem_add, Language.mem_mul, Language.mem_mul]
  constructor
  · rintro (⟨whole, hwhole, behind, hbehind, rfl⟩ | ⟨point, rfl, digits, hdigits, rfl⟩)
    · rcases hbehind with hnone | hpoint
      · obtain rfl := (Language.mem_one behind).mp hnone
        exact ⟨whole, none, hwhole.2, fun c hc => absurd hc List.not_mem_nil, .inl hwhole.1, rfl⟩
      · obtain ⟨point, rfl, digits, hdigits, rfl⟩ := Language.mem_mul.mp hpoint
        exact ⟨whole, some digits, hwhole.2, hdigits, .inl hwhole.1, rfl⟩
    · exact ⟨[], some digits, fun c hc => absurd hc List.not_mem_nil, hdigits.2, .inr hdigits.1, rfl⟩
  · rintro ⟨whole, fraction, hwhole, hfraction, hne, rfl⟩
    by_cases hempty : whole = []
    · subst hempty
      have hdigits := hne.resolve_left fun h => h rfl
      cases fraction with
      | none => exact absurd rfl hdigits
      | some digits => exact .inr ⟨['.'], rfl, digits, ⟨hdigits, hfraction⟩, rfl⟩
    · refine .inl ⟨whole, ⟨hempty, hwhole⟩, _, ?_, rfl⟩
      cases fraction with
      | none => exact .inl rfl
      | some digits => exact .inr (Language.mem_mul.mpr ⟨['.'], rfl, digits, hfraction, rfl⟩)

/-- The literals are the spellings of the well-formed ones. -/
theorem mem_literalWords_iff {cs : List Char} :
    cs ∈ literalWords ↔ ∃ l : Literal, l.WellFormed ∧ l.spelling = cs := by
  rw [literalWords, Language.mem_mul]
  constructor
  · rintro ⟨front, hfront, exponent, hexponent, rfl⟩
    obtain ⟨sign, hsign, mantissa, hmantissa, rfl⟩ := Language.mem_mul.mp hfront
    obtain ⟨sign, rfl⟩ := mem_signWords_iff.mp hsign
    obtain ⟨whole, fraction, hwhole, hfraction, hne, rfl⟩ := mem_mantissaWords_iff.mp hmantissa
    obtain ⟨exponent, hwell, rfl⟩ : ∃ e : Option Exponent, (∀ x ∈ e, x.WellFormed) ∧
        Literal.exponentSpelling e = exponent := by
      rcases hexponent with hnone | hsome
      · obtain rfl := (Language.mem_one exponent).mp hnone
        exact ⟨none, fun x hx => (by cases hx), rfl⟩
      · obtain ⟨e, he, rfl⟩ := mem_exponentWords_iff.mp hsome
        exact ⟨some e, fun x hx => Option.some.inj hx ▸ he, rfl⟩
    refine ⟨⟨sign, whole, fraction, exponent⟩, ⟨hwhole, hfraction, hne, hwell⟩, ?_⟩
    simp only [Literal.spelling, List.append_assoc]
  · rintro ⟨⟨sign, whole, fraction, exponent⟩, hl, rfl⟩
    have hmantissa := mem_mantissaWords_iff.mpr ⟨whole, fraction, hl.whole, hl.fraction, hl.nonempty, rfl⟩
    have hexponent : Literal.exponentSpelling exponent ∈ 1 + exponentWords := by
      cases exponent with
      | none => exact .inl rfl
      | some e => exact .inr (mem_exponentWords_iff.mpr ⟨e, hl.exponent e rfl, rfl⟩)
    refine ⟨_, Language.append_mem_mul (mem_signWords_iff.mpr ⟨sign, rfl⟩) hmantissa, _, hexponent, ?_⟩
    simp only [Literal.spelling, List.append_assoc]

namespace Literal

theorem WellFormed.numeral?_spelling {l : Literal} (hl : l.WellFormed) : numeral? l.spelling = some l.spelling := by
  have hblank (c : Char) (hc : c ∈ l.spelling) : isNumeralBlank c = false := by
    have hmarks : marks.all (!isNumeralBlank ·) = true := by decide
    rcases hl.mem_spelling hc with hdigit | hmark
    · exact isNumeralBlank_of_isDigit hdigit
    · simpa using List.all_eq_true.mp hmarks c hmark
  rw [numeral?, trim_of_forall_not hblank, ungroupFrom?_of_not_mem (hl.not_mem_spelling (by decide) (by decide))]

theorem WellFormed.ofText?_spelling {l : Literal} (hl : l.WellFormed) : ofText? l.spelling = some l := by
  have hscan := @scan?_spelling_append l hl [] fun c hc => by cases hc
  rw [List.append_nil] at hscan
  rw [ofText?, hscan]

/-- A literal reads as the number that its parts write. -/
theorem WellFormed.read?_spelling {l : Literal} (hl : l.WellFormed) : Double.read? l.spelling = some l.toDouble := by
  rw [Double.read?, hl.numeral?_spelling, Option.bind_some, hl.ofText?_spelling]

end Literal
end Progression.Text
