import Progression.Proofs.Formula.Acceptance

/-! # Error reports are precise

A text that is no formula is reported with a place up to which it is the beginning of a formula, and
with what is wrong there: the kinds of tokens that could stand there, all of them and no others, or input
behind a whole formula, or a number out of range where an operand may stand, or a bracket that is one
too many. -/

namespace Progression

open Recognizer (operandKinds operatorKinds predict Passes)

theorem mayFollow_nil_iff {kind : TokenKind} : kind ≠ .space ∧ MayFollow [] kind ↔ kind = .bracketOpen := by
  constructor
  · rintro ⟨-, p, hp, before, lexeme, after, htokens, hwritten⟩
    obtain ⟨more, hmore⟩ : ∃ more, p.tokens = (.bracketOpen, ['(']) :: more := by
      cases p with
      | leaf l => exact hp.elim
      | bracketed l => exact ⟨_, rfl⟩
      | application a left b op c right d => exact ⟨_, rfl⟩
    rw [hmore] at htokens
    rcases Unfinished.cons_eq_append_cons htokens with ⟨-, heq⟩ | ⟨before', rfl, -⟩
    · exact congrArg Prod.fst heq
    · exact absurd hwritten (List.cons_ne_nil _ _)
  · rintro rfl
    exact ⟨by decide, .bracketed .unknown, trivial, [], ['('], _, rfl, rfl⟩

/-- Behind a broken derivation that fits, what is due may follow, and nothing else but blanks. -/
theorem mayFollow_chars_iff {u : Unfinished} (hstart : u ≠ .start) {limit : Nat} (hfits : u.Fits limit)
    {kind : TokenKind} : kind ≠ .space ∧ MayFollow u.chars kind ↔ kind ∈ u.due := by
  constructor
  · rintro ⟨hspace, p, -, before, lexeme, after, htokens, hwritten⟩
    obtain ⟨u', hchars, hdue⟩ := Unfinished.exists_of_tokens htokens hspace
    rw [hwritten] at hchars
    have hu := (@Recognizer.yields_unfinished limit u limit 0 _ rfl).1 hfits
    have hu' := @Recognizer.yields_unfinished limit u' limit 0 _ rfl
    rw [hchars, hu] at hu'
    by_cases hfits' : u'.Fits limit
    · have heq := hu'.1 hfits'
      injection heq with _ hkinds
      rw [hkinds]
      exact hdue
    · obtain ⟨e, he⟩ := hu'.2 hfits'
      exact nomatch he
  · intro hkind
    refine ⟨fun hspace => u.space_not_mem_due (hspace ▸ hkind), ?_⟩
    obtain ⟨p, ⟨before, lexeme, after, htokens, hwritten⟩, hp, -⟩ := u.exists_goesOn hkind
    exact ⟨p, hp hstart, before, lexeme, after, htokens, hwritten⟩

/-- What a cause says of the text at its place, if brackets may be nested so deep. -/
def SyntaxError.Cause.Holds (text : List Char) (limit offset : Nat) : Cause → Prop
  | .expected kinds =>
    (∀ kind, kind ∈ kinds ↔ kind ≠ .space ∧ MayFollow (text.take offset) kind) ∧
      ∀ kind ∈ kinds, kind.lexeme? (text.drop offset) = none
  | .trailing =>
    offset < text.length ∧ ∃ f, Formula.read (String.ofList (text.take offset)) limit = .ok f
  | .outOfRange lexeme =>
    (∀ kind ∈ operandKinds, MayFollow (text.take offset) kind) ∧
      ∃ literal : Text.Literal, literal.WellFormed ∧ literal.spelling = lexeme ∧ lexeme <+: text.drop offset ∧
        (∀ other : Text.Literal, other.WellFormed → other.spelling <+: text.drop offset →
          other.spelling.length ≤ lexeme.length) ∧
        literal.toDouble.isInfinite = true
  | .tooDeep n => n = limit ∧ text[offset]? = some '(' ∧ unclosed (text.take offset) = limit

/-- The place of an error is one of the text, a formula begins with what stands in front of it, and its cause
holds there. -/
structure SyntaxError.Precise (text : List Char) (limit : Nat) (e : SyntaxError) : Prop where
  offset : e.offset ≤ text.length
  viable : ∃ more f, Formula.read (String.ofList (text.take e.offset ++ more)) limit = .ok f
  cause : e.cause.Holds text limit e.offset

namespace Formula

theorem read_ofList {limit : Nat} (hlimit : 1 ≤ limit) (cs : List Char) :
    read (String.ofList cs) limit = parse cs limit := by
  have hpos : (1 : Int) ≤ limit := by omega
  rw [read_of_pos _ hpos, String.toList_ofList, Int.toNat_natCast]

theorem exists_read_of_fits {limit : Nat} (hlimit : 1 ≤ limit) {p : Phrase} (hp : p.IsExpression) (hfits : p.Fits limit) :
    ∃ f, read (String.ofList p.chars) limit = .ok f := by
  rw [read_ofList hlimit]
  exact ⟨p.formula, parse_eq_ok_iff_phrase.mpr ⟨p, hp, rfl, rfl, hfits⟩⟩

/-- A broken derivation that fits is the beginning of a formula. -/
theorem exists_read_append {limit : Nat} (hlimit : 1 ≤ limit) {u : Unfinished} (hstart : u ≠ .start)
    (hfits : u.Fits limit) : ∃ more f, read (String.ofList (u.chars ++ more)) limit = .ok f := by
  obtain ⟨kind, hkind, hopen⟩ := u.exists_mem_due
  obtain ⟨p, ⟨before, lexeme, after, htokens, hwritten⟩, hp, hpfits⟩ := u.exists_goesOn hkind
  have hchars : p.chars = u.chars ++ (lexeme ++ written after) := by
    rw [← p.written_tokens, htokens, written_append, written_cons, hwritten]
  obtain ⟨f, hf⟩ := exists_read_of_fits hlimit (hp hstart) (hpfits limit hopen hfits)
  rw [hchars] at hf
  exact ⟨_, f, hf⟩

theorem parse_of_error {cs : List Char} {limit : Nat} {e : SyntaxError}
    (h : Recognizer.reading Recognizer.remembering limit cs = .error e) : parse cs limit = .error (.syntaxError cs e) := by
  rw [parse, h]
  rfl

/-- What is found in a text always stands for a formula, so the only fault is a syntax error. -/
theorem parse_cases (cs : List Char) (limit : Nat) :
    (∃ f, parse cs limit = .ok f) ∨ ∃ e, parse cs limit = .error (.syntaxError cs e) := by
  cases hpredict : predict limit limit (.start cs) with
  | found r d =>
      have hreading := Recognizer.reading_of_found hpredict
      obtain ⟨p, hp, rfl, -, -⟩ := Recognizer.exists_of_predict hpredict
      split at hreading
      · exact .inl ⟨p.formula, parse_eq_ok_iff.mpr ⟨_, hreading, Phrase.toFormula_inner hp⟩⟩
      · exact .inr ⟨_, parse_of_error hreading⟩
  | stuck place kinds =>
      obtain ⟨expected, hreading, -⟩ :=
        Recognizer.reading_of_stuck hpredict (Recognizer.kinds_ne_nil_of_predict hpredict)
      exact .inr ⟨_, parse_of_error hreading⟩
  | refused e => exact .inr ⟨e, parse_of_error (Recognizer.reading_of_refused hpredict)⟩

section Causes

variable {cs : List Char} {limit : Nat} (hlimit : 1 ≤ limit)
include hlimit

theorem precise_of_found {r : Reading} {d : Recognizer.Cursor} (h : predict limit limit (.start cs) = .found r d)
    (hrest : d.rest ≠ []) : SyntaxError.Precise cs limit ⟨.trailing, d.offset⟩ := by
  obtain ⟨p, hp, -, hpasses, hfits⟩ := Recognizer.exists_of_predict h
  have hread := exists_read_of_fits hlimit hp hfits
  rw [← hpasses.take_start] at hread
  refine ⟨hpasses.offset_le, ⟨[], ?_⟩, ?_, hread⟩
  · rwa [List.append_nil]
  · have hlength := congrArg List.length hpasses.drop_start
    rw [List.length_drop] at hlength
    have hpos := List.length_pos_iff.mpr hrest
    show d.offset < cs.length
    omega

theorem precise_of_stuck {place : Nat} {kinds expected : List TokenKind}
    (h : predict limit limit (.start cs) = .stuck place kinds) (hexpected : ∀ kind, kind ∈ expected ↔ kind ∈ kinds) :
    SyntaxError.Precise cs limit ⟨.expected expected, place⟩ := by
  rcases Recognizer.exists_of_predict_stuck h with ⟨hopen, rfl, rfl⟩ | ⟨u, hstart, d, hpasses, rfl, hfits, rfl, hnone⟩
  · refine ⟨Nat.zero_le _, ?_, fun kind => ?_, fun kind hkind => ?_⟩
    · have hfits : (Phrase.bracketed .unknown).Fits limit := ⟨hlimit, trivial⟩
      obtain ⟨f, hf⟩ := @exists_read_of_fits limit hlimit (.bracketed .unknown) trivial hfits
      exact ⟨_, f, hf⟩
    · rw [hexpected, List.mem_singleton]
      exact mayFollow_nil_iff.symm
    · have hkind' := List.mem_singleton.mp ((hexpected kind).mp hkind)
      rw [hkind', @Recognizer.lexeme?_of_singleton .bracketOpen '(' rfl]
      exact if_neg hopen
  · refine ⟨hpasses.offset_le, ?_, fun kind => ?_, fun kind hkind => ?_⟩
    · obtain ⟨more, f, hf⟩ := exists_read_append hlimit hstart hfits
      rw [← hpasses.take_start] at hf
      exact ⟨more, f, hf⟩
    · rw [hexpected, hpasses.take_start]
      exact (mayFollow_chars_iff hstart hfits).symm
    · rw [hpasses.drop_start]
      exact hnone kind ((hexpected kind).mp hkind)

theorem precise_of_refused {e : SyntaxError} (h : predict limit limit (.start cs) = .refused e) :
    SyntaxError.Precise cs limit e := by
  obtain ⟨u, hstart, d, hpasses, hoffset, hfits, hdue, hrefusal⟩ := Recognizer.exists_of_predict_refused hlimit h
  obtain ⟨cause, offset⟩ := e
  obtain rfl : offset = d.offset := hoffset
  refine ⟨hpasses.offset_le, ?_, ?_⟩
  · obtain ⟨more, f, hf⟩ := exists_read_append hlimit hstart hfits
    rw [← hpasses.take_start] at hf
    exact ⟨more, f, hf⟩
  · cases hrefusal with
    | tooDeep hlevel hopen =>
        refine ⟨rfl, ?_, ?_⟩
        · rw [← hpasses.drop_start, List.head?_drop] at hopen
          exact hopen
        · rw [hpasses.take_start, unclosed, u.unclosedFrom_chars, Nat.zero_add, hlevel]
    | @outOfRange literal behind hscan hinfinite =>
        refine ⟨fun kind hkind => ?_, literal, Text.Literal.wellFormed_of_scan? hscan, rfl, ?_, ?_, hinfinite⟩
        · rw [← hdue] at hkind
          rw [hpasses.take_start]
          exact ((mayFollow_chars_iff hstart hfits).mpr hkind).2
        · rw [hpasses.drop_start]
          exact ⟨behind, Text.Literal.spelling_append_of_scan? hscan⟩
        · intro other hother hbegins
          rw [hpasses.drop_start] at hbegins
          exact Text.Literal.length_le_of_scan? hscan hother hbegins

end Causes

/-- Every text is read as a formula, or refused with a precise report. -/
theorem read_precise (text : String) (limit : Nat) (hlimit : 1 ≤ limit) :
    (∃ f, read text limit = .ok f) ∨
      ∃ e, read text limit = .error (.syntaxError text.toList e) ∧ SyntaxError.Precise text.toList limit e := by
  rw [← @String.ofList_toList text, read_ofList hlimit, String.toList_ofList]
  cases hpredict : predict limit limit (.start text.toList) with
  | found r d =>
      have hreading := Recognizer.reading_of_found hpredict
      split at hreading <;> rename_i hempty
      · obtain ⟨p, hp, rfl, -, -⟩ := Recognizer.exists_of_predict hpredict
        exact .inl ⟨p.formula, parse_eq_ok_iff.mpr ⟨_, hreading, Phrase.toFormula_inner hp⟩⟩
      · rw [List.isEmpty_iff] at hempty
        exact .inr ⟨_, parse_of_error hreading, precise_of_found hlimit hpredict hempty⟩
  | stuck place kinds =>
      obtain ⟨expected, hreading, hexpected⟩ :=
        Recognizer.reading_of_stuck hpredict (Recognizer.kinds_ne_nil_of_predict hpredict)
      exact .inr ⟨_, parse_of_error hreading, precise_of_stuck hlimit hpredict hexpected⟩
  | refused e =>
      exact .inr ⟨e, parse_of_error (Recognizer.reading_of_refused hpredict), precise_of_refused hlimit hpredict⟩

/-- Behind `(x`, an operator or the closing bracket is missing. -/
theorem read_precise_unclosed : 1 ≤ 1 ∧ SyntaxError.Precise ['(', 'x'] 1
    ⟨.expected [.log, .caret, .percent, .slash, .star, .minus, .plus, .bracketClose], 2⟩ := by
  have herror : parse ['(', 'x'] 1 = .error (.syntaxError ['(', 'x']
      ⟨.expected [.log, .caret, .percent, .slash, .star, .minus, .plus, .bracketClose], 2⟩) := rfl
  have h := read_precise (String.ofList ['(', 'x']) 1 (Nat.le_refl 1)
  rw [read_ofList (Nat.le_refl 1), String.toList_ofList, herror] at h
  obtain ⟨f, hf⟩ | ⟨e, he, hprecise⟩ := h
  · exact nomatch hf
  · injection he with he
    injection he with _ he
    exact ⟨Nat.le_refl 1, he ▸ hprecise⟩

end Formula

end Progression
