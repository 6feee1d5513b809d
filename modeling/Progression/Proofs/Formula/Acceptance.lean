import Progression.Proofs.Formula.Memory
import Progression.Proofs.Formula.Soundness

/-! # The texts that are formulas

A text is read as a formula if and only if the grammar derives it, its brackets nest no deeper than the
limit, and none of its numbers is out of range. The formula is that of the derivation, of which there is
only one. -/

namespace Progression

namespace Recognizer

theorem furthest_missAll_le {place : Nat} {misses : List Miss} {s : Trace} (hs : s.furthest ≤ place)
    (h : ∀ m ∈ misses, m.2 ≤ place) : (s.missAll misses).furthest ≤ place := by
  induction misses generalizing s with
  | nil => exact hs
  | cons m misses ih =>
      refine ih ?_ fun m' hm' => h m' (List.mem_cons_of_mem m hm')
      have hm := h m List.mem_cons_self
      show (s.miss m.1 m.2).furthest ≤ place
      rw [Trace.miss]
      split
      · exact hm
      · split <;> exact hs

theorem mem_expected_miss {s : Trace} {kind kind' : TokenKind} {n : Nat} (h : kind ∈ (s.miss kind' n).expected) :
    kind = kind' ∧ (s.miss kind' n).furthest = n ∨
      kind ∈ s.expected ∧ (s.miss kind' n).furthest = s.furthest := by
  rw [Trace.miss] at h ⊢
  split at h <;> rename_i hlt
  · rw [if_pos hlt]
    exact .inl ⟨List.mem_singleton.mp h, rfl⟩
  · rw [if_neg hlt]
    split at h <;> rename_i heq
    · rw [if_pos heq]
      exact (List.mem_insert_iff.mp h).imp (fun h => ⟨h, heq.symm⟩) fun h => ⟨h, rfl⟩
    · rw [if_neg heq]
      exact .inr ⟨h, rfl⟩

/-- What is expected at the furthest place was looked for there in vain. -/
theorem mem_of_mem_expected {misses : List Miss} {s : Trace} {kind : TokenKind}
    (h : kind ∈ (s.missAll misses).expected) :
    (kind, (s.missAll misses).furthest) ∈ misses ∨
      kind ∈ s.expected ∧ (s.missAll misses).furthest = s.furthest := by
  induction misses generalizing s with
  | nil => exact .inr ⟨h, rfl⟩
  | cons m misses ih =>
      have hstep : s.missAll (m :: misses) = (s.miss m.1 m.2).missAll misses := rfl
      rw [hstep] at h ⊢
      rcases ih h with hmem | ⟨hmem, hfurthest⟩
      · exact .inl (List.mem_cons_of_mem m hmem)
      · rw [hfurthest]
        rcases mem_expected_miss hmem with ⟨rfl, hplace⟩ | hold
        · rw [hplace]
          exact .inl List.mem_cons_self
        · exact .inr hold

variable {limit : Nat} {text : List Char}

theorem reading_of_found {r : Reading} {c : Cursor} (h : predict limit limit (.start text) = .found r c) :
    reading remembering limit text = if c.rest.isEmpty then .ok r else .error ⟨.trailing, c.offset⟩ := by
  have hcovers := covers_expression limit limit (.start text)
  rw [h] at hcovers
  obtain ⟨-, _, misses, hgives⟩ := hcovers
  rw [reading_remembering, reading, hgives .start]
  rfl

theorem reading_of_refused {e : SyntaxError} (h : predict limit limit (.start text) = .refused e) :
    reading remembering limit text = .error e := by
  have hcovers := covers_expression limit limit (.start text)
  rw [h] at hcovers
  obtain ⟨-, _, hraises⟩ := hcovers
  rw [reading_remembering, reading, hraises .start]
  rfl

theorem reading_of_stuck {place : Nat} {kinds : List TokenKind}
    (h : predict limit limit (.start text) = .stuck place kinds) (hne : kinds ≠ []) :
    ∃ expected, reading remembering limit text = .error ⟨.expected expected, place⟩ ∧
      ∀ kind, kind ∈ expected ↔ kind ∈ kinds := by
  have hcovers := covers_expression limit limit (.start text)
  rw [h] at hcovers
  obtain ⟨misses, hmisses, hattained⟩ := hcovers
  obtain ⟨hgives, hwithin⟩ := hmisses ()
  have hall (kind : TokenKind) (hkind : kind ∈ kinds) : (kind, place) ∈ misses () := by
    obtain ⟨_, hmem⟩ := hattained kind hkind
    exact hmem
  have hle : (Trace.start.missAll (misses ())).furthest ≤ place :=
    furthest_missAll_le (Nat.zero_le place) fun m hm => (hwithin m hm).elim Nat.le_of_lt fun h => Nat.le_of_eq h.1
  have hrecorded := within_missAll Trace.start (misses ())
  have hplace : (Trace.start.missAll (misses ())).furthest = place := by
    obtain ⟨kind, hkind⟩ := List.exists_mem_of_ne_nil kinds hne
    rcases hrecorded _ (hall kind hkind) with hlt | ⟨heq, -⟩
    · exact absurd hle (Nat.not_le_of_lt hlt)
    · exact heq.symm
  refine ⟨(Trace.start.missAll (misses ())).expected, ?_, fun kind => ⟨fun hkind => ?_, fun hkind => ?_⟩⟩
  · rw [reading_remembering, reading, hgives .start, ← hplace]
    rfl
  · rcases mem_of_mem_expected hkind with hmem | ⟨hmem, -⟩
    · rw [hplace] at hmem
      rcases hwithin _ hmem with hlt | ⟨-, hkind⟩
      · exact absurd hlt (Nat.lt_irrefl place)
      · exact hkind
    · exact absurd hmem List.not_mem_nil
  · rcases hrecorded _ (hall kind hkind) with hlt | ⟨-, hmem⟩
    · exact absurd hle (Nat.not_le_of_lt hlt)
    · exact hmem

theorem readOperand_of_open (expression : Cursor → Finding Reading) {c : Cursor} (h : c.rest.head? = some '(') :
    readOperand expression c = (expression c).map (.nested .subexpression) := by
  obtain ⟨offset, rest⟩ := c
  obtain ⟨more, rfl⟩ := List.head?_eq_some_iff.mp h
  exact readOperand_open expression offset more

theorem Finding.map_eq_found {α β : Type} {o : Finding α} {f : α → β} {b : β} {c : Cursor} :
    o.map f = .found b c ↔ ∃ a, o = .found a c ∧ f a = b := by
  cases o with
  | found a d =>
      constructor
      · intro h
        injection h with hvalue hplace
        exact ⟨a, by rw [hplace], hvalue⟩
      · rintro ⟨a', heq, rfl⟩
        injection heq with hvalue hplace
        rw [Finding.map, hvalue, hplace]
  | stuck place kinds => exact iff_of_false nofun fun ⟨_, h, _⟩ => nomatch h
  | refused e => exact iff_of_false nofun fun ⟨_, h, _⟩ => nomatch h

/-- A derivation of an expression is found if it fits. -/
theorem predict_of_fits {p : Phrase} {allowance offset : Nat} {rest : List Char} (hp : p.IsExpression)
    (hrest : Text.Literal.Barrier rest) (hfits : p.Fits allowance) :
    predict limit allowance ⟨offset, p.chars ++ rest⟩ = .found p.inner ⟨offset + p.chars.length, rest⟩ := by
  have hoperand := (@yields_phrase limit p allowance offset _ _ hrest rfl).1 hfits
  obtain ⟨more, hmore⟩ := Phrase.head_chars_of_isExpression hp
  have hopen : (p.chars ++ rest).head? = some '(' := by rw [hmore]; rfl
  rw [readOperand_of_open _ hopen, Phrase.reading_of_isExpression hp, Finding.map_eq_found] at hoperand
  obtain ⟨inner, hfound, hinner⟩ := hoperand
  injection hinner with _ hinner
  rw [hfound, hinner]

/-- Only derivations of expressions that fit are found. -/
theorem exists_of_predict {allowance : Nat} {c d : Cursor} {r : Reading} (h : predict limit allowance c = .found r d) :
    ∃ p : Phrase, p.IsExpression ∧ p.inner = r ∧ Passes p.chars c d ∧ p.Fits allowance := by
  by_cases hopen : c.rest.head? = some '('
  · have hexplained := explained_predict limit allowance c
    rw [readOperand_of_open _ hopen, h] at hexplained
    obtain ⟨p, hreading, hpasses, hfits⟩ := hexplained
    have hp : p.IsExpression := by
      cases p with
      | leaf l => cases l <;> exact nomatch hreading
      | bracketed l => trivial
      | application a left b op c right d => trivial
    rw [Phrase.reading_of_isExpression hp] at hreading
    injection hreading with _ hinner
    exact ⟨p, hp, hinner, hpasses, hfits⟩
  · rw [(opens_predict limit allowance).closed c hopen] at h
    exact nomatch h

/-- Where no expression begins, an opening bracket is looked for; else a derivation that fits is broken off. -/
theorem exists_of_predict_stuck {allowance place : Nat} {c : Cursor} {kinds : List TokenKind}
    (h : predict limit allowance c = .stuck place kinds) :
    (c.rest.head? ≠ some '(' ∧ place = c.offset ∧ kinds = [.bracketOpen]) ∨
      ∃ u : Unfinished, u ≠ .start ∧ ∃ d, Passes u.chars c d ∧ place = d.offset ∧ u.Fits allowance ∧
        kinds = u.due ∧ ∀ kind ∈ kinds, kind.lexeme? d.rest = none := by
  by_cases hopen : c.rest.head? = some '('
  · have hexplained := explained_predict limit allowance c
    rw [readOperand_of_open _ hopen, h] at hexplained
    obtain ⟨u, d, hpasses, hplace, hfits, hkinds, hnone⟩ := hexplained
    refine .inr ⟨u, ?_, d, hpasses, hplace, hfits, hkinds, hnone⟩
    rintro rfl
    have hd : c.rest = d.rest := hpasses.rest
    have hlexeme := hnone .bracketOpen (hkinds ▸ Unfinished.bracketOpen_mem_operandKinds)
    rw [@lexeme?_of_singleton .bracketOpen '(' rfl, ← hd, if_pos hopen] at hlexeme
    exact nomatch hlexeme
  · rw [(opens_predict limit allowance).closed c hopen] at h
    injection h with hplace hkinds
    exact .inl ⟨hopen, hplace.symm, hkinds.symm⟩

/-- An error ends the search where an operand is due, behind a bracket. -/
theorem exists_of_predict_refused {allowance : Nat} {c : Cursor} {e : SyntaxError} (hpos : 1 ≤ allowance)
    (h : predict limit allowance c = .refused e) :
    ∃ u : Unfinished, u ≠ .start ∧ ∃ d, Passes u.chars c d ∧ e.offset = d.offset ∧ u.Fits allowance ∧
      u.due = operandKinds ∧ Refusal limit u.level allowance d.rest e.cause := by
  by_cases hopen : c.rest.head? = some '('
  · have hexplained := explained_predict limit allowance c
    rw [readOperand_of_open _ hopen, h] at hexplained
    obtain ⟨u, d, hpasses, hplace, hfits, hdue, hrefusal⟩ := hexplained
    refine ⟨u, ?_, d, hpasses, hplace, hfits, hdue, hrefusal⟩
    rintro rfl
    have hd : c.rest = d.rest := hpasses.rest
    obtain ⟨cause, offset⟩ := e
    cases hrefusal with
    | tooDeep hlevel _ => exact absurd hpos (hlevel ▸ Nat.not_succ_le_zero 0)
    | outOfRange hscan _ =>
        rw [← hd, scan?_eq_none_of_head (by decide) hopen] at hscan
        exact nomatch hscan
  · rw [(opens_predict limit allowance).closed c hopen] at h
    exact nomatch h

theorem kinds_ne_nil_of_predict {allowance place : Nat} {c : Cursor} {kinds : List TokenKind}
    (h : predict limit allowance c = .stuck place kinds) : kinds ≠ [] := by
  rcases exists_of_predict_stuck h with ⟨-, -, rfl⟩ | ⟨u, -, d, -, -, -, rfl, -⟩
  · exact List.cons_ne_nil _ _
  · exact u.due_ne_nil

end Recognizer

namespace Formula

open Recognizer (predict Passes)

variable {text : String} {limit : Int}

theorem read_of_pos (text : String) (h : 1 ≤ limit) : read text limit = parse text.toList limit.toNat := by
  rw [read, if_neg (by omega)]

theorem ofReading_eq_ok_iff {r : Reading} {f : Formula} : ofReading r = .ok f ↔ r.toFormula = .ok f := by
  unfold ofReading
  cases r.toFormula with
  | error e => exact iff_of_false (fun h => by cases h) fun h => by cases h
  | ok g =>
      change Except.ok g = .ok f ↔ _
      rw [Except.ok.injEq, Except.ok.injEq]

theorem parse_eq_ok_iff {cs : List Char} {limit : Nat} {f : Formula} :
    parse cs limit = .ok f ↔ ∃ r, Recognizer.reading Recognizer.remembering limit cs = .ok r ∧ r.toFormula = .ok f := by
  rw [parse]
  cases Recognizer.reading Recognizer.remembering limit cs with
  | error e => exact iff_of_false nofun fun ⟨_, h, _⟩ => nomatch h
  | ok r =>
      change ofReading r = .ok f ↔ _
      rw [ofReading_eq_ok_iff]
      simp only [Except.ok.injEq, exists_eq_left']

/-- A text is read as the formula of its derivation, if that fits. -/
theorem parse_eq_ok_iff_phrase {cs : List Char} {limit : Nat} {f : Formula} :
    parse cs limit = .ok f ↔
      ∃ p : Phrase, p.IsExpression ∧ p.chars = cs ∧ p.formula = f ∧ p.Fits limit := by
  rw [parse_eq_ok_iff]
  constructor
  · rintro ⟨r, hreading, hformula⟩
    cases hpredict : predict limit limit (.start cs) with
    | refused e => exact nomatch (Recognizer.reading_of_refused hpredict).symm.trans hreading
    | stuck place kinds =>
        obtain ⟨expected, herror, -⟩ :=
          Recognizer.reading_of_stuck hpredict (Recognizer.kinds_ne_nil_of_predict hpredict)
        exact nomatch herror.symm.trans hreading
    | found r' d =>
        rw [Recognizer.reading_of_found hpredict] at hreading
        obtain ⟨p, hp, hinner, hpasses, hfits⟩ := Recognizer.exists_of_predict hpredict
        split at hreading
        · rename_i hempty
          injection hreading with hr
          subst hr
          have hrest := hpasses.rest
          rw [List.isEmpty_iff.mp hempty, List.append_nil] at hrest
          rw [← hinner, Phrase.toFormula_inner hp] at hformula
          exact ⟨p, hp, hrest.symm, Except.ok.inj hformula, hfits⟩
        · exact nomatch hreading
  · rintro ⟨p, hp, rfl, rfl, hfits⟩
    have hpredict := @Recognizer.predict_of_fits limit p limit 0 [] hp barrier_nil hfits
    rw [List.append_nil] at hpredict
    exact ⟨p.inner, Recognizer.reading_of_found hpredict, Phrase.toFormula_inner hp⟩

theorem read_eq_ok_iff_phrase {f : Formula} : read text limit = .ok f ↔
    ∃ p : Phrase, p.IsExpression ∧ p.chars = text.toList ∧ p.formula = f ∧ (nesting text.toList : Int) ≤ limit ∧
      p.InRange := by
  by_cases hlimit : 1 ≤ limit
  · rw [read_of_pos text hlimit, parse_eq_ok_iff_phrase]
    refine exists_congr fun p => and_congr_right fun _ => and_congr_right fun hchars => and_congr_right fun _ => ?_
    rw [← hchars, Phrase.nesting_chars, Phrase.Fits]
    refine and_congr_left fun _ => ?_
    omega
  · rw [read, if_pos (by omega)]
    refine iff_of_false (fun h => by cases h) ?_
    rintro ⟨p, hp, hchars, -, hnesting, -⟩
    rw [← hchars, Phrase.nesting_chars] at hnesting
    have hpos := Phrase.brackets_pos hp
    omega

/-- A text is read as a formula if and only if the grammar derives it as that formula, its brackets nest no
deeper than the limit, and no number is out of range. No two derivations write the same text. -/
theorem read_eq_ok_iff (text : String) (limit : Int) :
    (∀ f, read text limit = .ok f ↔
      ∃ p : Phrase, p.IsExpression ∧ p.chars = text.toList ∧ p.formula = f ∧
        (nesting text.toList : Int) ≤ limit ∧ p.InRange) ∧
    ∀ p q : Phrase, p.chars = text.toList → q.chars = text.toList → p = q := by
  refine ⟨fun f => read_eq_ok_iff_phrase, fun p q hp hq => ?_⟩
  exact Phrase.chars_injective (hp.trans hq.symm)

end Formula

end Progression
