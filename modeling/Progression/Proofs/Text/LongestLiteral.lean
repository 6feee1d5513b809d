import Progression.Text.Literal

/-! # The longest literal

A literal is well formed if its parts are the ones that the notation has: digits, with at least one of
them beside the point, and at least one behind the mark of an exponent. The scanner finds well-formed
literals only; of those that a text begins with it finds the longest, and it finds every one that
stands in front of a barrier, that is, of a character that cannot carry a literal on. -/

namespace Progression.Text

theorem spanDigits_append_of_all {ds : List Char} (hds : ∀ c ∈ ds, isDigit c) (rest : List Char) :
    spanDigits (ds ++ rest) = (ds ++ (spanDigits rest).1, (spanDigits rest).2) := by
  rw [spanDigits, List.takeWhile_append_of_pos hds, List.dropWhile_append_of_pos hds, spanDigits]

theorem spanDigits_of_head {rest : List Char} (hrest : ∀ c ∈ rest.head?, ¬isDigit c) :
    spanDigits rest = ([], rest) := by
  cases rest with
  | nil => rfl
  | cons c rest =>
      have hc : ¬isDigit c := hrest c rfl
      rw [spanDigits, List.takeWhile_cons_of_neg hc, List.dropWhile_cons_of_neg hc]

theorem isDigit_of_mem_spanDigits {cs : List Char} {c : Char} (h : c ∈ (spanDigits cs).1) : isDigit c :=
  List.all_eq_true.mp List.all_takeWhile c h

theorem length_spanDigits_le (cs : List Char) : (spanDigits cs).2.length ≤ cs.length :=
  (List.dropWhile_sublist isDigit).length_le

theorem not_isDigit_mark (capital : Bool) : ¬isDigit (Exponent.mark capital) := by
  cases capital <;> decide

theorem Sign.scan_spelling_append (sign : Sign) {rest : List Char}
    (hrest : ∀ c ∈ rest.head?, c ≠ '+' ∧ c ≠ '-') : scan (sign.spelling ++ rest) = (sign, rest) := by
  cases sign with
  | plus => rfl
  | minus => rfl
  | absent =>
      cases rest with
      | nil => rfl
      | cons c rest =>
          obtain ⟨hplus, hminus⟩ := hrest c rfl
          simp [Sign.spelling, Sign.scan, hplus, hminus]

theorem Sign.mem_spelling {sign : Sign} {c : Char} (h : c ∈ sign.spelling) : c = '+' ∨ c = '-' := by
  cases sign with
  | absent => exact absurd h List.not_mem_nil
  | plus => exact .inl (List.mem_singleton.mp h)
  | minus => exact .inr (List.mem_singleton.mp h)

/-- The mark of an exponent is followed by digits. -/
structure Exponent.WellFormed (e : Exponent) : Prop where
  nonempty : e.digits ≠ []
  digits : ∀ c ∈ e.digits, isDigit c

namespace Exponent

theorem scan?_spelling_append {e : Exponent} (he : e.WellFormed) (rest : List Char) :
    scan? (e.spelling ++ rest) =
      some ({ e with digits := e.digits ++ (spanDigits rest).1 }, (spanDigits rest).2) := by
  obtain ⟨capital, sign, digits⟩ := e
  have hmark : mark capital = mark false ∨ mark capital = mark true := by cases capital <;> simp
  have hcapital : decide (mark capital = mark true) = capital := by cases capital <;> rfl
  have hsign : Sign.scan (sign.spelling ++ (digits ++ rest)) = (sign, digits ++ rest) := by
    apply Sign.scan_spelling_append
    intro c hc
    cases digits with
    | nil => exact absurd rfl he.nonempty
    | cons d digits =>
        obtain rfl := Option.some.inj hc
        have hdigit := he.digits _ (List.mem_cons_self)
        exact ⟨fun h => absurd (h ▸ hdigit) (by decide), fun h => absurd (h ▸ hdigit) (by decide)⟩
  have hspan := spanDigits_append_of_all he.digits rest
  have hne : ¬(digits ++ (spanDigits rest).1).isEmpty := by simp [he.nonempty]
  simp only at hspan
  simp only [spelling, List.cons_append, List.append_assoc, scan?, if_pos hmark, hsign, hspan, if_neg hne,
    hcapital]

theorem wellFormed_of_scan? {cs rest : List Char} {e : Exponent} (h : scan? cs = some (e, rest)) :
    e.WellFormed := by
  cases cs with
  | nil => cases h
  | cons c cs =>
      simp only [scan?] at h
      split at h
      · split at h
        · cases h
        · rename_i hne
          obtain ⟨rfl, -⟩ := Prod.mk.inj (Option.some.inj h)
          exact ⟨fun hnil => hne (List.isEmpty_iff.mpr hnil), fun c hc => isDigit_of_mem_spanDigits hc⟩
      · cases h

theorem scan?_of_head {rest : List Char} (hrest : ∀ c ∈ rest.head?, c ≠ 'e' ∧ c ≠ 'E') :
    scan? rest = none := by
  cases rest with
  | nil => rfl
  | cons c rest =>
      obtain ⟨hsmall, hcapital⟩ := hrest c rfl
      have hmark : ¬(c = mark false ∨ c = mark true) := fun h => h.elim hsmall hcapital
      simp only [scan?, if_neg hmark]

theorem length_le_of_scan? {cs rest : List Char} {e : Exponent} (h : scan? cs = some (e, rest)) :
    rest.length ≤ cs.length := by
  rw [← spelling_append_of_scan? h, List.length_append]
  omega

end Exponent

namespace Literal

/-- The parts are those of `[+-]?(digits[.digits*]|.digits)([eE][+-]?digits)?`. -/
structure WellFormed (l : Literal) : Prop where
  whole : ∀ c ∈ l.whole, isDigit c
  fraction : ∀ c ∈ l.fractionDigits, isDigit c
  nonempty : l.whole ≠ [] ∨ l.fractionDigits ≠ []
  exponent : ∀ e ∈ l.exponent, e.WellFormed

/-- The characters of a literal beside its digits. -/
def marks : List Char := ['+', '-', '.', 'e', 'E']

/-- A literal has digits and marks only. -/
theorem WellFormed.mem_spelling {l : Literal} (hl : l.WellFormed) {c : Char} (h : c ∈ l.spelling) :
    isDigit c ∨ c ∈ marks := by
  have hsign (sign : Sign) (hc : c ∈ sign.spelling) : isDigit c ∨ c ∈ marks := by
    rcases Sign.mem_spelling hc with rfl | rfl <;> exact .inr (by decide)
  rw [spelling, List.mem_append, List.mem_append, List.mem_append] at h
  rcases h with h | h | h | h
  · exact hsign l.sign h
  · exact .inl (hl.whole c h)
  · cases hfraction : l.fraction with
    | none =>
        rw [hfraction] at h
        exact absurd h List.not_mem_nil
    | some digits =>
        rw [hfraction] at h
        rcases List.mem_cons.mp h with rfl | h
        · exact .inr (by decide)
        · exact .inl (hl.fraction c (by rw [fractionDigits, hfraction]; exact h))
  · cases hexponent : l.exponent with
    | none =>
        rw [hexponent] at h
        exact absurd h List.not_mem_nil
    | some e =>
        rw [hexponent] at h
        rcases List.mem_cons.mp h with rfl | h
        · exact .inr (by cases e.capital <;> decide)
        · rcases List.mem_append.mp h with h | h
          · exact hsign e.sign h
          · exact .inl ((hl.exponent e hexponent).digits c h)

/-- A character that is no digit and no mark stands in no literal. -/
theorem WellFormed.not_mem_spelling {l : Literal} (hl : l.WellFormed) {c : Char} (hdigit : isDigit c = false)
    (hmarks : c ∉ marks) : c ∉ l.spelling := by
  intro h
  rcases hl.mem_spelling h with h | h
  · rw [hdigit] at h
    exact Bool.false_ne_true h
  · exact hmarks h

/-- The text is at its end or goes on with a character that no literal goes on with. -/
def Barrier (rest : List Char) : Prop := ∀ c ∈ rest.head?, ¬isDigit c ∧ c ≠ '.' ∧ c ≠ 'e' ∧ c ≠ 'E'

/-- The exponent that a text begins with, if there is one. -/
def scanExponent (cs : List Char) : Option Exponent × List Char :=
  match Exponent.scan? cs with
  | some (e, rest) => (some e, rest)
  | none => (none, cs)

/-- The steps of the scanner, one after the other. -/
theorem scan?_of_steps {cs afterSign whole afterWhole afterFraction : List Char} {sign : Sign}
    {fraction : Option (List Char)} (hsign : Sign.scan cs = (sign, afterSign))
    (hwhole : spanDigits afterSign = (whole, afterWhole))
    (hfraction : scanFraction whole afterWhole = (fraction, afterFraction))
    (hne : whole ≠ [] ∨ fraction ≠ none) :
    scan? cs = some (⟨sign, whole, fraction, (scanExponent afterFraction).1⟩,
      (scanExponent afterFraction).2) := by
  have hempty : ¬(whole.isEmpty && fraction.isNone) := by rcases hne with h | h <;> simp [h]
  simp only [scan?, hsign, hwhole, hfraction, if_neg hempty, scanExponent]
  cases Exponent.scan? afterFraction <;> rfl

theorem steps_of_scan? {cs rest : List Char} {l : Literal} (h : scan? cs = some (l, rest)) :
    ∃ afterFraction, l.whole = (spanDigits (Sign.scan cs).2).1 ∧
      scanFraction l.whole (spanDigits (Sign.scan cs).2).2 = (l.fraction, afterFraction) ∧
      (l.whole ≠ [] ∨ l.fraction ≠ none) ∧ ∀ e ∈ l.exponent, Exponent.scan? afterFraction = some (e, rest) := by
  simp only [scan?] at h
  split at h
  · cases h
  · rename_i hempty
    have hne : (spanDigits (Sign.scan cs).2).1 ≠ [] ∨
        (scanFraction (spanDigits (Sign.scan cs).2).1 (spanDigits (Sign.scan cs).2).2).1 ≠ none := by
      refine Decidable.or_iff_not_imp_left.mpr fun hwhole => ?_
      simpa [Decidable.not_not.mp hwhole] using hempty
    split at h <;> rename_i hexponent <;> obtain ⟨rfl, rfl⟩ := Prod.mk.inj (Option.some.inj h)
    · refine ⟨_, rfl, rfl, hne, fun e he => ?_⟩
      rw [← Option.some.inj he]
      exact hexponent
    · exact ⟨_, rfl, rfl, hne, fun e he => by cases he⟩

theorem length_scanExponent_le (cs : List Char) : (scanExponent cs).2.length ≤ cs.length := by
  rw [scanExponent]
  split
  · rename_i h
    exact Exponent.length_le_of_scan? h
  · exact Nat.le_refl _

theorem length_scanFraction_le (whole cs : List Char) : (scanFraction whole cs).2.length ≤ cs.length := by
  have h := congrArg List.length (fractionSpelling_append_scanFraction whole cs)
  rw [List.length_append] at h
  omega

theorem scanFraction_of_head (whole : List Char) {rest : List Char} (hrest : ∀ c ∈ rest.head?, c ≠ '.') :
    scanFraction whole rest = (none, rest) := by
  cases rest with
  | nil => rfl
  | cons c rest => simp [scanFraction, hrest c rfl]

theorem scanFraction_point {whole digits : List Char} (hdigits : ∀ c ∈ digits, isDigit c)
    (hne : whole ≠ [] ∨ digits ≠ []) (rest : List Char) :
    scanFraction whole ('.' :: (digits ++ rest)) =
      (some (digits ++ (spanDigits rest).1), (spanDigits rest).2) := by
  have hempty : ¬(whole.isEmpty && (digits ++ (spanDigits rest).1).isEmpty) := by
    rcases hne with h | h <;> simp [h]
  simp only [scanFraction, spanDigits_append_of_all hdigits, if_neg hempty]

theorem spanDigits_fraction (digits rest : List Char) :
    spanDigits (fractionSpelling (some digits) ++ rest) = ([], '.' :: (digits ++ rest)) :=
  spanDigits_of_head fun c hc => by
    obtain rfl := Option.some.inj hc
    decide

theorem Barrier.spanDigits {rest : List Char} (h : Barrier rest) : spanDigits rest = ([], rest) :=
  spanDigits_of_head fun c hc => (h c hc).1

theorem Barrier.scanFraction {rest : List Char} (h : Barrier rest) (whole : List Char) :
    scanFraction whole rest = (none, rest) :=
  scanFraction_of_head whole fun c hc => (h c hc).2.1

theorem Barrier.scanExponent {rest : List Char} (h : Barrier rest) : scanExponent rest = (none, rest) := by
  rw [Literal.scanExponent, Exponent.scan?_of_head fun c hc => (h c hc).2.2]

/-- The head of what follows the sign of a well-formed literal is a digit or the point. -/
theorem WellFormed.head {l : Literal} (hl : l.WellFormed) (rest : List Char) :
    ∃ c more, l.whole ++ (fractionSpelling l.fraction ++ (exponentSpelling l.exponent ++ rest)) = c :: more ∧
      (isDigit c ∨ c = '.') := by
  obtain ⟨sign, whole, fraction, exponent⟩ := l
  cases whole with
  | cons c whole => exact ⟨c, _, rfl, .inl (hl.whole c List.mem_cons_self)⟩
  | nil =>
      cases fraction with
      | some digits => exact ⟨'.', _, rfl, .inr rfl⟩
      | none => exact absurd rfl (hl.nonempty.resolve_left fun h => h rfl)

theorem WellFormed.scan_sign {l : Literal} (hl : l.WellFormed) (rest : List Char) :
    Sign.scan (l.spelling ++ rest) =
      (l.sign, l.whole ++ (fractionSpelling l.fraction ++ (exponentSpelling l.exponent ++ rest))) := by
  rw [spelling, List.append_assoc, List.append_assoc, List.append_assoc]
  apply Sign.scan_spelling_append
  intro c hc
  obtain ⟨d, more, hhead, hd⟩ := hl.head rest
  rw [hhead] at hc
  obtain rfl := Option.some.inj hc
  rcases hd with hd | rfl
  · exact ⟨fun h => absurd (h ▸ hd) (by decide), fun h => absurd (h ▸ hd) (by decide)⟩
  · exact ⟨by decide, by decide⟩

/-- What stands behind the fraction of a literal does not carry the fraction on. -/
theorem head_exponent {l : Literal} {rest : List Char}
    (h : l.exponent.isSome ∨ Barrier rest) :
    ∀ c ∈ (exponentSpelling l.exponent ++ rest).head?, ¬isDigit c ∧ c ≠ '.' := by
  cases hexponent : l.exponent with
  | none =>
      intro c hc
      rw [hexponent] at h
      have hbarrier := h.resolve_left (by simp) c hc
      exact ⟨hbarrier.1, hbarrier.2.1⟩
  | some e =>
      intro c hc
      obtain rfl := Option.some.inj hc
      exact ⟨not_isDigit_mark e.capital, by cases e.capital <;> decide⟩

/-- The scanner takes a literal apart into its parts, the exponent being looked for last. -/
theorem WellFormed.scan?_append {l : Literal} (hl : l.WellFormed) {rest : List Char}
    (h : l.exponent.isSome ∨ Barrier rest) :
    scan? (l.spelling ++ rest) =
      some ({ l with exponent := (scanExponent (exponentSpelling l.exponent ++ rest)).1 },
        (scanExponent (exponentSpelling l.exponent ++ rest)).2) := by
  have hhead := head_exponent h
  have hspan := spanDigits_of_head fun c hc => (hhead c hc).1
  obtain ⟨sign, whole, fraction, exponent⟩ := l
  cases fraction with
  | none =>
      refine scan?_of_steps (hl.scan_sign rest) ?_ (scanFraction_of_head _ fun c hc => (hhead c hc).2)
        (.inl (hl.nonempty.resolve_right fun h => h rfl))
      simp only [fractionSpelling, List.nil_append, spanDigits_append_of_all hl.whole, hspan, List.append_nil]
  | some digits =>
      have hfraction := @scanFraction_point whole digits hl.fraction hl.nonempty
        (exponentSpelling exponent ++ rest)
      simp only [hspan, List.append_nil] at hfraction
      refine scan?_of_steps (hl.scan_sign rest) ?_ hfraction (.inr (by simp))
      simp only [spanDigits_append_of_all hl.whole, spanDigits_fraction, List.append_nil]

/-- A well-formed literal in front of a barrier is found. -/
theorem scan?_spelling_append {l : Literal} (hl : l.WellFormed) {rest : List Char} (hrest : Barrier rest) :
    scan? (l.spelling ++ rest) = some (l, rest) := by
  rw [hl.scan?_append (.inr hrest)]
  obtain ⟨sign, whole, fraction, exponent⟩ := l
  cases exponent with
  | none => simp only [exponentSpelling, List.nil_append, hrest.scanExponent]
  | some e =>
      have hscan := Exponent.scan?_spelling_append (hl.exponent e rfl) rest
      simp only [hrest.spanDigits, List.append_nil] at hscan
      simp only [exponentSpelling, scanExponent, hscan]

/-- If a text begins with a well-formed literal, a literal is found that is at least as long. -/
theorem exists_scan?_append {l : Literal} (hl : l.WellFormed) (rest : List Char) :
    ∃ l' rest', scan? (l.spelling ++ rest) = some (l', rest') ∧ rest'.length ≤ rest.length := by
  obtain ⟨sign, whole, fraction, exponent⟩ := l
  cases exponent with
  | some e =>
      refine ⟨_, _, hl.scan?_append (.inl rfl), ?_⟩
      simp only [exponentSpelling, scanExponent, Exponent.scan?_spelling_append (hl.exponent e rfl) rest]
      exact length_spanDigits_le rest
  | none =>
      have hwhole := spanDigits_append_of_all hl.whole (fractionSpelling fraction ++ rest)
      cases fraction with
      | none =>
          have hne : whole ++ (spanDigits rest).1 ≠ [] := by
            simp [hl.nonempty.resolve_right fun h => h rfl]
          refine ⟨_, _, scan?_of_steps (hl.scan_sign rest) hwhole rfl (.inl hne), ?_⟩
          exact Nat.le_trans (length_scanExponent_le _)
            (Nat.le_trans (length_scanFraction_le _ _) (length_spanDigits_le rest))
      | some digits =>
          simp only [spanDigits_fraction, List.append_nil] at hwhole
          refine ⟨_, _, scan?_of_steps (hl.scan_sign rest) hwhole
            (scanFraction_point hl.fraction hl.nonempty rest) (.inr (by simp)), ?_⟩
          exact Nat.le_trans (length_scanExponent_le _) (length_spanDigits_le rest)

theorem fraction_of_scanFraction {whole cs rest : List Char} {fraction : Option (List Char)}
    (h : scanFraction whole cs = (fraction, rest)) (hne : whole ≠ [] ∨ fraction ≠ none) :
    (∀ c ∈ fraction.getD [], isDigit c) ∧ (whole ≠ [] ∨ fraction.getD [] ≠ []) := by
  unfold scanFraction at h
  split at h
  · simp only at h
    split at h <;> rename_i hempty <;> obtain ⟨rfl, -⟩ := Prod.mk.inj h
    · simpa using hne
    · refine ⟨fun c hc => isDigit_of_mem_spanDigits hc, ?_⟩
      refine Decidable.or_iff_not_imp_left.mpr fun hwhole => ?_
      simpa [Decidable.not_not.mp hwhole] using hempty
  · obtain ⟨rfl, -⟩ := Prod.mk.inj h
    simpa using hne

theorem wellFormed_of_scan? {cs rest : List Char} {l : Literal} (h : scan? cs = some (l, rest)) :
    l.WellFormed := by
  obtain ⟨afterFraction, hwhole, hfraction, hne, hexponent⟩ := steps_of_scan? h
  obtain ⟨hdigits, hnonempty⟩ := fraction_of_scanFraction hfraction hne
  refine ⟨fun c hc => ?_, hdigits, hnonempty, fun e he => Exponent.wellFormed_of_scan? (hexponent e he)⟩
  rw [hwhole] at hc
  exact isDigit_of_mem_spanDigits hc

/-- The literal that is found is the longest of those that the text begins with. -/
theorem length_le_of_scan? {cs rest : List Char} {l : Literal} (h : scan? cs = some (l, rest)) {l' : Literal}
    (hl' : l'.WellFormed) (hbegins : l'.spelling <+: cs) : l'.spelling.length ≤ l.spelling.length := by
  obtain ⟨rest', rfl⟩ := hbegins
  obtain ⟨found, after, hfound, hle⟩ := exists_scan?_append hl' rest'
  obtain ⟨rfl, rfl⟩ := Prod.mk.inj (Option.some.inj (hfound.symm.trans h))
  have hlength := congrArg List.length (spelling_append_of_scan? h)
  rw [List.length_append, List.length_append] at hlength
  omega

end Literal
end Progression.Text
