import Progression.Proofs.Text.IntegerNumeral

/-! # Texts that write integers

A text writes an integer by a sign and decimal digits of any script, with single underscores between digits and with
blanks on either side. Main statement: `readInt?_eq_some_iff`. A text is read as the integer that it writes if its
digits are not too many, and no other text is read. -/

namespace Progression.Text

/-- The parts of a text that writes an integer: blanks, a sign, digits, further digits with an underscore in front of
each group of them, and blanks. -/
structure IntegerText where
  before : List Char
  sign : Sign
  lead : List Char
  groups : List (List Char)
  after : List Char
  blank_before : ∀ c ∈ before, isNumeralBlank c
  blank_after : ∀ c ∈ after, isNumeralBlank c
  lead_ne_nil : lead ≠ []
  digit_lead : ∀ c ∈ lead, isDigit c
  digit_groups : ∀ ds ∈ groups, ds ≠ [] ∧ ∀ c ∈ ds, isDigit c

/-- Groups of digits with an underscore in front of each. -/
def underscored (groups : List (List Char)) : List Char := groups.flatMap ('_' :: ·)

namespace IntegerText

/-- The sign, the digits and the underscores. -/
def body (t : IntegerText) : List Char := t.sign.spelling ++ (t.lead ++ underscored t.groups)

def chars (t : IntegerText) : List Char := t.before ++ t.body ++ t.after

/-- The digits alone. -/
def digits (t : IntegerText) : List Char := t.lead ++ t.groups.flatten

def value (t : IntegerText) : Int :=
  if t.sign = .minus then -(digitsValue t.digits : Int) else digitsValue t.digits

end IntegerText

section Trim

variable {p : Char → Bool}

/-- What is trimmed away stands at the two ends. -/
theorem exists_trim (p : Char → Bool) (cs : List Char) :
    ∃ before after, cs = before ++ trim p cs ++ after ∧ (∀ c ∈ before, p c) ∧ ∀ c ∈ after, p c := by
  have hends (ds : List Char) : (ds.reverse.dropWhile p).reverse ++ (ds.reverse.takeWhile p).reverse = ds := by
    rw [← List.reverse_append, List.takeWhile_append_dropWhile, List.reverse_reverse]
  have hall (ds : List Char) : ∀ c ∈ ds.takeWhile p, p c := List.all_eq_true.mp List.all_takeWhile
  refine ⟨cs.takeWhile p, ((cs.dropWhile p).reverse.takeWhile p).reverse, ?_, hall cs,
    fun c hc => hall _ c (List.mem_reverse.mp hc)⟩
  rw [trim, List.append_assoc, hends, List.takeWhile_append_dropWhile]

theorem trim_append {before body after : List Char} (hbefore : ∀ c ∈ before, p c) (hafter : ∀ c ∈ after, p c)
    (hne : body ≠ []) (hbody : ∀ c ∈ body, p c = false) : trim p (before ++ body ++ after) = body := by
  have hdrop (blanks rest ds : List Char) (hblanks : ∀ c ∈ blanks, p c) (hds : ds ≠ []) (hp : ∀ c ∈ ds, p c = false) :
      (blanks ++ (ds ++ rest)).dropWhile p = ds ++ rest := by
    obtain ⟨d, ds, rfl⟩ := List.exists_cons_of_ne_nil hds
    rw [List.dropWhile_append_of_pos hblanks, List.cons_append,
      List.dropWhile_cons_of_neg (by simp [hp d List.mem_cons_self])]
  have hback := hdrop after.reverse [] body.reverse (fun c hc => hafter c (List.mem_reverse.mp hc))
    (fun h => hne (List.reverse_eq_nil_iff.mp h)) fun c hc => hbody c (List.mem_reverse.mp hc)
  rw [List.append_nil] at hback
  rw [trim, List.append_assoc, hdrop before after body hbefore hne hbody, List.reverse_append, hback,
    List.reverse_reverse]

end Trim

theorem ungroupFrom?_cons {c : Char} (hc : c ≠ '_') (afterDigit : Bool) (cs : List Char) :
    ungroupFrom? afterDigit (c :: cs) = (ungroupFrom? (isDigit c) cs).map (c :: ·) := by
  rw [ungroupFrom?, if_neg hc]
  rintro d ds rfl
  exact absurd rfl hc

theorem isDigit_ne_underscore {c : Char} (hc : isDigit c) : c ≠ '_' := by
  rintro rfl
  exact absurd hc (by decide)

/-- Digits stay, and what follows them stands behind a digit. -/
theorem ungroupFrom?_append {afterDigit : Bool} {ds : List Char} (hds : ∀ c ∈ ds, isDigit c)
    (hafter : ds = [] → afterDigit = true) (rest : List Char) :
    ungroupFrom? afterDigit (ds ++ rest) = (ungroupFrom? true rest).map (ds ++ ·) := by
  induction ds generalizing afterDigit with
  | nil =>
      rw [hafter rfl]
      exact Option.map_id'.symm
  | cons d ds ih =>
      obtain ⟨hd, hds⟩ := List.forall_mem_cons.mp hds
      rw [List.cons_append, ungroupFrom?_cons (isDigit_ne_underscore hd), ih hds fun _ => hd, Option.map_map]
      rfl

theorem ungroupFrom?_underscored {groups : List (List Char)}
    (hgroups : ∀ ds ∈ groups, ds ≠ [] ∧ ∀ c ∈ ds, isDigit c) :
    ungroupFrom? true (underscored groups) = some groups.flatten := by
  induction groups with
  | nil => rfl
  | cons ds groups ih =>
      obtain ⟨⟨hne, hds⟩, hgroups⟩ := List.forall_mem_cons.mp hgroups
      replace ih := ih hgroups
      obtain ⟨d, ds, rfl⟩ := List.exists_cons_of_ne_nil hne
      obtain ⟨hd, hds⟩ := List.forall_mem_cons.mp hds
      show ungroupFrom? true ('_' :: d :: (ds ++ underscored groups)) = _
      rw [ungroupFrom?, if_pos (by rw [Bool.true_and]; exact hd), ungroupFrom?_append hds fun _ => rfl, ih]
      rfl

/-- Where only digits are left, the underscores stood between groups of digits. -/
theorem exists_groups_of_ungroupFrom? {afterDigit : Bool} {cs ds : List Char} (h : ungroupFrom? afterDigit cs = some ds)
    (hds : ∀ c ∈ ds, isDigit c) :
    ∃ lead groups, cs = lead ++ underscored groups ∧ ds = lead ++ groups.flatten ∧
      (∀ group ∈ groups, group ≠ [] ∧ ∀ c ∈ group, isDigit c) ∧ (lead = [] → groups = [] ∨ afterDigit) := by
  fun_induction ungroupFrom? afterDigit cs generalizing ds with
  | case1 =>
      obtain rfl := Option.some.inj h
      exact ⟨[], [], rfl, rfl, fun _ hgroup => absurd hgroup List.not_mem_nil, fun _ => .inl rfl⟩
  | case2 afterDigit c cs hc ih =>
      obtain ⟨es, hes, rfl⟩ := Option.map_eq_some_iff.mp h
      obtain ⟨hdigit, hds⟩ := List.forall_mem_cons.mp hds
      obtain ⟨lead, groups, rfl, rfl, hgroups, -⟩ := ih hes hds
      have hlead : ∀ d ∈ c :: lead, isDigit d :=
        List.forall_mem_cons.mpr ⟨hdigit, fun d hd => hds d (List.mem_append_left _ hd)⟩
      exact ⟨[], (c :: lead) :: groups, rfl, rfl, List.forall_mem_cons.mpr ⟨⟨List.cons_ne_nil _ _, hlead⟩, hgroups⟩,
        fun _ => .inr (Bool.and_eq_true_iff.mp hc).1⟩
  | case3 => cases h
  | case4 => cases h
  | case5 afterDigit c cs _ _ ih =>
      obtain ⟨es, hes, rfl⟩ := Option.map_eq_some_iff.mp h
      obtain ⟨lead, groups, rfl, rfl, hgroups, -⟩ := ih hes (List.forall_mem_cons.mp hds).2
      exact ⟨c :: lead, groups, rfl, rfl, hgroups, fun hnil => absurd hnil (List.cons_ne_nil _ _)⟩

theorem exists_of_signedDigits? {cs : List Char} {n : Int} (h : signedDigits? cs = some n) :
    ∃ (sign : Sign) (ds : List Char), cs = sign.spelling ++ ds ∧ ds ≠ [] ∧ (∀ c ∈ ds, isDigit c) ∧
      n = if sign = .minus then -(digitsValue ds : Int) else digitsValue ds := by
  refine ⟨(Sign.scan cs).1, (Sign.scan cs).2, (Sign.spelling_append_scan cs).symm, ?_⟩
  rw [signedDigits?] at h
  simp only at h
  split at h
  · cases h
  · rename_i hdigits
    simp only [Bool.or_eq_true, Bool.not_eq_true', not_or, Bool.not_eq_true, Bool.not_eq_false,
      List.all_eq_true] at hdigits
    refine ⟨List.isEmpty_eq_false_iff.mp hdigits.1, hdigits.2, ?_⟩
    split at h
    · rename_i hsign
      rw [if_pos hsign, Option.some.inj h]
    · rename_i hsign
      rw [if_neg hsign, Option.some.inj h]

/-- A sign in front is no digit, and so no underscore follows it. -/
theorem ungroupFrom?_sign_append (sign : Sign) (cs : List Char) :
    ungroupFrom? false (sign.spelling ++ cs) = (ungroupFrom? false cs).map (sign.spelling ++ ·) := by
  cases sign with
  | absent => exact Option.map_id'.symm
  | plus => exact ungroupFrom?_cons (by decide) false cs
  | minus => exact ungroupFrom?_cons (by decide) false cs

/-- What is left of a text begins with the text's own first character. -/
theorem exists_of_ungroupFrom?_cons {c : Char} {cs ds : List Char} (h : ungroupFrom? false cs = some (c :: ds)) :
    ∃ rest, cs = c :: rest ∧ ungroupFrom? (isDigit c) rest = some ds := by
  cases cs with
  | nil => cases h
  | cons d rest =>
      by_cases hd : d = '_'
      · subst hd
        cases rest <;> cases h
      · rw [ungroupFrom?_cons hd] at h
        obtain ⟨es, hes, heq⟩ := Option.map_eq_some_iff.mp h
        obtain ⟨rfl, rfl⟩ := List.cons_eq_cons.mp heq
        exact ⟨rest, rfl, hes⟩

theorem exists_of_ungroupFrom?_sign {sign : Sign} {cs ds : List Char}
    (h : ungroupFrom? false cs = some (sign.spelling ++ ds)) :
    ∃ rest, cs = sign.spelling ++ rest ∧ ungroupFrom? false rest = some ds := by
  cases sign with
  | absent => exact ⟨cs, rfl, h⟩
  | plus => exact exists_of_ungroupFrom?_cons h
  | minus => exact exists_of_ungroupFrom?_cons h

namespace IntegerText

variable (t : IntegerText)

theorem digits_ne_nil : t.digits ≠ [] := List.append_ne_nil_of_left_ne_nil t.lead_ne_nil _

theorem isDigit_of_mem_digits {c : Char} (hc : c ∈ t.digits) : isDigit c := by
  rcases List.mem_append.mp hc with hlead | hgroups
  · exact t.digit_lead c hlead
  · obtain ⟨ds, hds, hc⟩ := List.mem_flatten.mp hgroups
    exact (t.digit_groups ds hds).2 c hc

/-- Between the blanks there is none. -/
theorem isNumeralBlank_of_mem_body {c : Char} (hc : c ∈ t.body) : isNumeralBlank c = false := by
  rcases List.mem_append.mp hc with hsign | hc
  · have hspelling : ∀ sign : Sign, ∀ c ∈ sign.spelling, isNumeralBlank c = false := by
      intro sign
      cases sign with
      | absent => exact fun c hc => absurd hc List.not_mem_nil
      | plus => exact List.forall_mem_singleton.mpr (by decide)
      | minus => exact List.forall_mem_singleton.mpr (by decide)
    exact hspelling t.sign c hsign
  · rcases List.mem_append.mp hc with hlead | hgroups
    · exact isNumeralBlank_of_isDigit (t.digit_lead c hlead)
    · obtain ⟨ds, hds, hc⟩ := List.mem_flatMap.mp hgroups
      rcases List.mem_cons.mp hc with rfl | hc
      · decide
      · exact isNumeralBlank_of_isDigit ((t.digit_groups ds hds).2 c hc)

theorem body_ne_nil : t.body ≠ [] :=
  List.append_ne_nil_of_right_ne_nil _ (List.append_ne_nil_of_left_ne_nil t.lead_ne_nil _)

theorem numeral?_chars : numeral? t.chars = some (t.sign.spelling ++ t.digits) := by
  have htrim : trim isNumeralBlank t.chars = t.body :=
    trim_append t.blank_before t.blank_after t.body_ne_nil fun c => t.isNumeralBlank_of_mem_body
  rw [numeral?, htrim, body, ungroupFrom?_sign_append,
    ungroupFrom?_append t.digit_lead fun hnil => absurd hnil t.lead_ne_nil, ungroupFrom?_underscored t.digit_groups]
  rfl

/-- The digits and the underscores between them are what is counted. -/
theorem leadingDigits_chars : leadingDigits t.chars = t.digits := by
  have hrun : ∀ c ∈ t.lead ++ underscored t.groups, isDigit c || c == '_' := by
    intro c hc
    rcases List.mem_append.mp hc with hlead | hgroups
    · exact Bool.or_eq_true_iff.mpr (.inl (t.digit_lead c hlead))
    · obtain ⟨ds, hds, hc⟩ := List.mem_flatMap.mp hgroups
      rcases List.mem_cons.mp hc with rfl | hc
      · rfl
      · exact Bool.or_eq_true_iff.mpr (.inl ((t.digit_groups ds hds).2 c hc))
  have hafter : ∀ c ∈ t.after, (isDigit c || c == '_') = false := by
    intro c hc
    rw [Bool.eq_false_iff]
    intro hrun
    have hblank := t.blank_after c hc
    rcases Bool.or_eq_true_iff.mp hrun with hdigit | hunderscore
    · exact Bool.false_ne_true ((isNumeralBlank_of_isDigit hdigit).symm.trans hblank)
    · rw [beq_iff_eq.mp hunderscore] at hblank
      exact absurd hblank (by decide)
  have hne : t.lead ++ underscored t.groups ≠ [] := List.append_ne_nil_of_left_ne_nil t.lead_ne_nil _
  rw [chars, body, List.append_assoc, List.append_assoc, leadingDigits_append t.blank_before t.sign hne hrun hafter,
    ungroupFrom?_append t.digit_lead fun hnil => absurd hnil t.lead_ne_nil, ungroupFrom?_underscored t.digit_groups]
  rfl

theorem readInt?_chars : readInt? t.chars = if digitLimit < t.digits.length then none else some t.value := by
  rw [readInt?, t.leadingDigits_chars, t.numeral?_chars, Option.bind_some,
    signedDigits?_of_digits t.sign t.digits_ne_nil fun c => t.isDigit_of_mem_digits]
  rfl

end IntegerText

/-- A text with an integer in it has the parts of one that writes an integer. -/
theorem exists_of_numeral? {cs : List Char} {n : Int} (h : (numeral? cs).bind signedDigits? = some n) :
    ∃ t : IntegerText, t.chars = cs ∧ t.value = n := by
  obtain ⟨ds, hnumeral, hsigned⟩ := Option.bind_eq_some_iff.mp h
  obtain ⟨sign, ds, rfl, hne, hds, rfl⟩ := exists_of_signedDigits? hsigned
  obtain ⟨before, after, hcs, hbefore, hafter⟩ := exists_trim isNumeralBlank cs
  obtain ⟨rest, hrest, hungroup⟩ := exists_of_ungroupFrom?_sign hnumeral
  obtain ⟨lead, groups, rfl, rfl, hgroups, hlead⟩ := exists_groups_of_ungroupFrom? hungroup hds
  have hlead_ne : lead ≠ [] := by
    rintro rfl
    rcases hlead rfl with rfl | hfalse
    · exact hne rfl
    · cases hfalse
  refine ⟨⟨before, sign, lead, groups, after, hbefore, hafter, hlead_ne,
    fun c hc => hds c (List.mem_append_left _ hc), hgroups⟩, ?_, rfl⟩
  rw [hcs, hrest]
  rfl

/-- The texts that write an integer with no more digits than the limit are read as it, and no other text is read. -/
theorem readInt?_eq_some_iff {cs : List Char} {n : Int} :
    readInt? cs = some n ↔ ∃ t : IntegerText, t.chars = cs ∧ t.value = n ∧ t.digits.length ≤ digitLimit := by
  constructor
  · intro h
    have hlimit : ¬digitLimit < (leadingDigits cs).length := by
      intro hlimit
      rw [readInt?, if_pos hlimit] at h
      cases h
    rw [readInt?, if_neg hlimit] at h
    obtain ⟨t, rfl, rfl⟩ := exists_of_numeral? h
    rw [t.leadingDigits_chars] at hlimit
    exact ⟨t, rfl, rfl, Nat.not_lt.mp hlimit⟩
  · rintro ⟨t, rfl, rfl, hlimit⟩
    rw [t.readInt?_chars, if_neg (Nat.not_lt.mpr hlimit)]

/-- The text writes the integer, with as many digits as it likes. -/
def WritesInt (text : String) (n : Int) : Prop := ∃ t : IntegerText, t.chars = text.toList ∧ t.value = n

/-- The text writes the integer with no more digits than may be read. Leading zeros count. -/
def WritesShort (text : String) (n : Int) : Prop :=
  ∃ t : IntegerText, t.chars = text.toList ∧ t.value = n ∧ t.digits.length ≤ digitLimit

/-- What is written with few digits has few digits. -/
theorem WritesShort.hasFewDigits {text : String} {n : Int} (h : WritesShort text n) : hasFewDigits n := by
  obtain ⟨t, -, rfl, hlimit⟩ := h
  have habs : t.value.natAbs = digitsValue t.digits := by
    unfold IntegerText.value
    split
    · exact (Int.natAbs_neg _).trans (Int.natAbs_natCast _)
    · exact Int.natAbs_natCast _
  rw [Text.hasFewDigits, habs, decide_eq_true_eq]
  exact Nat.lt_of_lt_of_le (digitsValue_lt _) (Nat.pow_le_pow_right (by decide) hlimit)

theorem isSome_readInt?_iff {text : String} : (readInt? text.toList).isSome ↔ ∃ n, WritesShort text n := by
  rw [Option.isSome_iff_exists]
  exact exists_congr fun n => readInt?_eq_some_iff

end Progression.Text
