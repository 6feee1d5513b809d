import Mathlib.Data.List.TakeWhile
import Progression.Proofs.Double.ReadBack
import Progression.Proofs.Text.DecimalDigits

/-! # Doubles as literals

Every finite double is written as a literal, in every layout and whether or not with an exponent, and this
literal is read as the same double, its sign included. -/

namespace Progression.Double

/-- The number that digits write if the first of them counts `10 ^ lead`. -/
def digitsRat (ds : List Char) (lead : Int) : ℚ :=
  decimalRat (Text.digitsValue ds) (lead + 1 - ds.length)

theorem digitsRat_append_zeros (ds : List Char) (n : Nat) (lead : Int) :
    digitsRat (ds ++ zeros n) lead = digitsRat ds lead := by
  rw [digitsRat, zeros, Text.digitsValue_append, Text.digitsValue_replicate_zero, Nat.add_zero,
    List.length_replicate, decimalRat_mul_pow, digitsRat]
  congr 1
  rw [List.length_append, List.length_replicate]
  omega

theorem digitsRat_zeros_append (n : Nat) (ds : List Char) (lead : Int) :
    digitsRat (zeros n ++ ds) lead = digitsRat ds (lead - n) := by
  rw [digitsRat, zeros, Text.digitsValue_append, Text.digitsValue_replicate_zero, Nat.zero_mul, Nat.zero_add,
    digitsRat]
  congr 1
  rw [List.length_append, List.length_replicate]
  omega

theorem take_append_trailingZeros (ds : List Char) :
    ds.take (ds.length - trailingZeros ds) ++ zeros (trailingZeros ds) = ds := by
  have hzeros : ds.reverse.takeWhile (· == '0') = zeros (trailingZeros ds) := by
    refine List.eq_replicate_iff.mpr ⟨rfl, fun c hc => ?_⟩
    exact beq_iff_eq.mp (List.mem_takeWhile_imp (p := (· == '0')) hc)
  have hsplit : (ds.reverse.dropWhile (· == '0')).reverse ++ zeros (trailingZeros ds) = ds := by
    have hreverse := congrArg List.reverse (@List.takeWhile_append_dropWhile _ (· == '0') ds.reverse)
    rwa [List.reverse_append, List.reverse_reverse, hzeros, zeros, List.reverse_replicate] at hreverse
  have hlength := congrArg List.length hsplit
  rw [List.length_append, zeros, List.length_replicate] at hlength
  have htake := List.prefix_iff_eq_take.mp ⟨_, hsplit⟩
  have hkept : ds.length - trailingZeros ds = (ds.reverse.dropWhile (· == '0')).reverse.length := by
    omega
  rw [hkept, ← htake, hsplit]

/-- Zeros behind digits count nothing. -/
theorem digitsRat_significantDigits (ds : List Char) (lead : Int) :
    digitsRat (significantDigits ds) lead = digitsRat ds lead := by
  have hsplit := take_append_trailingZeros ds
  simp only [significantDigits]
  split
  · rename_i hempty
    rw [List.isEmpty_iff.mp hempty, List.nil_append] at hsplit
    rw [← hsplit, ← List.nil_append (zeros _), digitsRat_append_zeros]
    exact (decimalRat_zero _).trans (decimalRat_zero _).symm
  · conv_rhs => rw [← hsplit]
    rw [digitsRat_append_zeros]

/-- A text is a literal without sign, of the number `r`. -/
def Writes (cs : List Char) (r : ℚ) : Prop :=
  ∃ l : Text.Literal, l.WellFormed ∧ l.sign = .absent ∧ l.spelling = cs ∧ decimalRat l.coefficient l.scale = r

theorem isDigit_of_mem_zeros {n : Nat} {c : Char} (h : c ∈ zeros n) : Text.isDigit c := by
  obtain rfl := List.eq_of_mem_replicate h
  rfl

theorem isDigit_of_mem_significantDigits {ds : List Char} (hds : ∀ c ∈ ds, Text.isDigit c) :
    ∀ c ∈ significantDigits ds, Text.isDigit c := by
  intro c hc
  simp only [significantDigits] at hc
  split at hc
  · obtain rfl := List.mem_singleton.mp hc
    rfl
  · exact hds c (List.mem_of_mem_take hc)

theorem significantDigits_ne_nil (ds : List Char) : significantDigits ds ≠ [] := by
  simp only [significantDigits]
  split
  · exact List.cons_ne_nil _ _
  · rename_i hkept
    intro hnil
    exact hkept (List.isEmpty_iff.mpr hnil)

/-- The first digit of a literal counts the power of ten that is left of the point, raised by the exponent. -/
theorem writes_literal {whole : List Char} (fraction : Option (List Char)) (exponent : Option Text.Exponent)
    (hwhole : ∀ c ∈ whole, Text.isDigit c) (hne : whole ≠ []) (hfraction : ∀ c ∈ fraction.getD [], Text.isDigit c)
    (hexponent : ∀ e ∈ exponent, e.WellFormed) :
    Writes (whole ++ (Text.Literal.fractionSpelling fraction ++ Text.Literal.exponentSpelling exponent))
      (digitsRat (whole ++ fraction.getD []) (exponent.elim 0 Text.Exponent.value + whole.length - 1)) := by
  refine ⟨⟨.absent, whole, fraction, exponent⟩, ⟨hwhole, hfraction, .inl hne, hexponent⟩, rfl, rfl, ?_⟩
  rw [digitsRat, List.length_append]
  apply congrArg
  cases exponent with
  | none =>
      simp only [Text.Literal.scale, Text.Literal.fractionDigits, Option.elim_none]
      omega
  | some e =>
      simp only [Text.Literal.scale, Text.Literal.fractionDigits, Option.elim_some]
      omega

theorem writes_whole {whole : List Char} (hwhole : ∀ c ∈ whole, Text.isDigit c) (hne : whole ≠ []) :
    Writes whole (digitsRat whole (whole.length - 1)) := by
  have hwrites := writes_literal none none hwhole hne (by simp) (by simp)
  simpa [Text.Literal.fractionSpelling, Text.Literal.exponentSpelling] using hwrites

theorem writes_point {whole digits : List Char} (hwhole : ∀ c ∈ whole, Text.isDigit c) (hne : whole ≠ [])
    (hdigits : ∀ c ∈ digits, Text.isDigit c) :
    Writes (whole ++ '.' :: digits) (digitsRat (whole ++ digits) (whole.length - 1)) := by
  have hwrites := writes_literal (some digits) none hwhole hne hdigits (by simp)
  simpa [Text.Literal.fractionSpelling, Text.Literal.exponentSpelling] using hwrites

/-- Where no digit stands in front of the point, the first one behind it counts tenths. -/
theorem writes_fraction {digits : List Char} (hdigits : ∀ c ∈ digits, Text.isDigit c) (hne : digits ≠ []) :
    Writes ('.' :: digits) (digitsRat digits (-1)) := by
  have hwellFormed : (⟨.absent, [], some digits, none⟩ : Text.Literal).WellFormed :=
    ⟨by simp, hdigits, .inr hne, by simp⟩
  refine ⟨_, hwellFormed, rfl, ?_, rfl⟩
  simp [Text.Literal.spelling, Text.Sign.spelling, Text.Literal.fractionSpelling, Text.Literal.exponentSpelling]

theorem isDigit_of_mem_append {ds es : List Char} (hds : ∀ c ∈ ds, Text.isDigit c) (hes : ∀ c ∈ es, Text.isDigit c) :
    ∀ c ∈ ds ++ es, Text.isDigit c := by
  intro c hc
  exact (List.mem_append.mp hc).elim (hds c) (hes c)

section Positional

variable (layout : Layout) {ds : List Char} (hds : ∀ c ∈ ds, Text.isDigit c) {lead : Int}
include hds

theorem writes_small (hlead : lead < 0) : Writes (layout.positional ds lead) (digitsRat ds lead) := by
  have hdigits : ∀ c ∈ zeros (-lead - 1).toNat ++ ds, Text.isDigit c :=
    isDigit_of_mem_append (fun _ => isDigit_of_mem_zeros) hds
  have hwrites := writes_point (@isDigit_of_mem_zeros 1) (List.cons_ne_nil _ _) hdigits
  rw [digitsRat_zeros_append, digitsRat_zeros_append] at hwrites
  have hexponent : ((zeros 1).length : Int) - 1 - (1 : Nat) - (-lead - 1).toNat = lead := by
    rw [zeros, List.length_replicate]
    omega
  rw [hexponent] at hwrites
  rw [Layout.positional, if_pos hlead]
  exact hwrites

theorem writes_padded (hne : ds ≠ []) (hlead : ¬lead < 0) (hlength : ds.length ≤ lead.toNat + 1) :
    Writes (layout.positional ds lead) (digitsRat ds lead) := by
  have hwhole : ∀ c ∈ ds ++ zeros (lead.toNat + 1 - ds.length), Text.isDigit c :=
    isDigit_of_mem_append hds fun _ => isDigit_of_mem_zeros
  have hexponent : ((ds ++ zeros (lead.toNat + 1 - ds.length)).length : Int) - 1 = lead := by
    rw [List.length_append, zeros, List.length_replicate]
    omega
  rw [Layout.positional, if_neg hlead]
  simp only [if_pos hlength]
  cases layout.keepPoint with
  | true =>
      have hwrites := writes_point hwhole (List.append_ne_nil_of_left_ne_nil hne _) (@isDigit_of_mem_zeros 1)
      rwa [hexponent, digitsRat_append_zeros, digitsRat_append_zeros] at hwrites
  | false =>
      have hwrites := writes_whole hwhole (List.append_ne_nil_of_left_ne_nil hne _)
      rw [hexponent, digitsRat_append_zeros] at hwrites
      simpa using hwrites

theorem writes_split (hne : ds ≠ []) (hlead : ¬lead < 0) (hlength : ¬ds.length ≤ lead.toNat + 1) :
    Writes (layout.positional ds lead) (digitsRat ds lead) := by
  have htake : ∀ c ∈ ds.take (lead.toNat + 1), Text.isDigit c := fun c hc => hds c (List.mem_of_mem_take hc)
  have hdrop : ∀ c ∈ ds.drop (lead.toNat + 1), Text.isDigit c := fun c hc => hds c (List.mem_of_mem_drop hc)
  have hwrites := writes_point htake (by simp [hne]) hdrop
  have hexponent : ((ds.take (lead.toNat + 1)).length : Int) - 1 = lead := by
    rw [List.length_take]
    omega
  rw [hexponent, List.take_append_drop] at hwrites
  rw [Layout.positional, if_neg hlead]
  simpa only [if_neg hlength] using hwrites

/-- Where the point stands, and the zeros up to it, agree with the power of the first digit. -/
theorem writes_positional (hne : ds ≠ []) (lead : Int) : Writes (layout.positional ds lead) (digitsRat ds lead) := by
  by_cases hlead : lead < 0
  · exact writes_small layout hds hlead
  · by_cases hlength : ds.length ≤ lead.toNat + 1
    · exact writes_padded layout hds hne hlead hlength
    · exact writes_split layout hds hne hlead hlength

end Positional

/-- The exponent that `exponentText` writes. -/
def exponentPart (lead : Int) : Text.Exponent :=
  ⟨false, if lead < 0 then .minus else .plus,
    zeros (2 - (Text.decimalDigits lead.natAbs).length) ++ Text.decimalDigits lead.natAbs⟩

theorem exponentPart_spelling (lead : Int) : (exponentPart lead).spelling = exponentText lead := by
  rw [exponentPart, exponentText, Text.Exponent.spelling]
  split <;> rfl

theorem exponentPart_wellFormed (lead : Int) : (exponentPart lead).WellFormed where
  nonempty := List.append_ne_nil_of_right_ne_nil _ (Text.decimalDigits_ne_nil _)
  digits := isDigit_of_mem_append (fun _ => isDigit_of_mem_zeros) fun _ => Text.isDigit_of_mem_decimalDigits

theorem exponentPart_value (lead : Int) : (exponentPart lead).value = lead := by
  have hdigits : Text.digitsValue (exponentPart lead).digits = lead.natAbs := by
    rw [exponentPart, zeros, Text.digitsValue_append, Text.digitsValue_replicate_zero, Nat.zero_mul, Nat.zero_add,
      Text.digitsValue_decimalDigits]
  have hsign : (exponentPart lead).sign = if lead < 0 then .minus else .plus := rfl
  rw [Text.Exponent.value, hdigits, hsign]
  by_cases hlead : lead < 0
  · rw [if_pos hlead, if_pos rfl]
    omega
  · rw [if_neg hlead, if_neg (by decide)]
    omega

theorem writes_scientific {ds : List Char} (hds : ∀ c ∈ ds, Text.isDigit c) (hne : ds ≠ []) (lead : Int) :
    Writes (scientific ds lead) (digitsRat ds lead) := by
  have hexponent : ∀ e ∈ some (exponentPart lead), e.WellFormed := by
    rintro e ⟨⟩
    exact exponentPart_wellFormed lead
  have hfirst : ∀ d more, ds = d :: more → ∀ c ∈ [d], Text.isDigit c := by
    intro d more hcons c hc
    obtain rfl := List.mem_singleton.mp hc
    exact hds c (hcons ▸ List.mem_cons_self)
  have hlead : (some (exponentPart lead)).elim 0 Text.Exponent.value + ((1 : Nat) : Int) - 1 = lead := by
    rw [Option.elim_some, exponentPart_value]
    omega
  match ds with
  | [] => exact absurd rfl hne
  | [d] =>
      have hwrites := writes_literal none (some (exponentPart lead)) (hfirst d [] rfl) hne (by simp) hexponent
      rw [List.length_singleton, hlead] at hwrites
      rw [scientific, ← exponentPart_spelling]
      exact hwrites
  | d :: d' :: more =>
      have hmore : ∀ c ∈ d' :: more, Text.isDigit c := fun c hc => hds c (List.mem_cons_of_mem d hc)
      have hwrites := writes_literal (some (d' :: more)) (some (exponentPart lead)) (hfirst d _ rfl)
        (List.cons_ne_nil _ _) hmore hexponent
      rw [List.length_singleton, hlead] at hwrites
      have htext : scientific (d :: d' :: more) lead = d :: '.' :: d' :: more ++ exponentText lead := rfl
      rw [htext, ← exponentPart_spelling]
      exact hwrites

/-- Both layouts of a decimal number write it. -/
theorem writes_digits (layout : Layout) (d : DecimalDigits) :
    Writes (layout.digits d) (decimalRat d.coefficient d.exponent) := by
  have hdigits := isDigit_of_mem_significantDigits fun c => @Text.isDigit_of_mem_decimalDigits d.coefficient c
  have hne := significantDigits_ne_nil (Text.decimalDigits d.coefficient)
  have hvalue : digitsRat (significantDigits (Text.decimalDigits d.coefficient))
      (d.exponent + (Text.decimalDigits d.coefficient).length - 1) = decimalRat d.coefficient d.exponent := by
    rw [digitsRat_significantDigits, digitsRat, Text.digitsValue_decimalDigits]
    congr 1
    omega
  rw [← hvalue]
  simp only [Layout.digits]
  split
  · exact writes_positional layout hdigits hne _
  · exact writes_scientific hdigits hne _

theorem exists_writes_magnitude (layout : Layout) (rank : Nat) :
    ∃ r, Writes (layout.magnitude rank) r ∧ binary64.rankOf r = rank := by
  rw [Layout.magnitude]
  by_cases hrank : rank = 0
  · rw [if_pos hrank]
    refine ⟨_, writes_digits layout _, ?_⟩
    rw [decimalRat_zero, BinaryFormat.rankOf_zero, hrank]
  · rw [if_neg hrank]
    exact ⟨_, writes_digits layout _, rankOf_shortestDigits rank⟩

/-- A minus sign in front of a literal is the sign of the double that is read. -/
theorem Writes.exists_signed {cs : List Char} {r : ℚ} (h : Writes cs r) (s : Bool) :
    ∃ l : Text.Literal, l.WellFormed ∧ l.spelling = (if s then ['-'] else []) ++ cs ∧ l.toDouble = signed s r := by
  obtain ⟨l, hl, habsent, rfl, rfl⟩ := h
  have hspelling : ∀ sign : Text.Sign, ({ l with sign := sign } : Text.Literal).spelling =
      sign.spelling ++ l.spelling := by
    intro sign
    rw [Text.Literal.spelling, Text.Literal.spelling, habsent]
    rfl
  cases s with
  | false => exact ⟨{ l with sign := .absent }, ⟨hl.1, hl.2, hl.3, hl.4⟩, hspelling .absent, ofDecimal_eq _ _ _⟩
  | true => exact ⟨{ l with sign := .minus }, ⟨hl.1, hl.2, hl.3, hl.4⟩, hspelling .minus, ofDecimal_eq _ _ _⟩

/-- The text of a finite double is a literal that is read as the same double. -/
theorem exists_literal (layout : Layout) {v : Double} (hv : v.isFinite) :
    ∃ l : Text.Literal, l.WellFormed ∧ l.spelling = layout.chars v ∧ l.toDouble = v := by
  cases v with
  | nan => exact nomatch hv
  | infinite negative => exact nomatch hv
  | finite negative rank =>
      obtain ⟨r, hwrites, hrank⟩ := exists_writes_magnitude layout rank
      obtain ⟨l, hl, hspelling, hvalue⟩ := hwrites.exists_signed negative
      refine ⟨l, hl, ?_, hvalue.trans (signed_of_rankOf hrank)⟩
      rw [hspelling]
      cases negative <;> rfl

end Progression.Double
