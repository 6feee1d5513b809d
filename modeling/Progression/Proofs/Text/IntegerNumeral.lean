import Progression.Proofs.Text.DecimalDigits
import Progression.Text.Numeral

/-! # Integers as numerals

The digits of an integer, with a minus sign in front of a negative one, are a numeral that reads back as the
integer, unless there are too many of them. -/

namespace Progression.Text

/-- No digit of any script is a blank. -/
theorem isBlank_of_isDigit {c : Char} (h : isDigit c) : isBlank c = false := by
  have hscripts : ∀ z ∈ scriptZeros, ∀ d : Fin 10, isBlank (Char.ofNat (z + d)) = false := by decide +kernel
  obtain ⟨d, hd⟩ := Option.isSome_iff_exists.mp h
  obtain ⟨z, hz, rfl⟩ := Option.map_eq_some_iff.mp hd
  have hplace := List.find?_some hz
  simp only [Bool.and_eq_true, decide_eq_true_eq] at hplace
  have hchar := hscripts z (List.mem_of_find?_eq_some hz) ⟨c.toNat - z, by omega⟩
  rwa [Nat.add_sub_cancel' hplace.1, Char.ofNat_toNat] at hchar

theorem isNumeralBlank_of_isDigit {c : Char} (h : isDigit c) : isNumeralBlank c = false := by
  rw [isNumeralBlank, isBlank_of_isDigit h, Bool.false_and]

theorem trim_of_forall_not {p : Char → Bool} {cs : List Char} (h : ∀ c ∈ cs, p c = false) : trim p cs = cs := by
  have hdrop (ds : List Char) (hds : ∀ c ∈ ds, p c = false) : ds.dropWhile p = ds := by
    cases ds with
    | nil => rfl
    | cons d ds => rw [List.dropWhile_cons_of_neg (by simp [hds d List.mem_cons_self])]
  rw [trim, hdrop cs h, hdrop cs.reverse fun c hc => h c (List.mem_reverse.mp hc), List.reverse_reverse]

/-- Where there is no underscore, none is dropped. -/
theorem ungroupFrom?_of_not_mem {cs : List Char} (h : '_' ∉ cs) (afterDigit : Bool) :
    ungroupFrom? afterDigit cs = some cs := by
  fun_induction ungroupFrom? afterDigit cs with
  | case1 => rfl
  | case2 => exact absurd List.mem_cons_self h
  | case3 => exact absurd List.mem_cons_self h
  | case4 => exact absurd List.mem_cons_self h
  | case5 afterDigit c cs _ _ ih => rw [ih fun hcs => h (List.mem_cons_of_mem c hcs), Option.map_some]

/-- The characters of an integer are digits and a minus sign. -/
theorem mem_intDigits {n : Int} {c : Char} (h : c ∈ intDigits n) : c = '-' ∨ isDigit c := by
  cases n with
  | ofNat n => exact .inr (isDigit_of_mem_decimalDigits h)
  | negSucc n => exact (List.mem_cons.mp h).imp_right isDigit_of_mem_decimalDigits

theorem numeral?_intDigits (n : Int) : numeral? (intDigits n) = some (intDigits n) := by
  have hblank (c : Char) (hc : c ∈ intDigits n) : isNumeralBlank c = false := by
    rcases mem_intDigits hc with rfl | hdigit
    · decide
    · exact isNumeralBlank_of_isDigit hdigit
  have hunderscore : '_' ∉ intDigits n := by
    intro hmem
    rcases mem_intDigits hmem with h | h
    · exact absurd h (by decide)
    · exact absurd h (by decide)
  rw [numeral?, trim_of_forall_not hblank, ungroupFrom?_of_not_mem hunderscore]

theorem signedDigits?_of_digits (sign : Sign) {ds : List Char} (hne : ds ≠ []) (hds : ∀ c ∈ ds, isDigit c) :
    signedDigits? (sign.spelling ++ ds) =
      some (if sign = .minus then -(digitsValue ds : Int) else digitsValue ds) := by
  have hhead : ∀ c ∈ ds.head?, c ≠ '+' ∧ c ≠ '-' := by
    intro c hc
    have hdigit := hds c (List.mem_of_mem_head? hc)
    exact ⟨fun h => absurd (h ▸ hdigit) (by decide), fun h => absurd (h ▸ hdigit) (by decide)⟩
  have hempty : ds.isEmpty = false := List.isEmpty_eq_false_iff.mpr hne
  have hall : ds.all isDigit = true := List.all_eq_true.mpr hds
  rw [signedDigits?, Sign.scan_spelling_append sign hhead]
  simp only [hempty, hall, Bool.not_true, Bool.or_self, Bool.false_eq_true, if_false]
  split <;> rfl

theorem signedDigits?_intDigits (n : Int) : signedDigits? (intDigits n) = some n := by
  have hdigits (sign : Sign) (n : Nat) :=
    signedDigits?_of_digits sign (decimalDigits_ne_nil n) fun c => isDigit_of_mem_decimalDigits
  cases n with
  | ofNat n =>
      have h := hdigits .absent n
      rw [digitsValue_decimalDigits] at h
      exact h
  | negSucc n =>
      have h := hdigits .minus (n + 1)
      rw [digitsValue_decimalDigits] at h
      exact h

theorem intDigits_injective {m n : Int} (h : intDigits m = intDigits n) : m = n := by
  have hread := signedDigits?_intDigits m
  rw [h, signedDigits?_intDigits] at hread
  exact (Option.some.inj hread).symm

theorem takeWhile_append_of_not {p : Char → Bool} {ds rest : List Char} (hds : ∀ c ∈ ds, p c)
    (hrest : ∀ c ∈ rest, p c = false) : (ds ++ rest).takeWhile p = ds := by
  rw [List.takeWhile_append_of_pos hds]
  cases rest with
  | nil => exact List.append_nil ds
  | cons c rest => rw [List.takeWhile_cons_of_neg (by simp [hrest c List.mem_cons_self]), List.append_nil]

/-- Behind blanks and a sign, the digits and underscores in front are looked at, up to what is neither. -/
theorem leadingDigits_append {before : List Char} (hbefore : ∀ c ∈ before, isNumeralBlank c) (sign : Sign)
    {run after : List Char} (hne : run ≠ []) (hrun : ∀ c ∈ run, isDigit c || c == '_')
    (hafter : ∀ c ∈ after, (isDigit c || c == '_') = false) :
    leadingDigits (before ++ (sign.spelling ++ (run ++ after))) = (ungroupFrom? false run).getD [] := by
  obtain ⟨c, run, rfl⟩ := List.exists_cons_of_ne_nil hne
  have hfirst := hrun c List.mem_cons_self
  have hhead : ∀ d ∈ (c :: run ++ after).head?, d ≠ '+' ∧ d ≠ '-' := by
    rintro d ⟨⟩
    exact ⟨fun h => absurd (h ▸ hfirst) (by decide), fun h => absurd (h ▸ hfirst) (by decide)⟩
  have hblank : (sign.spelling ++ (c :: run ++ after)).dropWhile isNumeralBlank =
      sign.spelling ++ (c :: run ++ after) := by
    have hc : isNumeralBlank c = false := by
      rcases Bool.or_eq_true_iff.mp hfirst with hdigit | hunderscore
      · exact isNumeralBlank_of_isDigit hdigit
      · rw [beq_iff_eq.mp hunderscore]
        decide
    cases sign with
    | absent => exact List.dropWhile_cons_of_neg (by simp [hc])
    | plus => exact List.dropWhile_cons_of_neg (by decide)
    | minus => exact List.dropWhile_cons_of_neg (by decide)
  rw [leadingDigits, List.dropWhile_append_of_pos hbefore, hblank, Sign.scan_spelling_append sign hhead]
  dsimp only
  rw [takeWhile_append_of_not hrun hafter]

theorem leadingDigits_intDigits (n : Int) : leadingDigits (intDigits n) = decimalDigits n.natAbs := by
  have hdigits (sign : Sign) (n : Nat) : leadingDigits (sign.spelling ++ decimalDigits n) = decimalDigits n := by
    have hrun : ∀ c ∈ decimalDigits n, isDigit c || c == '_' :=
      fun c hc => Bool.or_eq_true_iff.mpr (.inl (isDigit_of_mem_decimalDigits hc))
    have hunderscore : '_' ∉ decimalDigits n :=
      fun hmem => absurd (isDigit_of_mem_decimalDigits hmem) (by decide)
    have h := leadingDigits_append (fun _ hc => absurd hc List.not_mem_nil) sign (decimalDigits_ne_nil n) hrun
      (fun _ hc => absurd hc List.not_mem_nil)
    rwa [List.nil_append, List.append_nil, ungroupFrom?_of_not_mem hunderscore, Option.getD_some] at h
  cases n with
  | ofNat n => exact hdigits .absent n
  | negSucc n => exact hdigits .minus (n + 1)

theorem digitLimit_lt_length_iff (n : Int) :
    digitLimit < (leadingDigits (intDigits n)).length ↔ hasFewDigits n = false := by
  rw [leadingDigits_intDigits, ← Nat.not_le, length_decimalDigits_le_iff (by decide +kernel), hasFewDigits,
    decide_eq_false_iff_not]
  rfl

/-- An integer is read back from its digits if they are not too many, and else it is not read. -/
theorem readInt?_intDigits (n : Int) : readInt? (intDigits n) = if hasFewDigits n then some n else none := by
  unfold readInt?
  cases hfew : hasFewDigits n with
  | true => rw [if_neg (by simp [digitLimit_lt_length_iff, hfew]), numeral?_intDigits, Option.bind_some,
      signedDigits?_intDigits, if_pos rfl]
  | false => rw [if_pos ((digitLimit_lt_length_iff n).mpr hfew), if_neg Bool.false_ne_true]

end Progression.Text
