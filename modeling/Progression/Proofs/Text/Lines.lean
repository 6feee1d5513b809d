import Progression.Proofs.Text.DecimalDigits
import Progression.Text.Quoted

/-! # Lines

A text is split into lines at its line feeds. It has one line more than line feeds, and the first line is what stands
in front of the first of them. Quoted texts and the digits of numbers are one line. -/

namespace Progression.Text

/-- The lines of a text. -/
def lines (cs : List Char) : List (List Char) := cs.splitOn '\n'

theorem length_lines (cs : List Char) : (lines cs).length = cs.count '\n' + 1 := by
  induction cs with
  | nil => rfl
  | cons c cs ih =>
      rw [lines, List.splitOn_cons_eq_if_modifyHead, List.count_cons]
      split
      · rw [List.length_cons, ← lines, ih]
      · rw [List.length_modifyHead, ← lines, ih, Nat.add_zero]

/-- The first line ends at the first line feed. -/
theorem exists_lines_eq_cons (cs : List Char) : ∃ more, lines cs = cs.takeWhile (· != '\n') :: more := by
  induction cs with
  | nil => exact ⟨[], rfl⟩
  | cons c cs ih =>
      obtain ⟨more, hmore⟩ := ih
      rw [lines, List.splitOn_cons_eq_if_modifyHead, ← lines, hmore]
      by_cases hc : c = '\n'
      · exact ⟨cs.takeWhile (· != '\n') :: more, by simp [hc]⟩
      · exact ⟨more, by simp [hc]⟩

/-- The text has no line feed. -/
def OneLine (cs : List Char) : Prop := '\n' ∉ cs

instance (cs : List Char) : Decidable (OneLine cs) := inferInstanceAs (Decidable ('\n' ∉ cs))

namespace OneLine

theorem append {cs ds : List Char} (hcs : OneLine cs) (hds : OneLine ds) : OneLine (cs ++ ds) := by
  rw [OneLine, List.mem_append]
  rintro (h | h)
  · exact hcs h
  · exact hds h

theorem cons {c : Char} {cs : List Char} (hc : c ≠ '\n') (hcs : OneLine cs) : OneLine (c :: cs) := by
  rw [OneLine, List.mem_cons]
  rintro (h | h)
  · exact hc h.symm
  · exact hcs h

theorem intercalate {separator : List Char} (hseparator : OneLine separator) {parts : List (List Char)}
    (hparts : ∀ part ∈ parts, OneLine part) : OneLine (separator.intercalate parts) := by
  induction parts with
  | nil => exact List.not_mem_nil
  | cons part parts ih =>
      have hpart := hparts part List.mem_cons_self
      by_cases hnil : parts = []
      · rw [hnil, List.intercalate_singleton]
        exact hpart
      · rw [List.intercalate_cons_of_ne_nil hnil]
        exact (hpart.append hseparator).append (ih fun p hp => hparts p (List.mem_cons_of_mem part hp))

/-- A first line is a line of its own. -/
theorem lines_append {cs : List Char} (h : OneLine cs) (ds : List Char) : lines (cs ++ '\n' :: ds) = cs :: lines ds :=
  List.splitOn_append_cons_self_of_not_mem h ds

theorem lines_eq {cs : List Char} (h : OneLine cs) : lines cs = [cs] := List.splitOn_eq_singleton h

end OneLine

theorem oneLine_hexDigits (width n : Nat) : OneLine (hexDigits width n) := by
  induction width generalizing n with
  | zero => exact List.not_mem_nil
  | succ width ih =>
      have hdigit : ∀ d : Fin 16, OneLine [Nat.digitChar d] := by decide
      exact (ih (n / 16)).append (hdigit ⟨n % 16, Nat.mod_lt n (by decide)⟩)

theorem oneLine_escapeCode (n : Nat) : OneLine (escapeCode n) := by
  rw [escapeCode]
  split
  · exact OneLine.append (by decide) (oneLine_hexDigits 2 n)
  split
  · exact OneLine.append (by decide) (oneLine_hexDigits 4 n)
  · exact OneLine.append (by decide) (oneLine_hexDigits 8 n)

theorem oneLine_escape {quote : Char} (hquote : quote ≠ '\n') (c : Char) : OneLine (escape quote c) := by
  rw [escape]
  split
  · rename_i hescaped
    have hc : c ≠ '\n' := by
      simp only [Bool.or_eq_true, decide_eq_true_eq] at hescaped
      rcases hescaped with rfl | rfl
      · exact hquote
      · decide
    exact .cons (by decide) (.cons hc List.not_mem_nil)
  split
  · decide
  split
  · decide
  rename_i hline
  split
  · decide
  split
  · exact .cons hline List.not_mem_nil
  · exact oneLine_escapeCode c.toNat

/-- A quoted text is one line. -/
theorem oneLine_quoted (cs : List Char) : OneLine (quoted cs) := by
  have hquote : quoteFor cs ≠ '\n' := by
    rw [quoteFor]
    split <;> decide
  have hescaped : OneLine (cs.flatMap (escape (quoteFor cs))) := by
    rw [OneLine, List.mem_flatMap]
    rintro ⟨c, -, h⟩
    exact oneLine_escape hquote c h
  exact .cons hquote (hescaped.append (.cons hquote List.not_mem_nil))

theorem oneLine_decimalDigits (n : Nat) : OneLine (decimalDigits n) := fun h =>
  absurd (isDigit_of_mem_decimalDigits h) (by decide)

end Progression.Text
