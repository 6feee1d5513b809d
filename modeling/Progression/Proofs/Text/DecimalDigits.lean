import Mathlib.Algebra.Group.Nat.Defs
import Mathlib.Data.List.Induction
import Progression.Proofs.Text.LongestLiteral

/-! # The digits of a number

The digits that a natural number is written with are digits that read back as it, and zeros in front of
digits or behind them count as they should. -/

namespace Progression.Text

theorem digitValue?_digitChar {d : Nat} (hd : d < 10) : digitValue? (Nat.digitChar d) = some d := by
  have hall : ∀ d : Fin 10, digitValue? (Nat.digitChar d) = some d.val := by decide
  exact hall ⟨d, hd⟩

theorem digitsValue_concat (ds : List Char) (c : Char) :
    digitsValue (ds ++ [c]) = 10 * digitsValue ds + (digitValue? c).getD 0 := by
  rw [digitsValue, List.foldl_append]
  rfl

theorem digitsValue_append (ds es : List Char) :
    digitsValue (ds ++ es) = digitsValue ds * 10 ^ es.length + digitsValue es := by
  induction es using List.reverseRecOn with
  | nil => simp [digitsValue]
  | append_singleton es c ih =>
      rw [← List.append_assoc, digitsValue_concat, digitsValue_concat, ih, List.length_append, List.length_singleton,
        Nat.pow_succ, Nat.mul_add, Nat.add_assoc, Nat.mul_comm 10 (_ * _), Nat.mul_assoc]

theorem digitValue?_lt {c : Char} {d : Nat} (h : digitValue? c = some d) : d < 10 := by
  obtain ⟨z, hz, rfl⟩ := Option.map_eq_some_iff.mp h
  have hplace := List.find?_some hz
  simp only [Bool.and_eq_true, decide_eq_true_eq] at hplace
  omega

/-- A run of `k` characters writes a number below the power of ten of `k`. -/
theorem digitsValue_lt (ds : List Char) : digitsValue ds < 10 ^ ds.length := by
  induction ds using List.reverseRecOn with
  | nil => exact Nat.one_pos
  | append_singleton ds c ih =>
      have hc : (digitValue? c).getD 0 < 10 := by
        cases hd : digitValue? c with
        | none => exact Nat.succ_pos 9
        | some d => exact digitValue?_lt hd
      rw [digitsValue_concat, List.length_append, List.length_singleton, Nat.pow_succ]
      omega

theorem digitsValue_replicate_zero (n : Nat) : digitsValue (List.replicate n '0') = 0 := by
  induction n with
  | zero => rfl
  | succ n ih =>
      rw [List.replicate_succ', digitsValue_concat, ih]
      rfl

/-- The digits of a number, the last one taken off. -/
theorem decimalDigits_eq (n : Nat) :
    decimalDigits n = (if n < 10 then [] else decimalDigits (n / 10)) ++ [Nat.digitChar (n % 10)] := by
  rw [decimalDigits, Nat.toDigits_eq_if (by decide)]
  split
  · rename_i hn
    rw [Nat.mod_eq_of_lt hn, List.nil_append]
  · rfl

theorem decimalDigits_ne_nil (n : Nat) : decimalDigits n ≠ [] := Nat.toDigits_ne_nil

theorem isDigit_of_mem_decimalDigits {n : Nat} {c : Char} (h : c ∈ decimalDigits n) : isDigit c := by
  induction n using Nat.strongRecOn with
  | ind n ih =>
      rw [decimalDigits_eq, List.mem_append, List.mem_singleton] at h
      rcases h with h | rfl
      · by_cases hn : n < 10
        · rw [if_pos hn] at h
          exact absurd h List.not_mem_nil
        · rw [if_neg hn] at h
          exact ih (n / 10) (by omega) h
      · rw [isDigit, digitValue?_digitChar (Nat.mod_lt n (by decide)), Option.isSome_some]

/-- The digits of a number write it. -/
theorem digitsValue_decimalDigits (n : Nat) : digitsValue (decimalDigits n) = n := by
  induction n using Nat.strongRecOn with
  | ind n ih =>
      rw [decimalDigits_eq, digitsValue_concat, digitValue?_digitChar (Nat.mod_lt n (by decide)), Option.getD_some]
      by_cases hn : n < 10
      · rw [if_pos hn, Nat.mod_eq_of_lt hn]
        exact Nat.zero_add n
      · rw [if_neg hn, ih (n / 10) (by omega)]
        omega

/-- A number has at most `k` digits exactly if it is below the power of ten of `k`. -/
theorem length_decimalDigits_le_iff {n k : Nat} (hk : 0 < k) : (decimalDigits n).length ≤ k ↔ n < 10 ^ k := by
  induction n using Nat.strongRecOn generalizing k with
  | ind n ih =>
      obtain ⟨k, rfl⟩ : ∃ j, k = j + 1 := ⟨k - 1, by omega⟩
      rw [decimalDigits_eq, List.length_append, List.length_singleton, Nat.add_le_add_iff_right, Nat.pow_succ]
      by_cases hn : n < 10
      · rw [if_pos hn]
        have hpow : 0 < 10 ^ k := Nat.pow_pos (by decide)
        exact iff_of_true (Nat.zero_le k) (by omega)
      · rw [if_neg hn]
        cases k with
        | zero =>
            have hne := List.length_pos_iff.mpr (decimalDigits_ne_nil (n / 10))
            exact iff_of_false (by omega) (by omega)
        | succ k =>
            rw [ih (n / 10) (by omega) (Nat.succ_pos k), Nat.div_lt_iff_lt_mul (by decide)]

end Progression.Text
