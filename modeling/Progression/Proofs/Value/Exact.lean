import Progression.Proofs.Double.Line
import Progression.Proofs.Double.ReadBack
import Progression.Proofs.Machine.Traps

/-! # Numbers with an exact value

An integer, a fraction and a finite decimal have an exact value. The double they are converted to is the one nearest to
that value, whatever the kind; only for a value out of range the kinds part, since decimals become infinities. What is
out of range and no decimal is refused, unless it has too many digits to be written. -/

namespace Progression

/-- The exact value of a finite decimal. -/
def Decimal.toRat? : Decimal → Option ℚ
  | .finite s c e => some (if s then -decimalRat c e else decimalRat c e)
  | _ => none

/-- The exact value of a number that is no double. -/
def Number.exactValue? : Number → Option ℚ
  | .int n => some n
  | .double _ => none
  | .decimal d => d.toRat?
  | .fraction r => some r

/-- The number has no nearest double. -/
def Number.LacksDouble : Number → Prop
  | .int n => overflowBound ≤ |(n : ℚ)|
  | .double _ => False
  | .decimal d => d.isSignaling
  | .fraction r => overflowBound ≤ |r|

/-- The value is a number that no double is nearest to. -/
def Value.LacksDouble : Value → Prop
  | .number n => n.LacksDouble
  | _ => False

/-- A sign that the double nearest to a value can have; that of a zero is left open. -/
def SignOf (s : Bool) (q : ℚ) : Prop := q ≠ 0 → s = decide (q < 0)

theorem signOf_decide (q : ℚ) : SignOf (decide (q < 0)) q := fun _ => rfl

section Sign

variable {s t : Bool} {q : ℚ}

/-- Two doubles nearest to one value are alike: only if it is zero they can differ in their signs. -/
theorem SignOf.alike (hs : SignOf s q) (ht : SignOf t q) : (Double.signed s q).Alike (Double.signed t q) := by
  by_cases hq : q = 0
  · rw [hq, Double.signed_zero, Double.signed_zero]
    exact Double.alike_zeros s t
  · rw [hs hq, ht hq]
    exact Double.Alike.refl _

theorem SignOf.same (hs : SignOf s q) (ht : SignOf t q) : (Double.signed s q).same (Double.signed t q) := by
  by_cases hq : q = 0
  · rw [hq, Double.signed_zero, Double.signed_zero]
    cases s <;> cases t <;> decide +kernel
  · rw [hs hq, ht hq]
    exact Double.same_signed _ q

end Sign

/-- A finite decimal is converted to the double nearest to its value. -/
theorem Decimal.toDouble?_of_toRat {d : Decimal} {q : ℚ} (h : d.toRat? = some q) :
    ∃ s, SignOf s q ∧ d.toDouble? = some (.signed s q) := by
  cases d with
  | infinite s => cases h
  | nan s signaling payload => cases h
  | finite s c e =>
      obtain rfl := Option.some.inj h
      refine ⟨s, fun hq => ?_, ?_⟩
      · have hc : c ≠ 0 := by
          rintro rfl
          simp [decimalRat_eq] at hq
        have hpos := Double.decimalRat_pos hc e
        cases s with
        | false => simp [hpos.le]
        | true => simp [hpos]
      · rw [toDouble?, Double.ofDecimal_eq]
        cases s with
        | false => rfl
        | true => exact congrArg some (Double.signed_neg true _).symm

namespace Decimal

/-- A magnitude that is an integer is found to be one, and to be that one. -/
theorem truncateMagnitude_of_decimalRat {c m : Nat} {e : Int} (h : decimalRat c e = m) (s : Bool) :
    (Decimal.finite s c e).isInteger ∧ truncateMagnitude c e = m := by
  rw [decimalRat_eq] at h
  by_cases hc : c = 0
  · rw [hc, Nat.cast_zero, zero_mul] at h
    have hm : m = 0 := by exact_mod_cast h.symm
    simp [isInteger, truncateMagnitude, hc, hm]
  · cases e with
    | ofNat k =>
        have hm : c * 10 ^ k = m := by
          rw [Int.ofNat_eq_natCast, zpow_natCast] at h
          exact_mod_cast h
        simp [isInteger, truncateMagnitude, hc, hm]
    | negSucc k =>
        have hm : c = m * 10 ^ (k + 1) := by
          rw [zpow_negSucc, ← div_eq_mul_inv, div_eq_iff (by positivity)] at h
          exact_mod_cast h
        have hpos : 1 ≤ m := Nat.one_le_iff_ne_zero.mpr fun hzero => hc (by rw [hm, hzero, Nat.zero_mul])
        -- The digits that are dropped are fewer than those that the coefficient has.
        have hlog : k + 1 ≤ c.log2 := by
          have hpow : 2 ^ (k + 1) ≤ 10 ^ (k + 1) := Nat.pow_le_pow_left (by decide) _
          rw [Nat.le_log2 hc, hm]
          exact hpow.trans (Nat.le_mul_of_pos_left _ hpos)
        have hexponent : (-Int.negSucc k).toNat = k + 1 := rfl
        constructor
        · have hfits : -Int.negSucc k ≤ (c.log2 + 1 : Nat) := by omega
          have hwhole : c % 10 ^ (k + 1) = 0 := by rw [hm, Nat.mul_mod_left]
          rw [isInteger, hexponent, Nat.pow_eq, hwhole, decide_eq_true hfits]
          exact Bool.or_true _
        · have hquotient : c / 10 ^ (k + 1) = m := by rw [hm, Nat.mul_div_cancel _ (by positivity)]
          rw [truncateMagnitude, if_neg hc, if_neg (by omega), if_neg (by omega), hexponent, Nat.pow_eq, hquotient]

theorem toInt?_of_toRat {d : Decimal} {n : Int} (h : d.toRat? = some (n : ℚ)) : d.toInt? = some n := by
  cases d with
  | infinite s => cases h
  | nan s signaling payload => cases h
  | finite s c e =>
      have hvalue := Option.some.inj h
      have hnonneg : 0 ≤ decimalRat c e := by
        rw [decimalRat_eq]
        exact mul_nonneg c.cast_nonneg (zpow_nonneg (by norm_num) e)
      have habs : decimalRat c e = n.natAbs := by
        rw [Nat.cast_natAbs, Int.cast_abs, ← hvalue]
        cases s with
        | false => exact (abs_of_nonneg hnonneg).symm
        | true => exact ((abs_neg _).trans (abs_of_nonneg hnonneg)).symm
      obtain ⟨hinteger, htruncate⟩ := truncateMagnitude_of_decimalRat habs s
      rw [toInt?, if_pos hinteger, truncate?, htruncate]
      rw [habs] at hvalue
      refine congrArg some (Int.cast_injective (α := ℚ) ?_)
      rw [← hvalue]
      cases s with
      | false => exact Int.cast_natCast _
      | true => exact (Int.cast_neg _).trans (congrArg _ (Int.cast_natCast _))

end Decimal

namespace Number

section Conversion

variable {n : Number} {q : ℚ}

theorem requireFinite_signed (f : Fault) (s : Bool) (q : ℚ) :
    requireFinite f (.signed s q) = if |q| < overflowBound then .ok (.signed s q) else .error f := by
  unfold requireFinite
  simp only [Double.isFinite_signed_iff]

/-- A value in range is converted to the nearest double, and a decimal also if its value is out of range. -/
theorem toDouble_of_exact (hn : n.exactValue? = some q) (h : |q| < overflowBound ∨ n.isDecimal) :
    ∃ s, SignOf s q ∧ n.toDouble = .ok (.signed s q) := by
  cases n with
  | double v => cases hn
  | decimal d =>
      obtain ⟨s, hs, hd⟩ := Decimal.toDouble?_of_toRat hn
      refine ⟨s, hs, ?_⟩
      unfold toDouble
      dsimp only
      rw [hd]
  | int m =>
      obtain rfl := Option.some.inj hn
      have hq := h.resolve_right Bool.false_ne_true
      exact ⟨_, signOf_decide _, (requireFinite_signed _ _ _).trans (if_pos hq)⟩
  | fraction r =>
      obtain rfl := Option.some.inj hn
      have hq := h.resolve_right Bool.false_ne_true
      exact ⟨_, signOf_decide _, (requireFinite_signed _ _ _).trans (if_pos hq)⟩

theorem lacksDouble_of_exact (hn : n.exactValue? = some q) :
    n.LacksDouble ↔ overflowBound ≤ |q| ∧ n.isDecimal = false := by
  cases n with
  | double v => cases hn
  | int m =>
      obtain rfl := Option.some.inj hn
      exact (and_iff_left rfl).symm
  | fraction r =>
      obtain rfl := Option.some.inj hn
      exact (and_iff_left rfl).symm
  | decimal d =>
      refine iff_of_false (fun h => ?_) fun h => by cases h.2
      cases d with
      | finite s c e => cases h
      | infinite s => cases h
      | nan s signaling payload => cases hn

/-- Of the numbers of one exact value, all that are no decimals can be written, or none of them can. -/
theorem isWritable_of_exact (hn : n.exactValue? = some q) (hdecimal : n.isDecimal = false) :
    (Value.number n).isWritable = (Value.fraction q).isWritable := by
  cases n with
  | double v => cases hn
  | decimal d => cases hdecimal
  | fraction r => rw [Option.some.inj hn]
  | int m =>
      obtain rfl := Option.some.inj hn
      have hone : Text.hasFewDigits 1 = true := by decide +kernel
      change Text.hasFewDigits m = (Text.hasFewDigits m && Text.hasFewDigits 1)
      rw [hone, Bool.and_true]

theorem isWritable_of_isDecimal (hdecimal : n.isDecimal) : (Value.number n).isWritable := by
  cases n with
  | decimal d => rfl
  | int m => cases hdecimal
  | double v => cases hdecimal
  | fraction r => cases hdecimal

/-- The numbers that no double is nearest to are those that are not converted. -/
theorem toDouble_error_iff (n : Number) : (∃ f, n.toDouble = .error f) ↔ n.LacksDouble := by
  have hok {x : Except Fault Double} {v : Double} (hx : x = .ok v) : ¬∃ f, x = .error f := by
    rintro ⟨f, hf⟩
    rw [hx] at hf
    cases hf
  have hrange (f : Fault) (r : ℚ) : (∃ f', requireFinite f (.ofRat r) = .error f') ↔ overflowBound ≤ |r| := by
    rw [Double.ofRat, requireFinite_signed]
    split
    · rename_i h
      exact iff_of_false (hok rfl) (not_le.mpr h)
    · rename_i h
      exact iff_of_true ⟨f, rfl⟩ (not_lt.mp h)
  cases n with
  | int m => exact hrange _ _
  | double v => exact iff_of_false (hok rfl) id
  | fraction r => exact hrange _ _
  | decimal d =>
      cases d with
      | finite s c e => exact iff_of_false (hok rfl) Bool.false_ne_true
      | infinite s => exact iff_of_false (hok rfl) Bool.false_ne_true
      | nan s signaling payload =>
          cases signaling with
          | false => exact iff_of_false (hok rfl) Bool.false_ne_true
          | true => exact iff_of_true ⟨_, rfl⟩ rfl

end Conversion

end Number

/-- The conversions come to one number, or both values are refused. -/
inductive Agree : Except Fault Double → Except Fault Double → Prop
  | same {v w : Double} (h : v.same w) : Agree (.ok v) (.ok w)
  | refused (r r' : Refusal) (value value' : Value) : Agree (.error (.refused r value)) (.error (.refused r' value'))

theorem Agree.not_error_ok {f : Fault} {v : Double} : ¬Agree (.error f) (.ok v) := by
  intro h
  cases h

namespace Value

/-- The value is a number of some kind. Truth values, complex numbers, texts and null are none. -/
def IsReal (value : Value) : Prop := ∃ n, value = .number n

theorem isReal_of_lacksDouble {value : Value} (h : value.LacksDouble) : value.IsReal := by
  cases value with
  | number n => exact ⟨n, rfl⟩
  | truth | complex | text | null => cases h

section Unreal

variable {value : Value} (h : ¬value.IsReal)
include h

theorem toDouble_of_not_isReal (input : Option TypeRequest) :
    value.toDouble input = .error (.refused .notReal value) := by
  cases value with
  | number n => exact absurd ⟨n, rfl⟩ h
  | truth | complex | text | null => rfl

theorem isWritable_of_not_isReal : value.isWritable := by
  cases value with
  | number n => exact absurd ⟨n, rfl⟩ h
  | truth | complex | text | null => rfl

end Unreal

/-- A value without a double would be refused for that, if it can be written. -/
theorem toDouble_of_lacksDouble {value : Value} (h : value.LacksDouble) :
    value.toDouble none = .error (Fault.refused .noDouble value).worded := by
  obtain ⟨n, rfl⟩ := isReal_of_lacksDouble h
  obtain ⟨f, hf⟩ := (Number.toDouble_error_iff n).mpr h
  rw [toDouble_number, hf]
  rfl

/-- The refusal of a value cannot be put into words exactly if the value has no double and too many digits. -/
theorem toDouble_eq_unwritable_iff (value : Value) :
    value.toDouble none = .error .unwritable ↔ value.LacksDouble ∧ value.isWritable = false := by
  constructor
  · intro h
    cases value with
    | number n =>
        rw [toDouble_number] at h
        cases hn : n.toDouble with
        | ok x =>
            rw [hn] at h
            cases h
        | error f =>
            refine ⟨(Number.toDouble_error_iff n).mp ⟨f, hn⟩, Bool.eq_false_iff.mpr fun hwritable => ?_⟩
            have hworded : (Fault.refused .noDouble (.number n)).worded = .unwritable := by
              rw [hn] at h
              exact Except.error.inj h
            rw [Fault.worded_refused rfl hwritable] at hworded
            cases hworded
    | truth | complex | text | null => cases h
  · rintro ⟨hlacks, hlong⟩
    rw [toDouble_of_lacksDouble hlacks, Fault.worded_refused_of_not_writable _ hlong]

/-- A number with an exact value is converted to the nearest double, or it is out of range and no decimal. Then it is
refused, if it can be written. -/
theorem toDouble_exact_cases {n : Number} {q : ℚ} (hn : n.exactValue? = some q) :
    ((|q| < overflowBound ∨ n.isDecimal) ∧ ∃ s, SignOf s q ∧ (number n).toDouble none = .ok (.signed s q)) ∨
      ((overflowBound ≤ |q| ∧ n.isDecimal = false) ∧
        (number n).toDouble none = .error (Fault.refused .noDouble (.number n)).worded) := by
  by_cases hconverted : |q| < overflowBound ∨ n.isDecimal
  · obtain ⟨s, hs, hn⟩ := Number.toDouble_of_exact hn hconverted
    exact .inl ⟨hconverted, s, hs, by rw [toDouble_number, hn]; rfl⟩
  · have hrange : overflowBound ≤ |q| ∧ n.isDecimal = false := by simpa using hconverted
    exact .inr ⟨hrange, toDouble_of_lacksDouble ((Number.lacksDouble_of_exact hn).mpr hrange)⟩

/-- Of the numbers with an exact value, the decimals out of range become infinities. -/
theorem toDouble_infinite_iff {n : Number} {q : ℚ} (hn : n.exactValue? = some q) :
    (∃ s, (number n).toDouble none = .ok (.infinite s)) ↔ overflowBound ≤ |q| ∧ n.isDecimal := by
  rcases toDouble_exact_cases hn with ⟨hconverted, s, -, hok⟩ | ⟨⟨-, hdecimal⟩, hrefused⟩
  · rw [hok]
    refine ⟨fun ⟨t, ht⟩ => ?_, fun h => ⟨s, congrArg _ (Double.signed_of_le h.1 s)⟩⟩
    have hfinite := Double.isFinite_signed_iff s q
    rw [Except.ok.inj ht] at hfinite
    have hrange := not_lt.mp fun hlt => Bool.false_ne_true (hfinite.mpr hlt)
    exact ⟨hrange, hconverted.resolve_left (not_lt.mpr hrange)⟩
  · rw [hrefused, hdecimal]
    exact iff_of_false (fun ⟨s, hs⟩ => by cases hs) fun h => Bool.false_ne_true h.2

theorem agree_toDouble_iff {a b : Number} {q : ℚ} (ha : a.exactValue? = some q) (hb : b.exactValue? = some q) :
    Agree ((number a).toDouble none) ((number b).toDouble none) ↔
      |q| < overflowBound ∨ a.isDecimal = b.isDecimal ∧ (number a).isWritable := by
  rcases toDouble_exact_cases ha with ⟨haconverted, s, hs, hda⟩ | ⟨⟨hrange, hadecimal⟩, hda⟩
  · rcases toDouble_exact_cases hb with ⟨hbconverted, t, ht, hdb⟩ | ⟨⟨hrange, hbdecimal⟩, hdb⟩
    · rw [hda, hdb]
      refine iff_of_true (.same (hs.same ht)) ?_
      rcases haconverted with hlt | hadecimal
      · exact .inl hlt
      · exact hbconverted.imp_right fun hbdecimal =>
          ⟨hadecimal.trans hbdecimal.symm, Number.isWritable_of_isDecimal hadecimal⟩
    · have hover := not_lt.mpr hrange
      rw [hda, hdb, hbdecimal, haconverted.resolve_left hover]
      exact iff_of_false (fun h => by cases h) fun h => Bool.false_ne_true (h.resolve_left hover).1.symm
  · rcases toDouble_exact_cases hb with ⟨hbconverted, t, ht, hdb⟩ | ⟨⟨-, hbdecimal⟩, hdb⟩
    · have hover := not_lt.mpr hrange
      rw [hda, hdb, hadecimal, hbconverted.resolve_left hover]
      exact iff_of_false Agree.not_error_ok fun h => Bool.false_ne_true (h.resolve_left hover).1
    · have hsame : (number b).isWritable = (number a).isWritable := by
        rw [Number.isWritable_of_exact hb hbdecimal, Number.isWritable_of_exact ha hadecimal]
      rw [hda, hdb, hadecimal, hbdecimal]
      cases hwritable : (number a).isWritable with
      | true =>
          rw [Fault.worded_refused rfl hwritable, Fault.worded_refused rfl (hsame.trans hwritable)]
          exact iff_of_true (.refused _ _ _ _) (.inr ⟨rfl, rfl⟩)
      | false =>
          rw [Fault.worded_refused_of_not_writable _ hwritable,
            Fault.worded_refused_of_not_writable _ (hsame.trans hwritable)]
          exact iff_of_false (fun h => by cases h) fun h =>
            h.elim (not_lt.mpr hrange) fun hboth => Bool.false_ne_true hboth.2

/-- Two numbers of one exact value are converted alike if that is in range, or if both are decimals or neither is and
they can be written. Out of range a decimal becomes an infinity, while an integer or a fraction is refused, or has too
many digits for that. -/
theorem toDouble_by_exact_value {a b : Number} {q : ℚ} (ha : a.exactValue? = some q) (hb : b.exactValue? = some q) :
    (Agree ((number a).toDouble none) ((number b).toDouble none) ↔
        |q| < overflowBound ∨ a.isDecimal = b.isDecimal ∧ (number a).isWritable) ∧
      ((∃ s, (number a).toDouble none = .ok (.infinite s)) ↔ overflowBound ≤ |q| ∧ a.isDecimal) ∧
      ((number a).toDouble none = .error .unwritable ↔
        (overflowBound ≤ |q| ∧ a.isDecimal = false) ∧ (number a).isWritable = false) := by
  refine ⟨agree_toDouble_iff ha hb, toDouble_infinite_iff ha, ?_⟩
  rw [toDouble_eq_unwritable_iff]
  exact and_congr_left' (Number.lacksDouble_of_exact ha)

/-- A power of ten as a decimal of one digit. -/
def powerDecimal (k : Nat) : Number := .decimal (.finite false 1 k)

/-- A power of ten as an integer. -/
def powerInteger (k : Nat) : Number := .int (Nat.pow 10 k : Nat)

theorem exactValue_power (k : Nat) :
    (powerDecimal k).exactValue? = some (10 ^ k) ∧ (powerInteger k).exactValue? = some (10 ^ k) := by
  constructor
  · have hpow : decimalRat 1 k = 10 ^ k := by rw [decimalRat_eq, Nat.cast_one, one_mul, zpow_natCast]
    exact congrArg some hpow
  · rw [powerInteger, Number.exactValue?, Int.cast_natCast, Nat.pow_eq, Nat.cast_pow, Nat.cast_ofNat]

/-- A one with 400 zeros is out of range. -/
theorem overflowBound_le_power : overflowBound ≤ |10 ^ 400| := by
  have hpow : (2 : ℚ) ^ 1024 ≤ 10 ^ 400 :=
    calc
      (2 : ℚ) ^ 1024 ≤ 2 ^ (3 * 400) := pow_le_pow_right₀ one_le_two (by decide)
      _ = 8 ^ 400 := by rw [pow_mul]; norm_num only
      _ ≤ 10 ^ 400 := pow_le_pow_left₀ (by norm_num) (by norm_num) 400
  rw [abs_of_pos (by positivity)]
  exact overflowBound_lt_pow.le.trans hpow

/-- An integer with too many digits to be written is out of range. -/
theorem lacksDouble_of_not_writable {n : Int} (h : (int n).isWritable = false) : (int n).LacksDouble := by
  have hcast (k : Nat) (hk : 400 ≤ k) (hdigits : Nat.pow 10 k ≤ n.natAbs) : |(10 : ℚ) ^ 400| ≤ |(n : ℚ)| := by
    have hpow : (10 : ℚ) ^ k ≤ n.natAbs := by exact_mod_cast hdigits
    rw [abs_of_pos (by positivity), ← Int.cast_abs, ← Nat.cast_natAbs]
    exact (pow_le_pow_right₀ (by norm_num) hk).trans hpow
  change Text.hasFewDigits n = false at h
  rw [Text.hasFewDigits, decide_eq_false_iff_not, not_lt] at h
  exact overflowBound_le_power.trans (hcast _ (by decide +kernel) h)

theorem toDouble_by_exact_value_powers :
    (powerDecimal 2).exactValue? = some (10 ^ 2) ∧ (powerInteger 2).exactValue? = some (10 ^ 2) ∧
      Agree ((number (powerDecimal 2)).toDouble none) ((number (powerInteger 2)).toDouble none) ∧
      (powerDecimal 400).exactValue? = some (10 ^ 400) ∧ (powerInteger 400).exactValue? = some (10 ^ 400) ∧
      ¬Agree ((number (powerDecimal 400)).toDouble none) ((number (powerInteger 400)).toDouble none) ∧
      ∃ s, (number (powerDecimal 400)).toDouble none = .ok (.infinite s) := by
  have hrange : |(10 : ℚ) ^ 2| < overflowBound := by
    have hpow : (2 : ℚ) ^ 7 ≤ 2 ^ 1023 := pow_le_pow_right₀ one_le_two (by decide)
    rw [abs_of_pos (by positivity)]
    exact lt_of_lt_of_le (by norm_num) (hpow.trans pow_lt_overflowBound.le)
  obtain ⟨hdecimal, hinteger⟩ := exactValue_power 2
  obtain ⟨hlargeDecimal, hlargeInteger⟩ := exactValue_power 400
  obtain ⟨hagree, hinfinite, -⟩ := toDouble_by_exact_value hlargeDecimal hlargeInteger
  refine ⟨hdecimal, hinteger, (toDouble_by_exact_value hdecimal hinteger).1.mpr (.inl hrange), hlargeDecimal,
    hlargeInteger, fun h => ?_, hinfinite.mpr ⟨overflowBound_le_power, rfl⟩⟩
  exact (hagree.mp h).elim (not_lt.mpr overflowBound_le_power) fun h => by cases h.1

/-- Numbers of one exact value are not always converted alike, since a decimal can become an infinity. -/
theorem powers_part :
    ¬∀ (a b : Number) (q : ℚ), a.exactValue? = some q → b.exactValue? = some q →
      Agree ((number a).toDouble none) ((number b).toDouble none) := by
  intro h
  have hagree := h _ _ _ (exactValue_power 400).1 (exactValue_power 400).2
  have hdecimal : (number (powerDecimal 400)).toDouble none = .ok (.infinite false) := by decide +kernel
  have hinteger : (number (powerInteger 400)).toDouble none =
      .error (.refused .noDouble (.number (powerInteger 400))) := by
    decide +kernel
  rw [hdecimal, hinteger] at hagree
  cases hagree

end Value

end Progression
