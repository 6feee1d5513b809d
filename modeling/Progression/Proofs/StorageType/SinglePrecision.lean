import Progression.Conversion
import Progression.Proofs.Double.Line
import Progression.Proofs.Double.ReadBack
import Progression.Proofs.Double.Representable

/-! # Single precision

Every number of single precision is a double, so what a double is rounded to is kept as it is. A double that is not
finite is kept as well. A finite one is refused from the midpoint between the greatest number of single precision and
the next power of two on; that is past the greatest number, which some doubles above it are still rounded to. -/

namespace Progression

/-- The least magnitude that is out of range in single precision. -/
def singleBound : ℚ := 2 ^ 128 - 2 ^ 103

theorem step_binary32 : (binary32.step : ℚ) = 2 ^ 23 := by
  norm_num [BinaryFormat.step, binary32]

theorem midpoint_limit_binary32 : binary32.midpoint (binary32.limit - 1) = singleBound := by
  have hunit : binary32.minExponent + (binary32.blocks - 2 : Nat) = (104 : Nat) := rfl
  rw [BinaryFormat.midpoint_limit (by decide), hunit, zpow_natCast, step_binary32, singleBound]
  norm_num

theorem rankOf_lt_limit_single_iff (q : ℚ) : binary32.rankOf q < binary32.limit ↔ |q| < singleBound := by
  rcases (abs_nonneg q).eq_or_lt with hzero | hpos
  · rw [← hzero, abs_eq_zero.mp hzero.symm, singleBound]
    exact iff_of_true (by decide) (by norm_num)
  · rw [← binary32.rankOf_abs, ← not_le, BinaryFormat.limit_le_rankOf_iff (by decide) (by decide) hpos,
      midpoint_limit_binary32, not_le]

/-- The magnitudes of single precision are magnitudes of doubles. -/
theorem exists_widened {n : Nat} (hn : n < binary32.limit) :
    ∃ rank : Fin binary64.limit, binary64.magnitude rank = binary32.magnitude n := by
  have hsignificand : binary32.significand n < 2 * binary64.step :=
    (binary32.significand_lt n).trans_le (by decide)
  have hexponent : binary64.minExponent ≤ binary32.exponent n := by
    have hmin := binary32.minExponent_le n
    simp only [binary32, binary64] at hmin ⊢
    omega
  have hmagnitude : binary64.magnitude (binary64.rankOf (binary32.magnitude n)) = binary32.magnitude n := by
    rw [binary32.magnitude_eq n]
    exact BinaryFormat.magnitude_rankOf_of_units (by decide) hsignificand hexponent
  have hlt : binary64.rankOf (binary32.magnitude n) < binary64.limit := by
    rw [← binary64.magnitude_strictMono.lt_iff_lt, hmagnitude, magnitude_limit_binary64]
    have hunit : binary32.minExponent + (binary32.blocks - 2 : Nat) = (104 : Nat) := rfl
    calc
      binary32.magnitude n < binary32.magnitude binary32.limit := binary32.magnitude_strictMono hn
      _ = 2 ^ 128 := by
        rw [BinaryFormat.magnitude_limit (by decide), hunit, zpow_natCast, step_binary32]
        norm_num
      _ ≤ 2 ^ 1024 := pow_le_pow_right₀ one_le_two (by decide)
  exact ⟨⟨_, hlt⟩, hmagnitude⟩

namespace Double

/-- A double is short of the bound of single precision, if it has a value. -/
def FitsSingle (v : Double) : Prop := ∀ q, v.toRat? = some q → |q| < singleBound

section Finite

variable {s : Bool} {rank : Fin binary64.limit}

theorem abs_signed_magnitude (s : Bool) (rank : Nat) :
    |if s then -binary64.magnitude rank else binary64.magnitude rank| = binary64.magnitude rank := by
  rw [abs_signed, abs_of_nonneg (magnitude_nonneg rank)]

theorem fitsSingle_finite_iff :
    (finite s rank).FitsSingle ↔ binary32.rankOf (binary64.magnitude rank) < binary32.limit := by
  rw [rankOf_lt_limit_single_iff, abs_of_nonneg (magnitude_nonneg rank)]
  constructor
  · intro h
    have hlt := h _ rfl
    rwa [abs_signed_magnitude] at hlt
  · rintro h q hq
    rw [← Option.some.inj hq, abs_signed_magnitude]
    exact h

/-- What is in range is rounded, and widened again without loss. -/
theorem toSingle_of_fits (h : (finite s rank).FitsSingle) :
    ∃ widened : Fin binary64.limit, (finite s rank).toSingle = finite s widened ∧
      binary64.magnitude widened = binary32.magnitude (binary32.rankOf (binary64.magnitude rank)) := by
  have hlt := fitsSingle_finite_iff.mp h
  obtain ⟨widened, hwidened⟩ := exists_widened hlt
  refine ⟨widened, ?_, hwidened⟩
  calc
    (finite s rank).toSingle = signed s (binary32.magnitude (binary32.rankOf (binary64.magnitude rank))) := if_pos hlt
    _ = signed s (binary64.magnitude widened) := by rw [hwidened]
    _ = finite s widened := signed_of_rankOf (binary64.rankOf_magnitude (by decide) widened)

theorem toSingle_of_not_fits (h : ¬(finite s rank).FitsSingle) : (finite s rank).toSingle = .infinite s :=
  if_neg fun hlt => h (fitsSingle_finite_iff.mpr hlt)

end Finite

section Values

variable {v w : Double} {q : ℚ}

theorem fitsSingle_of_not_finite (h : v.isFinite = false) : v.FitsSingle := by
  intro q hq
  rw [isFinite_iff.mpr ⟨q, hq⟩] at h
  cases h

theorem fitsSingle_iff (hv : v.toRat? = some q) : v.FitsSingle ↔ |q| < singleBound := by
  constructor
  · intro h
    exact h q hv
  · intro h p hp
    cases hv.symm.trans hp
    exact h

theorem toSingle_of_not_finite (h : v.isFinite = false) : v.toSingle = v := by
  cases v with
  | nan => rfl
  | infinite s => rfl
  | finite s rank => cases h

/-- The value in single precision is the nearest number of that format, and its sign is kept even where it is zero. -/
theorem toRat?_toSingle (hv : v.toRat? = some q) (h : |q| < singleBound) :
    v.toSingle.toRat? = some (binary32.nearestNumber q) ∧ v.toSingle.negative = v.negative := by
  cases v with
  | nan => cases hv
  | infinite s => cases hv
  | finite s rank =>
      obtain ⟨widened, hsingle, hwidened⟩ := toSingle_of_fits ((fitsSingle_iff hv).mpr h)
      obtain rfl := Option.some.inj hv
      rw [hsingle, binary32.nearestNumber_signed s (magnitude_nonneg rank), ← hwidened]
      exact ⟨rfl, rfl⟩

/-- What has been rounded to single precision is rounded to itself. -/
theorem toSingle_toSingle (h : v.FitsSingle) : v.toSingle.FitsSingle ∧ v.toSingle.toSingle = v.toSingle := by
  cases v with
  | nan => exact ⟨h, rfl⟩
  | infinite s => exact ⟨h, rfl⟩
  | finite s rank =>
      obtain ⟨widened, hsingle, hwidened⟩ := toSingle_of_fits h
      have hrank : binary32.rankOf (binary64.magnitude widened) = binary32.rankOf (binary64.magnitude rank) := by
        rw [hwidened, binary32.rankOf_magnitude (by decide)]
      have hfits : (finite s widened).FitsSingle := by
        rw [fitsSingle_finite_iff, hrank]
        exact fitsSingle_finite_iff.mp h
      obtain ⟨again, hagain, hmagnitude⟩ := toSingle_of_fits hfits
      rw [hrank, ← hwidened] at hmagnitude
      have hsame : again = widened := Fin.ext (binary64.magnitude_strictMono.injective hmagnitude)
      rw [hsingle, hagain, hsame]
      exact ⟨hfits, rfl⟩

theorem fitsSingle_neg (h : v.FitsSingle) : (-v).FitsSingle := by
  cases v with
  | nan => exact h
  | infinite s => exact fitsSingle_of_not_finite rfl
  | finite s rank => exact fitsSingle_finite_iff.mpr (fitsSingle_finite_iff.mp h)

theorem toSingle_neg (v : Double) : (-v).toSingle = -v.toSingle := by
  have hsigned (s : Bool) (r : ℚ) : signed (!s) r = -signed s r := by
    unfold signed
    split <;> rfl
  cases v with
  | nan => rfl
  | infinite s => rfl
  | finite s rank =>
      change (if _ then signed (!s) _ else .infinite (!s)) = -(if _ then signed s _ else .infinite s)
      split
      · exact hsigned s _
      · rfl

theorem atMost_of_le {r : ℚ} (hv : v.toRat? = some q) (hw : w.toRat? = some r) (h : q ≤ r) : v.AtMost w := by
  obtain ⟨i, hi, -, rfl⟩ := toRat?_eq_some_iff.mp hv
  obtain ⟨j, hj, -, rfl⟩ := toRat?_eq_some_iff.mp hw
  refine atMost_iff.mpr ⟨i, j, hi, hj, ?_⟩
  by_contra hlt
  exact absurd h (not_le.mpr (numberAt_lt_iff.mpr (Int.not_le.mp hlt)))

/-- A number is between the infinities, or it is one of them. -/
theorem position?_cases {i : Int} (h : v.position? = some i) :
    (v.toRat? = some (numberAt i) ∧ -(binary64.limit : Int) < i ∧ i < binary64.limit) ∨
      (v = .infinite true ∧ i = -(binary64.limit : Int)) ∨ (v = .infinite false ∧ i = binary64.limit) := by
  cases v with
  | nan => cases h
  | infinite s =>
      obtain rfl := Option.some.inj h
      cases s with
      | false => exact .inr (.inr ⟨rfl, rfl⟩)
      | true => exact .inr (.inl ⟨rfl, rfl⟩)
  | finite s rank =>
      have hlt := rank.isLt
      have hbound : i.natAbs < binary64.limit := by
        obtain rfl := Option.some.inj h
        split <;> omega
      exact .inl ⟨toRat?_eq_some_iff.mpr ⟨i, h, hbound, rfl⟩, by omega, by omega⟩

/-- Two numbers in order have values in order, or the first is below or the second above all values. -/
theorem AtMost.cases (h : v.AtMost w) :
    (∃ q r, v.toRat? = some q ∧ w.toRat? = some r ∧ q ≤ r) ∨ v = .infinite true ∨ w = .infinite false := by
  obtain ⟨i, j, hi, hj, hij⟩ := atMost_iff.mp h
  have hlimit : (0 : Int) < binary64.limit := by decide
  rcases position?_cases hi with ⟨hv, hlow, -⟩ | ⟨hv, -⟩ | ⟨-, rfl⟩
  · rcases position?_cases hj with ⟨hw, -, -⟩ | ⟨-, rfl⟩ | ⟨hw, -⟩
    · exact .inl ⟨_, _, hv, hw, numberAt_le_of_le hij⟩
    · omega
    · exact .inr (.inr hw)
  · exact .inr (.inl hv)
  · rcases position?_cases hj with ⟨-, -, hlt⟩ | ⟨-, rfl⟩ | ⟨hw, -⟩
    · omega
    · omega
    · exact .inr (.inr hw)

/-- Every number is between the infinities. -/
theorem atMost_infinite {i : Int} (hi : v.position? = some i) :
    (infinite true).AtMost v ∧ v.AtMost (.infinite false) := by
  have hbetween : -(binary64.limit : Int) ≤ i ∧ i ≤ binary64.limit := by
    have hlimit : (0 : Int) < binary64.limit := by decide
    rcases position?_cases hi with ⟨-, hlow, hhigh⟩ | ⟨-, rfl⟩ | ⟨-, rfl⟩ <;> omega
  exact ⟨atMost_iff.mpr ⟨_, i, rfl, hi, hbetween.1⟩, atMost_iff.mpr ⟨i, _, hi, rfl, hbetween.2⟩⟩

theorem exists_position_toSingle {i : Int} (hi : v.position? = some i) : ∃ j, v.toSingle.position? = some j := by
  cases v with
  | nan => cases hi
  | infinite s => exact ⟨_, rfl⟩
  | finite s rank =>
      by_cases h : (finite s rank).FitsSingle
      · obtain ⟨widened, hsingle, -⟩ := toSingle_of_fits h
        rw [hsingle]
        exact ⟨_, rfl⟩
      · rw [toSingle_of_not_fits h]
        exact ⟨_, rfl⟩

theorem atMost_toSingle (h : v.AtMost w) (hv : v.FitsSingle) (hw : w.FitsSingle) : v.toSingle.AtMost w.toSingle := by
  obtain ⟨i, j, hi, hj, -⟩ := atMost_iff.mp h
  obtain ⟨i', hi'⟩ := exists_position_toSingle hi
  obtain ⟨j', hj'⟩ := exists_position_toSingle hj
  rcases h.cases with ⟨q, r, hq, hr, hle⟩ | rfl | rfl
  · obtain ⟨hvalue, -⟩ := toRat?_toSingle hq (hv q hq)
    obtain ⟨hvalue', -⟩ := toRat?_toSingle hr (hw r hr)
    exact atMost_of_le hvalue hvalue' (BinaryFormat.nearestNumber_mono (by decide) hle)
  · exact (atMost_infinite hj').1
  · exact (atMost_infinite hi').2

end Values

end Double

/-! ## Storing -/

namespace StorageType

open Double

section Store

variable {v : Double}

theorem store_f32_of_fits (h : v.FitsSingle) : v.store (.exactly .f32) = .ok (.double v.toSingle) := by
  cases v with
  | nan => rfl
  | infinite s => rfl
  | finite s rank =>
      obtain ⟨widened, hwidened, -⟩ := toSingle_of_fits h
      have hkept : ¬((finite s rank).toSingle.isInfinite && (finite s rank).isFinite) = true := by
        rw [hwidened]
        exact Bool.false_ne_true
      have hsingle : f32.single (finite s rank) = .ok (finite s rank).toSingle := if_neg hkept
      change (f32.single (finite s rank)).map Number.double = _
      rw [hsingle]
      rfl

theorem store_f32_of_not_fits (h : ¬v.FitsSingle) :
    v.store (.exactly .f32) = .error (.refused (.outOfRange .f32) (.double v)) := by
  cases v with
  | nan => exact absurd (fitsSingle_of_not_finite rfl) h
  | infinite s => exact absurd (fitsSingle_of_not_finite rfl) h
  | finite s rank =>
      have hlost : ((finite s rank).toSingle.isInfinite && (finite s rank).isFinite) = true := by
        rw [toSingle_of_not_fits h]
        rfl
      have hsingle : f32.single (finite s rank) = .error (.refused (.outOfRange .f32) (.double (finite s rank))) :=
        if_pos hlost
      change (f32.single (finite s rank)).map Number.double = _
      rw [hsingle]
      rfl

theorem store_f32_eq_ok_iff {w : Double} :
    v.store (.exactly .f32) = .ok (.double w) ↔ v.FitsSingle ∧ v.toSingle = w := by
  by_cases h : v.FitsSingle
  · rw [store_f32_of_fits h]
    simp [h]
  · rw [store_f32_of_not_fits h]
    simp [h]

theorem not_fitsSingle_iff : ¬v.FitsSingle ↔ ∃ q, v.toRat? = some q ∧ singleBound ≤ |q| := by
  simp [FitsSingle]

end Store

/-- Single precision refuses a finite double exactly if it is at or past the bound. What is not finite is kept as it
is; any other double is stored as the nearest number of single precision, of two that are as near the one with the even
significand, and with its own sign. What is stored is stored as itself, doubles are stored in their order, and the
opposite of a double as the opposite. -/
theorem store_single_precision :
    (∀ v : Double, v.store (.exactly .f32) = .error (.refused (.outOfRange .f32) (.double v)) ↔
      ∃ q, v.toRat? = some q ∧ singleBound ≤ |q|) ∧
      (∀ v : Double, v.isFinite = false → v.store (.exactly .f32) = .ok (.double v)) ∧
      (∀ (v : Double) (q : ℚ), v.toRat? = some q → |q| < singleBound →
        ∃ w u, v.store (.exactly .f32) = .ok (.double w) ∧ w.toRat? = some u ∧ binary32.IsNearest q u ∧
          w.negative = v.negative) ∧
      (∀ v w : Double, v.store (.exactly .f32) = .ok (.double w) → w.store (.exactly .f32) = .ok (.double w)) ∧
      (∀ v w v' w' : Double, v.AtMost w → v.store (.exactly .f32) = .ok (.double v') →
        w.store (.exactly .f32) = .ok (.double w') → v'.AtMost w') ∧
      ∀ v w : Double, v.store (.exactly .f32) = .ok (.double w) → (-v).store (.exactly .f32) = .ok (.double (-w)) := by
  refine ⟨fun v => ?_, fun v hv => ?_, fun v q hv hq => ?_, fun v w h => ?_, fun v w v' w' hvw hv hw => ?_,
    fun v w h => ?_⟩
  · rw [← not_fitsSingle_iff]
    refine ⟨fun hrefused hfits => ?_, store_f32_of_not_fits⟩
    rw [store_f32_of_fits hfits] at hrefused
    cases hrefused
  · rw [store_f32_of_fits (fitsSingle_of_not_finite hv), toSingle_of_not_finite hv]
  · obtain ⟨hvalue, hsign⟩ := toRat?_toSingle hv hq
    have hrange := (rankOf_lt_limit_single_iff q).mpr hq
    exact ⟨_, _, store_f32_of_fits ((fitsSingle_iff hv).mpr hq), hvalue,
      BinaryFormat.isNearest_nearestNumber (by decide) (by decide) hrange, hsign⟩
  · obtain ⟨hfits, rfl⟩ := store_f32_eq_ok_iff.mp h
    obtain ⟨hagain, hsame⟩ := toSingle_toSingle hfits
    exact store_f32_eq_ok_iff.mpr ⟨hagain, hsame⟩
  · obtain ⟨hvfits, rfl⟩ := store_f32_eq_ok_iff.mp hv
    obtain ⟨hwfits, rfl⟩ := store_f32_eq_ok_iff.mp hw
    exact atMost_toSingle hvw hvfits hwfits
  · obtain ⟨hfits, rfl⟩ := store_f32_eq_ok_iff.mp h
    exact store_f32_eq_ok_iff.mpr ⟨fitsSingle_neg hfits, toSingle_neg v⟩

/-- The double at the bound is refused. The one before it is past the greatest number of single precision, and stored
as that; so that number is stored as itself, and the opposite of the one before the bound as its opposite. -/
theorem store_single_precision_edges :
    (Double.ofInt 340282356779733661637539395458142568448).store (.exactly .f32) =
        .error (.refused (.outOfRange .f32) (.double (Double.ofInt 340282356779733661637539395458142568448))) ∧
      (Double.ofInt 340282356779733623858607532500980858880).store (.exactly .f32) =
        .ok (.double (Double.ofInt 340282346638528859811704183484516925440)) ∧
      (Double.ofInt 340282346638528859811704183484516925440).store (.exactly .f32) =
        .ok (.double (Double.ofInt 340282346638528859811704183484516925440)) ∧
      (-Double.ofInt 340282356779733623858607532500980858880).store (.exactly .f32) =
        .ok (.double (-Double.ofInt 340282346638528859811704183484516925440)) := by
  obtain ⟨hrefused, -, -, hagain, -, hopposite⟩ := store_single_precision
  have hbefore : (Double.ofInt 340282356779733623858607532500980858880).store (.exactly .f32) =
      .ok (.double (Double.ofInt 340282346638528859811704183484516925440)) := by
    decide +kernel
  have hbound : (Double.ofInt 340282356779733661637539395458142568448).toRat? =
      some (340282356779733661637539395458142568448 : ℚ) := by
    decide +kernel
  refine ⟨(hrefused _).mpr ⟨_, hbound, ?_⟩, hbefore, hagain _ _ hbefore, hopposite _ _ hbefore⟩
  rw [singleBound, abs_of_pos (by norm_num)]
  norm_num

end StorageType

end Progression
