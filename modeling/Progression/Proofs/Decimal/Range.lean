import Progression.Decimal.Arithmetic
import Progression.Proofs.Double.Nearest
import Progression.Proofs.Value.Places

/-! # The range of decimals

The results of decimal arithmetic have a greatest one, and a number is rounded to a result if it is no greater than
that, however many digits it has. So what lies between zero and a sum can be subtracted from the sum. -/

namespace Progression.Decimal

/-- The exponent of the last digit of a result whose first digit has the greatest exponent. -/
def greatestUnit : Int := greatestLead - (precision - 1)

/-- The greatest result. -/
def greatest : ℚ := decimalRat (10 ^ precision - 1) greatestUnit

theorem digitCount_pos (c : Nat) : 0 < digitCount c := Nat.length_toDigits_pos

theorem digitCount_le_iff {c k : Nat} (hk : 0 < k) : digitCount c ≤ k ↔ c < 10 ^ k :=
  Nat.length_toDigits_le_iff (by decide) hk

theorem pow_digitCount_le {c : Nat} (hc : c ≠ 0) : 10 ^ (digitCount c - 1) ≤ c := by
  rcases Nat.eq_zero_or_pos (digitCount c - 1) with hzero | hpos
  · rw [hzero]
    omega
  · have hmore : ¬digitCount c ≤ digitCount c - 1 := by omega
    rw [digitCount_le_iff hpos] at hmore
    exact Nat.le_of_not_lt hmore

/-- A number is below the power of ten behind its first digit. -/
theorem decimalRat_lt_pow (c : Nat) (e : Int) : decimalRat c e < 10 ^ (lead c e + 1) := by
  have hdigits : (c : ℚ) < 10 ^ (digitCount c : ℤ) := by
    rw [zpow_natCast]
    exact_mod_cast (digitCount_le_iff (digitCount_pos c)).mp (Nat.le_refl _)
  rw [decimalRat_eq, lead, show e + digitCount c - 1 + 1 = (digitCount c : ℤ) + e by omega, zpow_add₀ (by norm_num)]
  exact mul_lt_mul_of_pos_right hdigits (ten_zpow_pos e)

theorem pow_lead_le {c : Nat} (hc : c ≠ 0) (e : Int) : 10 ^ lead c e ≤ decimalRat c e := by
  have hpos := digitCount_pos c
  have hdigits : (10 : ℚ) ^ ((digitCount c : ℤ) - 1) ≤ c := by
    rw [show (digitCount c : ℤ) - 1 = (digitCount c - 1 : ℕ) by omega, zpow_natCast]
    exact_mod_cast pow_digitCount_le hc
  rw [decimalRat_eq, lead, show e + digitCount c - 1 = (digitCount c : ℤ) - 1 + e by omega, zpow_add₀ (by norm_num)]
  exact mul_le_mul_of_nonneg_right hdigits (ten_zpow_pos e).le

theorem lead_le_of_lt {c : Nat} (hc : c ≠ 0) {e k : Int} (h : decimalRat c e < 10 ^ (k + 1)) : lead c e ≤ k := by
  have hlt := (pow_lead_le hc e).trans_lt h
  rw [zpow_lt_zpow_iff_right₀ (by norm_num)] at hlt
  omega

theorem decimalRat_le_iff {c d : Nat} (e : Int) : decimalRat c e ≤ decimalRat d e ↔ c ≤ d := by
  rw [decimalRat_eq, decimalRat_eq, mul_le_mul_iff_left₀ (ten_zpow_pos e), Nat.cast_le]

theorem decimalRat_lt_iff {c d : Nat} (e : Int) : decimalRat c e < decimalRat d e ↔ c < d := by
  rw [decimalRat_eq, decimalRat_eq, mul_lt_mul_iff_left₀ (ten_zpow_pos e), Nat.cast_lt]

theorem inUnits_eq (c : Nat) (e unit : Int) : inUnits c e unit = c * 10 ^ (e - unit).toNat := by
  rw [inUnits]
  split
  · rename_i hc
    rw [hc, Nat.zero_mul]
  · rfl

/-- The number in units of a power of ten that is no greater. -/
theorem decimalRat_inUnits (c : Nat) {e unit : Int} (h : unit ≤ e) :
    decimalRat (inUnits c e unit) unit = decimalRat c e := by
  have hpow : (10 : ℚ) ^ e = 10 ^ (e - unit).toNat * 10 ^ unit := by
    rw [← zpow_natCast, ← zpow_add₀ (by norm_num)]
    congr 1
    omega
  rw [decimalRat_eq, decimalRat_eq, inUnits_eq, hpow]
  push_cast
  ring

/-- The power of ten above the greatest result. -/
theorem decimalRat_pow_precision : decimalRat (10 ^ precision) greatestUnit = 10 ^ (greatestLead + 1) := by
  rw [decimalRat_eq, Nat.cast_pow, ← zpow_natCast, Nat.cast_ofNat, ← zpow_add₀ (by norm_num)]
  congr 1

theorem greatest_lt : greatest < 10 ^ (greatestLead + 1) := by
  rw [← decimalRat_pow_precision, greatest, decimalRat_lt_iff]
  exact Nat.sub_lt (Nat.pow_pos (by decide)) (by decide)

/-- What has no more digits than a result, and the first of them within the limits, is no greater than the greatest. -/
theorem le_greatest {c : Nat} {e : Int} (hc : c < 10 ^ precision) (hlead : c ≠ 0 → lead c e ≤ greatestLead) :
    decimalRat c e ≤ greatest := by
  by_cases hzero : c = 0
  · rw [hzero, decimalRat_zero]
    exact decimalRat_nonneg _ _
  rcases le_or_gt e greatestUnit with hle | hgt
  · rw [greatest, ← decimalRat_inUnits _ hle, decimalRat_le_iff, inUnits_eq]
    exact (Nat.le_sub_one_of_lt hc).trans (Nat.le_mul_of_pos_right _ (Nat.pow_pos (by decide)))
  · -- in units of the last digit of the greatest result, the number is an integer below `10 ^ precision`
    have hlt : decimalRat c e < 10 ^ (greatestLead + 1) :=
      (decimalRat_lt_pow c e).trans_le (zpow_le_zpow_right₀ (by norm_num) (by have := hlead hzero; omega))
    rw [← decimalRat_pow_precision, ← decimalRat_inUnits c hgt.le, decimalRat_lt_iff] at hlt
    rw [← decimalRat_inUnits c hgt.le, greatest, decimalRat_le_iff]
    exact Nat.le_sub_one_of_lt hlt

theorem dropDigits_zero (c : Nat) : dropDigits c 0 = c := by
  rw [dropDigits, if_neg (Nat.not_lt_zero _)]
  simpa using roundQuotient_mul c Nat.one_pos

/-- Dropping digits does not go past a number without them. -/
theorem dropDigits_le {c drop m : Nat} (h : c ≤ m * 10 ^ drop) : dropDigits c drop ≤ m := by
  rw [dropDigits]
  split
  · exact Nat.zero_le m
  · have hpos : 0 < Nat.pow 10 drop := Nat.pow_pos (by decide)
    have hquotient : (c : ℚ) / (Nat.pow 10 drop : ℕ) ≤ (m : ℤ) := by
      rw [div_le_iff₀ (by exact_mod_cast hpos)]
      exact_mod_cast h
    exact_mod_cast (nearestEven_roundQuotient hpos).le_of_le hquotient

/-- The unit that a number is rounded to, before the rounding carries. -/
def unitOf (c : Nat) (e : Int) : Int := max leastExponent (e + (digitCount c - precision : Nat))

theorem le_unitOf (c : Nat) (e : Int) : e ≤ unitOf c e := by
  unfold unitOf
  omega

/-- No more digits are kept than a result has, but for a carry. -/
theorem dropDigits_le_pow (c : Nat) (e : Int) : dropDigits c (unitOf c e - e).toNat ≤ 10 ^ precision := by
  refine dropDigits_le ?_
  have hdigits := (digitCount_le_iff (digitCount_pos c)).mp (Nat.le_refl _)
  rw [← Nat.pow_add]
  refine hdigits.le.trans (Nat.pow_le_pow_right (by decide) ?_)
  unfold unitOf
  omega

/-- A number in the range is rounded to one in the range. -/
theorem dropDigits_le_greatest {c : Nat} {e : Int} (h : decimalRat c e ≤ greatest) :
    decimalRat (dropDigits c (unitOf c e - e).toNat) (unitOf c e) ≤ greatest := by
  by_cases hc : c = 0
  · have hzero : dropDigits c (unitOf c e - e).toNat ≤ 0 := dropDigits_le (by rw [hc, Nat.zero_mul])
    rw [Nat.le_zero.mp hzero, decimalRat_zero]
    exact decimalRat_nonneg _ _
  rcases (le_unitOf c e).eq_or_lt with heq | hlt
  · rw [← heq, Int.sub_self, Int.toNat_zero, dropDigits_zero]
    exact h
  · -- digits are dropped only below the last digit of the greatest result
    have hlead := lead_le_of_lt hc (h.trans_lt greatest_lt)
    have hunit : unitOf c e ≤ greatestUnit := by
      unfold unitOf at hlt ⊢
      unfold lead at hlead
      unfold leastExponent greatestUnit greatestLead precision at *
      omega
    rw [greatest, ← decimalRat_inUnits _ hunit] at h ⊢
    rw [← decimalRat_inUnits _ hlt.le, decimalRat_le_iff, inUnits_eq _ (unitOf c e)] at h
    rw [decimalRat_le_iff]
    exact dropDigits_le h

/-- The digits that are kept and their unit, where a carry makes one digit more of them. -/
def carried (kept : Nat) (unit : Int) : Nat × Int :=
  if kept = 10 ^ precision then (kept / 10, unit + 1) else (kept, unit)

theorem decimalRat_carried (kept : Nat) (unit : Int) :
    decimalRat (carried kept unit).1 (carried kept unit).2 = decimalRat kept unit := by
  unfold carried
  split
  · rename_i hkept
    rw [hkept, decimalRat_eq, decimalRat_eq, zpow_add_one₀ (by norm_num)]
    norm_num [precision]
    ring
  · rfl

theorem carried_lt {kept : Nat} (h : kept ≤ 10 ^ precision) (unit : Int) : (carried kept unit).1 < 10 ^ precision := by
  unfold carried
  split
  · rename_i hkept
    rw [hkept]
    exact Nat.div_lt_self (Nat.pow_pos (by decide)) (by decide)
  · omega

theorem round_eq {s : Bool} {c : Nat} (hc : c ≠ 0) (e : Int) :
    round s c e =
      let kept := carried (dropDigits c (unitOf c e - e).toNat) (unitOf c e)
      if kept.1 ≠ 0 ∧ greatestLead < lead kept.1 kept.2 then .error .overflow else .ok (.finite s kept.1 kept.2) := by
  rw [round, if_neg hc]
  rfl

/-- A number up to the greatest result is rounded to a result. -/
theorem exists_round {c : Nat} {e : Int} (h : decimalRat c e ≤ greatest) (s : Bool) : ∃ d, round s c e = .ok d := by
  by_cases hc : c = 0
  · exact ⟨_, if_pos hc⟩
  rw [round_eq hc]
  have hkept := (dropDigits_le_greatest h).trans_lt greatest_lt
  rw [← decimalRat_carried] at hkept
  exact ⟨_, if_neg fun hover => Int.not_lt.mpr (lead_le_of_lt hover.1 hkept) hover.2⟩

/-- Every result is at most the greatest. -/
theorem le_greatest_of_round {s t : Bool} {c k : Nat} {e u : Int} (h : round s c e = .ok (.finite t k u)) :
    decimalRat k u ≤ greatest := by
  by_cases hc : c = 0
  · rw [round, if_pos hc] at h
    cases h
    rw [decimalRat_zero]
    exact decimalRat_nonneg _ _
  rw [round_eq hc] at h
  dsimp only at h
  split at h
  · cases h
  · rename_i hover
    cases h
    exact le_greatest (carried_lt (dropDigits_le_pow c e) _) fun hne => Int.not_lt.mp fun hlt => hover ⟨hne, hlt⟩

theorem floorOf_lt (c : Nat) (e : Int) : floorOf c e < e := by
  unfold floorOf
  omega

section Opposite

variable {s t : Bool} {c d : Nat} {e f : Int}

/-- What stands in for the smaller operand of a sum is in the range as well. -/
theorem nearby_le_greatest (hc : decimalRat c e ≤ greatest) (hd : decimalRat d f ≤ greatest) :
    decimalRat (nearby c e d f).1 (nearby c e d f).2 ≤ greatest := by
  unfold nearby
  split
  · rename_i hreplaced
    refine le_trans ?_ hc
    have hone : ((min d 1 : ℕ) : ℚ) ≤ c := by exact_mod_cast (Nat.min_le_right d 1).trans (Nat.pos_of_ne_zero hreplaced.1)
    rw [decimalRat_eq, decimalRat_eq]
    exact mul_le_mul hone (zpow_le_zpow_right₀ (by norm_num) (floorOf_lt c e).le) (ten_zpow_pos _).le (Nat.cast_nonneg c)
  · exact hd

theorem nearby_zero (c : Nat) (e f : Int) : (nearby c e 0 f).1 = 0 := by
  unfold nearby
  split
  · rfl
  · rfl

/-- A sum of opposite signs is no further from zero than an operand. -/
theorem natAbs_add_le (m n : Nat) (h : s ≠ t ∨ m = 0 ∨ n = 0) :
    (signedInt s m + signedInt t n).natAbs ≤ max m n := by
  unfold signedInt
  cases s <;> cases t <;> simp at h ⊢ <;> omega

/-- Decimals of opposite signs in the range have a sum. -/
theorem exists_addFinite (hsigns : s ≠ t ∨ c = 0 ∨ d = 0) (hc : decimalRat c e ≤ greatest)
    (hd : decimalRat d f ≤ greatest) : ∃ r, addFinite s c e t d f = .ok r := by
  obtain ⟨near, hnear⟩ : ∃ near, near = nearby c e d f := ⟨_, rfl⟩
  have hle := nearby_le_greatest hc hd
  rw [← hnear] at hle
  rw [addFinite, ← hnear]
  refine exists_round ?_ _
  have hsigns' : s ≠ t ∨ inUnits c e (min e near.2) = 0 ∨ inUnits near.1 near.2 (min e near.2) = 0 := by
    rcases hsigns with hopposite | rfl | rfl
    · exact .inl hopposite
    · exact .inr (.inl (if_pos rfl))
    · rw [hnear, nearby_zero]
      exact .inr (.inr (if_pos rfl))
  refine ((decimalRat_le_iff _).mpr (natAbs_add_le _ _ hsigns')).trans ?_
  rcases Nat.le_total (inUnits c e (min e near.2)) (inUnits near.1 near.2 (min e near.2)) with hmax | hmax
  · rw [Nat.max_eq_right hmax, decimalRat_inUnits _ (Int.min_le_right _ _)]
    exact hle
  · rw [Nat.max_eq_left hmax, decimalRat_inUnits _ (Int.min_le_left _ _)]
    exact hc

end Opposite

/-- What is not a number has no finite sum. -/
theorem nanResult_ne_finite {a b : Decimal} (h : a.isNaN ∨ b.isNaN) (s : Bool) (c : Nat) (e : Int) :
    nanResult a b ≠ .ok (.finite s c e) := by
  unfold nanResult
  split
  · exact fun hresult => by cases hresult
  · exact fun hresult => by cases hresult
  · exact fun hresult => by cases hresult
  · exact fun hresult => by cases hresult
  · cases a <;> cases b <;> simp_all [isNaN]

/-- A finite sum is at most the greatest result. -/
theorem le_greatest_of_add {a b : Decimal} {s : Bool} {c : Nat} {e : Int} (h : a.add b = .ok (.finite s c e)) :
    decimalRat c e ≤ greatest := by
  cases a with
  | nan t signaling payload => exact absurd h (nanResult_ne_finite (.inl rfl) s c e)
  | infinite t =>
      cases b with
      | nan t' signaling payload => exact absurd h (nanResult_ne_finite (.inr rfl) s c e)
      | infinite t' =>
          rw [add] at h
          split at h <;> cases h
      | finite t' d f => cases h
  | finite t d f =>
      cases b with
      | nan t' signaling payload => exact absurd h (nanResult_ne_finite (.inr rfl) s c e)
      | infinite t' => cases h
      | finite t' d' f' =>
          rw [add] at h
          split at h
          · exact le_greatest_of_round h
          · exact le_greatest_of_round h

theorem less_finite (s t : Bool) (c d : Nat) (e f : Int) :
    (Number.decimal (.finite s c e)).less (.decimal (.finite t d f)) =
      .ok (decide ((if s then -decimalRat c e else decimalRat c e) < if t then -decimalRat d f else decimalRat d f)) := by
  rw [← Number.toRat_signedInt, ← Number.toRat_signedInt]
  exact congrArg Except.ok (Scaled.isLT_compare _ _)

theorem less_finite_int (s : Bool) (c : Nat) (e n : Int) :
    (Number.decimal (.finite s c e)).less (.int n) =
      .ok (decide ((if s then -decimalRat c e else decimalRat c e) < n)) := by
  rw [← Number.toRat_signedInt, ← Scaled.toRat_ofRat n]
  exact congrArg Except.ok (Scaled.isLT_compare _ _)

/-- What lies from zero on and below a sum can be subtracted from it. -/
theorem exists_sub_of_add {a b s m : Decimal} (hs : a.add b = .ok s)
    (hm : (Number.decimal m).less (.int 0) = .ok false) (hlt : (Number.decimal m).less (.decimal s) = .ok true) :
    ∃ d, s.sub m = .ok d := by
  cases m with
  | nan => cases hm
  | infinite negative =>
      cases negative with
      | true => cases hm
      | false =>
          cases s with
          | nan => cases hlt
          | infinite negative => cases negative <;> cases hlt
          | finite => cases hlt
  | finite t d f =>
      cases s with
      | nan => cases hlt
      | infinite negative => exact ⟨.infinite negative, rfl⟩
      | finite s c e =>
          have hgreatest := le_greatest_of_add hs
          have hc := decimalRat_nonneg c e
          have hd := decimalRat_nonneg d f
          rw [less_finite_int, Except.ok.injEq, decide_eq_false_iff_not, not_lt, Int.cast_zero] at hm
          rw [less_finite, Except.ok.injEq, decide_eq_true_eq] at hlt
          obtain rfl : s = false := by
            cases s with
            | false => rfl
            | true =>
                rw [if_pos rfl] at hlt
                linarith
          rw [if_neg Bool.false_ne_true] at hlt
          -- a zero is the only number from zero on with the sign of the negative ones
          have hzero : t = false ∨ d = 0 := by
            cases t with
            | false => exact .inl rfl
            | true =>
                rw [if_pos rfl] at hm
                by_contra hne
                have hpos := Double.decimalRat_pos (fun hd => hne (.inr hd)) f
                linarith
          have hle : decimalRat d f ≤ greatest := by
            rcases hzero with rfl | rfl
            · exact (hlt.le).trans hgreatest
            · rw [decimalRat_zero]
              exact decimalRat_nonneg _ _
          rw [sub, neg, add]
          split
          · exact exists_addFinite (by grind) hgreatest hle
          · exact exists_addFinite (by grind) hle hgreatest

end Progression.Decimal
