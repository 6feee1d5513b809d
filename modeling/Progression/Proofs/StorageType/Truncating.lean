import Progression.Proofs.Double.Line
import Progression.Proofs.StorageType.Storing

/-! # What an integer type takes

An integer type takes a finite double for its value without the fraction, if that integer is within the limits. A type
that begins at zero takes no negative double, although the fraction of one above `-1` leaves zero. What is taken are
the doubles between two ends, and they are taken in their order. -/

namespace Progression

/-- A rational without its fraction. -/
def towardZero (r : ℚ) : ℤ := if 0 ≤ r then ⌊r⌋ else ⌈r⌉

theorem towardZero_intCast (n : ℤ) : towardZero n = n := by
  unfold towardZero
  rw [Int.floor_intCast, Int.ceil_intCast, ite_self]

theorem towardZero_mono {r s : ℚ} (h : r ≤ s) : towardZero r ≤ towardZero s := by
  unfold towardZero
  split
  · rename_i hr
    rw [if_pos (hr.trans h)]
    exact Int.floor_le_floor h
  · rename_i hr
    split
    · rename_i hs
      have hceil : ⌈r⌉ ≤ 0 := Int.ceil_le.mpr (by push_cast; exact (not_le.mp hr).le)
      exact hceil.trans (Int.floor_nonneg.mpr hs)
    · exact Int.ceil_le_ceil h

/-- The quotient of integers that drops the fraction is the rational without its fraction. -/
theorem tdiv_num_den (r : ℚ) : Int.tdiv r.num r.den = towardZero r := by
  unfold towardZero
  split
  · rename_i hr
    rw [Rat.floor_def', Int.tdiv_eq_ediv_of_nonneg (Rat.num_nonneg.mpr hr)]
  · rename_i hr
    have hnum : 0 ≤ -r.num := by
      have hneg := Rat.num_neg.mpr (not_le.mp hr)
      omega
    rw [← neg_neg ⌈r⌉, ← Int.floor_neg, Rat.floor_def', Rat.num_neg_eq_neg_num, Rat.den_neg_eq_den,
      ← Int.tdiv_eq_ediv_of_nonneg hnum, Int.neg_tdiv, neg_neg]

theorem Double.truncate?_eq (v : Double) : v.truncate? = v.toRat?.map towardZero := by
  unfold truncate?
  congr 1
  exact funext tdiv_num_den

namespace StorageType

section Limits

variable {t : StorageType} (ht : t.HasIntegerLimits)
include ht

theorem isUnsigned_eq : t.isUnsigned = .ok (decide (t.least = some (.int 0))) := by
  obtain ⟨a, -, ha, -⟩ := ht
  unfold isUnsigned
  rw [ha]
  cases a with
  | none => rfl
  | some a =>
      have hquiet : (Value.int a).isSignaling = false := rfl
      dsimp only [Option.map_some]
      rw [hquiet, if_neg Bool.false_ne_true, Value.same_int]
      simp

/-- An integer that the type holds passes its limits. -/
theorem breach_of_holds {n : Int} (hn : t.Holds n) : t.breach n = .ok none := by
  obtain ⟨a, b, ha, hb⟩ := ht
  have hleast : breachOf t.least (Value.int n).less (.below t) = .ok none := by
    rw [ha]
    cases a with
    | none => rfl
    | some a =>
        have hle := hn.least_le a ha
        rw [Option.map_some, breachOf, Value.less_int, decide_eq_false (Int.not_lt.mpr hle)]
        rfl
  have hgreatest : breachOf t.greatest (Value.int n).greater (.above t) = .ok none := by
    rw [hb]
    cases b with
    | none => rfl
    | some b =>
        have hle := hn.le_greatest b hb
        rw [Option.map_some, breachOf, Value.greater_int, decide_eq_false (Int.not_lt.mpr hle)]
        rfl
  unfold breach
  rw [hleast]
  exact hgreatest

end Limits

theorem holds_unsigned_iff {bits : Nat} {n : Int} :
    (unsigned bits).Holds n ↔ 0 ≤ n ∧ n ≤ (Nat.pow 2 bits : Nat) - 1 := by
  refine ⟨fun h => ⟨h.least_le 0 rfl, h.le_greatest _ rfl⟩, fun h => ⟨fun a ha => ?_, fun b hb => ?_⟩⟩
  · cases ha
    exact h.1
  · cases hb
    exact h.2

/-- The type takes a double for the integer that its value is without the fraction. The type holds that integer, and if
it begins at zero, the value is not below zero; that of the negative zero is not. -/
structure Takes (t : StorageType) (v : Double) (n : Int) : Prop where
  truncated : ∃ r : ℚ, v.toRat? = some r ∧ n = towardZero r ∧ (t.least = some (.int 0) → 0 ≤ r)
  holds : t.Holds n

section Takes

variable {t : StorageType}

/-- A double with an integer value is taken for that, if it is taken. -/
theorem takes_iff_of_intCast {v : Double} {m : Int} (hv : v.toRat? = some (m : ℚ)) (n : Int) :
    t.Takes v n ↔ n = m ∧ t.Holds n := by
  constructor
  · rintro ⟨⟨r, hr, hn, -⟩, hholds⟩
    obtain rfl := Option.some.inj (hr.symm.trans hv)
    exact ⟨hn.trans (towardZero_intCast m), hholds⟩
  · rintro ⟨rfl, hholds⟩
    exact ⟨⟨n, hv, (towardZero_intCast n).symm, fun hleast => by exact_mod_cast hholds.least_le 0 hleast⟩, hholds⟩

theorem Takes.mono {v w : Double} {m n : Int} (hv : t.Takes v m) (hw : t.Takes w n) (h : v.AtMost w) : m ≤ n := by
  obtain ⟨r, hr, rfl, -⟩ := hv.truncated
  obtain ⟨s, hs, rfl, -⟩ := hw.truncated
  exact towardZero_mono (h.le hr hs)

/-- A double between two that are taken is taken. -/
theorem Takes.between {u v w : Double} {m n : Int} (hu : t.Takes u m) (hw : t.Takes w n) (huv : u.AtMost v)
    (hvw : v.AtMost w) : ∃ k, t.Takes v k := by
  obtain ⟨r, hr, rfl, hsign⟩ := hu.truncated
  obtain ⟨q, hq, rfl, -⟩ := hw.truncated
  obtain ⟨s, hs⟩ := huv.exists_between hvw (Double.isFinite_iff.mpr ⟨r, hr⟩) (Double.isFinite_iff.mpr ⟨q, hq⟩)
  have hrs := huv.le hr hs
  have hsq := hvw.le hs hq
  refine ⟨towardZero s, ⟨s, hs, rfl, fun hleast => (hsign hleast).trans hrs⟩, fun a ha => ?_, fun b hb => ?_⟩
  · exact (hu.holds.least_le a ha).trans (towardZero_mono hrs)
  · exact (towardZero_mono hsq).trans (hw.holds.le_greatest b hb)

/-- The double has a value with a sign that the type takes, and without the fraction that is past a limit that cannot be
written. -/
def RefusalUnwritable (t : StorageType) (v : Double) : Prop :=
  ∃ r : ℚ, v.toRat? = some r ∧ (t.least = some (.int 0) → 0 ≤ r) ∧ t.PastUnwritable (towardZero r)

theorem Takes.not_refusalUnwritable {v : Double} {n : Int} (hv : t.Takes v n) : ¬t.RefusalUnwritable v := by
  rintro ⟨r, hr, -, hpast⟩
  obtain ⟨q, hq, rfl, -⟩ := hv.truncated
  obtain rfl := Option.some.inj (hr.symm.trans hq)
  exact hpast.not_holds hv.holds

end Takes

section Integer

variable {t : StorageType} (ht : t.HasIntegerLimits)
include ht

/-- A double with a value is refused for its sign, or what it is without the fraction has to pass the limits. -/
theorem integer_of_toRat {v : Double} {r : ℚ} (hr : v.toRat? = some r) :
    t.integer v =
      if t.least = some (.int 0) ∧ r < 0 then .error (.refused (.negative t) (.double v))
      else t.checkLimits (towardZero r) (.double v) >>= fun _ => .ok (towardZero r) := by
  have htruncate : v.truncate? = some (towardZero r) := by rw [Double.truncate?_eq, hr, Option.map_some]
  have hnegative : (decide (t.least = some (.int 0)) && v.less 0) = true ↔ t.least = some (.int 0) ∧ r < 0 := by
    rw [Bool.and_eq_true, decide_eq_true_eq, Double.less_zero_iff hr]
  rw [integer_of_truncate t htruncate, isUnsigned_eq ht]
  simp only [← hnegative]
  rfl

theorem integer_of_takes {v : Double} {n : Int} (h : t.Takes v n) : t.integer v = .ok n := by
  obtain ⟨r, hr, rfl, hsign⟩ := h.truncated
  rw [integer_of_toRat ht hr, if_neg fun h => absurd (hsign h.1) (not_le.mpr h.2), checkLimits_eq,
    breach_of_holds ht h.holds]
  rfl

/-- What an integer type takes no double for, it refuses: for not being finite, for its sign, or by a limit, if that can
be written. -/
theorem takes_or_refused (v : Double) :
    (∃ n, t.Takes v n) ∨ (¬t.RefusalUnwritable v ∧ ∃ reason, t.integer v = .error (.refused reason (.double v))) ∨
      t.RefusalUnwritable v ∧ t.integer v = .error .unwritable := by
  cases hr : v.toRat? with
  | none =>
      have htruncate : v.truncate? = none := by rw [Double.truncate?_eq, hr, Option.map_none]
      refine .inr (.inl ⟨fun ⟨r, hv, _⟩ => (by cases hr.symm.trans hv), .notFinite t, ?_⟩)
      unfold integer
      rw [htruncate]
  | some r =>
      rw [integer_of_toRat ht hr]
      by_cases hsign : t.least = some (.int 0) ∧ r < 0
      · rw [if_pos hsign]
        refine .inr (.inl ⟨fun ⟨q, hq, hnonneg, _⟩ => ?_, _, rfl⟩)
        obtain rfl := Option.some.inj (hr.symm.trans hq)
        exact absurd (hnonneg hsign.1) (not_le.mpr hsign.2)
      · rw [if_neg hsign]
        have hnonneg : t.least = some (.int 0) → 0 ≤ r := fun hleast => not_lt.mp fun hneg => hsign ⟨hleast, hneg⟩
        rcases checkLimits_cases ht (towardZero r) (.double v) with
          ⟨-, hholds⟩ | ⟨-, ⟨⟨reason, hcheck⟩, -, hnot⟩ | ⟨hcheck, hpast⟩⟩
        · exact .inl ⟨_, ⟨r, hr, rfl, hnonneg⟩, hholds⟩
        · rw [hcheck]
          refine .inr (.inl ⟨fun ⟨q, hq, _, hpast⟩ => ?_, reason, rfl⟩)
          obtain rfl := Option.some.inj (hr.symm.trans hq)
          exact hnot hpast
        · rw [hcheck]
          exact .inr (.inr ⟨⟨r, hr, hnonneg, hpast rfl⟩, rfl⟩)

theorem integer_eq_ok_iff (v : Double) (n : Int) : t.integer v = .ok n ↔ t.Takes v n := by
  refine ⟨fun hok => ?_, integer_of_takes ht⟩
  rcases takes_or_refused ht v with ⟨m, hm⟩ | ⟨-, reason, hrefused⟩ | ⟨-, hunwritable⟩
  · obtain rfl : m = n := Except.ok.inj ((integer_of_takes ht hm).symm.trans hok)
    exact hm
  · cases hrefused.symm.trans hok
  · cases hunwritable.symm.trans hok

end Integer

theorem store_of_isInteger {t : StorageType} (hinteger : t.isInteger) {output : TypeRequest}
    (houtput : output.resolve? = some t) (v : Double) : v.store output = (t.integer v).map .int := by
  unfold Double.store TypeRequest.resolve
  rw [houtput]
  exact if_pos hinteger

/-- A request for an integer type stores the integer that the type takes a double for, and refuses every other double,
unless the limit that the double is past cannot be written. The doubles that are stored are stored in their order, and
so is every double between them. -/
theorem store_eq_ok_iff {t : StorageType} (hinteger : t.isInteger) (hlimits : t.HasIntegerLimits) {output : TypeRequest}
    (houtput : output.resolve? = some t) :
    (∀ (v : Double) (n : Int), v.store output = .ok (.int n) ↔ t.Takes v n) ∧
      (∀ v : Double, (∃ n, v.store output = .ok (.int n)) ∨
        (∃ reason, v.store output = .error (.refused reason (.double v))) ∨ v.store output = .error .unwritable) ∧
      (∀ v : Double, v.store output = .error .unwritable ↔ t.RefusalUnwritable v) ∧
      (∀ (v w : Double) (m n : Int), v.AtMost w → v.store output = .ok (.int m) → w.store output = .ok (.int n) →
        m ≤ n) ∧
      ∀ (u v w : Double) (m n : Int), u.AtMost v → v.AtMost w → u.store output = .ok (.int m) →
        w.store output = .ok (.int n) → ∃ k, v.store output = .ok (.int k) := by
  have hstore (v : Double) (n : Int) : v.store output = .ok (.int n) ↔ t.Takes v n := by
    rw [← integer_eq_ok_iff hlimits, store_of_isInteger hinteger houtput]
    cases t.integer v with
    | error f => exact iff_of_false (fun h => by cases h) fun h => by cases h
    | ok m => simp [Except.map]
  refine ⟨hstore, fun v => ?_, fun v => ?_, fun v w m n hvw hv hw => ?_, fun u v w m n huv hvw hu hw => ?_⟩
  · rcases takes_or_refused hlimits v with ⟨n, hn⟩ | ⟨-, reason, hrefused⟩ | ⟨-, hunwritable⟩
    · exact .inl ⟨n, (hstore v n).mpr hn⟩
    · rw [store_of_isInteger hinteger houtput, hrefused]
      exact .inr (.inl ⟨reason, rfl⟩)
    · rw [store_of_isInteger hinteger houtput, hunwritable]
      exact .inr (.inr rfl)
  · rw [store_of_isInteger hinteger houtput]
    rcases takes_or_refused hlimits v with ⟨n, hn⟩ | ⟨hnot, reason, hrefused⟩ | ⟨hlong, hunwritable⟩
    · rw [integer_of_takes hlimits hn]
      exact iff_of_false (fun h => by cases h) fun h => hn.not_refusalUnwritable h
    · rw [hrefused]
      exact iff_of_false (fun h => by cases h) hnot
    · rw [hunwritable]
      exact iff_of_true rfl hlong
  · exact ((hstore v m).mp hv).mono ((hstore w n).mp hw) hvw
  · obtain ⟨k, hk⟩ := ((hstore u m).mp hu).between ((hstore w n).mp hw) huv hvw
    exact ⟨k, (hstore v k).mpr hk⟩

/-- The greatest double below `2 ^ 64` is stored in 64 bits, and the next one is not. Neither is the least negative
double, but the negative zero is. -/
theorem store_eq_ok_iff_u64 :
    u64.isInteger ∧ u64.HasIntegerLimits ∧ (TypeRequest.exactly u64).resolve? = some u64 ∧
      (Double.ofInt 18446744073709549568).store (.exactly u64) = .ok (.int 18446744073709549568) ∧
      (∀ n, (Double.ofInt 18446744073709551616).store (.exactly u64) ≠ .ok (.int n)) ∧
      (∀ n, (Double.finite true ⟨1, by decide⟩).store (.exactly u64) ≠ .ok (.int n)) ∧
      (Double.zero true).store (.exactly u64) = .ok (.int 0) := by
  have hinteger : u64.isInteger := rfl
  have houtput : (TypeRequest.exactly u64).resolve? = some u64 := rfl
  have hstore := (store_eq_ok_iff hinteger (hasIntegerLimits_unsigned 64) houtput).1
  have hbelow : (Double.ofInt 18446744073709549568).toRat? = some ((18446744073709549568 : Int) : ℚ) := by decide +kernel
  have habove : (Double.ofInt 18446744073709551616).toRat? = some ((18446744073709551616 : Int) : ℚ) := by decide +kernel
  have hzero : (Double.zero true).toRat? = some ((0 : Int) : ℚ) := by decide +kernel
  refine ⟨hinteger, hasIntegerLimits_unsigned 64, houtput, ?_, fun n hn => ?_, fun n hn => ?_, ?_⟩
  · exact (hstore _ _).mpr ((takes_iff_of_intCast hbelow _).mpr ⟨rfl, holds_unsigned_iff.mpr (by decide)⟩)
  · obtain ⟨rfl, hholds⟩ := (takes_iff_of_intCast habove n).mp ((hstore _ n).mp hn)
    exact absurd (holds_unsigned_iff.mp hholds).2 (by decide)
  · obtain ⟨⟨r, hr, -, hsign⟩, -⟩ := (hstore _ n).mp hn
    have hless : (Double.finite true ⟨1, by decide⟩).less 0 := by decide +kernel
    exact absurd (hsign rfl) (not_le.mpr ((Double.less_zero_iff hr).mp hless))
  · exact (hstore _ _).mpr ((takes_iff_of_intCast hzero _).mpr ⟨rfl, holds_unsigned_iff.mpr (by decide)⟩)

/-- A type whose least integer has one digit too many to be written. -/
def beyondDigits : StorageType := ⟨"t", true, some (.int Value.leastUnwritable), none, false⟩

/-- An integer type with integer limits need not refuse what it does not take. -/
theorem one_not_refused :
    ¬∀ t : StorageType, t.isInteger → t.HasIntegerLimits → ∀ v : Double,
      (∃ n, v.store (.exactly t) = .ok (.int n)) ∨ ∃ reason, v.store (.exactly t) = .error (.refused reason (.double v)) := by
  intro h
  have hunwritable : (1 : Double).store (.exactly beyondDigits) = .error .unwritable := by decide +kernel
  rcases h beyondDigits rfl ⟨some _, none, rfl, rfl⟩ 1 with ⟨n, hok⟩ | ⟨reason, hrefused⟩
  · cases hunwritable.symm.trans hok
  · cases hunwritable.symm.trans hrefused

end StorageType

end Progression
