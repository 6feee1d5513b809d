import Progression.Conversion

/-! # What storing a double comes to

The limits of a storage type are compared with the integer alone; the value at hand only appears in the refusal. So
a type whose limits are integers either takes a double or refuses it, and what it takes belongs to it. Only if the limit
that is passed has too many digits to be written, the refusal cannot be put into words. -/

namespace Progression

namespace Value

/-- The least positive integer with too many digits to be written. -/
def leastUnwritable : Int := (Nat.pow 10 Text.digitLimit : Nat)

theorem isWritable_leastUnwritable : (int leastUnwritable).isWritable = false := by decide +kernel

end Value

namespace StorageType

/-- The refusal for being past a limit, if there is one and it is passed. A limit may be something that the value at
hand cannot be compared with. -/
def breachOf (limit : Option Value) (past : Value → Except Fault Bool) (refusal : Value → Refusal) :
    Except Fault (Option Refusal) :=
  match limit with
  | none => .ok none
  | some limit => (past limit).map fun b => if b then some (refusal limit) else none

/-- Why an integer is outside the limits of a type, if it is. -/
def breach (t : StorageType) (n : Int) : Except Fault (Option Refusal) := do
  match ← breachOf t.least (Value.int n).less (.below t) with
  | some r => return some r
  | none => breachOf t.greatest (Value.int n).greater (.above t)

/-- The limits do not look at the value that is quoted. -/
theorem checkLimits_eq (t : StorageType) (n : Int) (value : Value) :
    t.checkLimits n value = t.breach n >>= fun
      | none => .ok ()
      | some r => .error (Fault.refused r value).worded := by
  unfold checkLimits breach breachOf
  cases t.least with
  | none =>
      cases t.greatest with
      | none => rfl
      | some greatest =>
          dsimp only
          rcases (Value.int n).greater greatest with f | _ | _ <;> rfl
  | some least =>
      dsimp only
      rcases (Value.int n).less least with f | _ | _
      · rfl
      · cases t.greatest with
        | none => rfl
        | some greatest =>
            dsimp only
            rcases (Value.int n).greater greatest with f | _ | _ <;> rfl
      · rfl

/-- The limits are integers, so far as there are any. -/
def HasIntegerLimits (t : StorageType) : Prop :=
  ∃ a b : Option Int, t.least = a.map .int ∧ t.greatest = b.map .int

/-- The integer is not below the least integer of the type, and not above the greatest one. -/
structure Holds (t : StorageType) (n : Int) : Prop where
  least_le : ∀ a : Int, t.least = some (.int a) → a ≤ n
  le_greatest : ∀ b : Int, t.greatest = some (.int b) → n ≤ b

theorem hasIntegerLimits_unsigned (bits : Nat) : (unsigned bits).HasIntegerLimits := ⟨some _, some _, rfl, rfl⟩

theorem hasIntegerLimits_signed (bits : Nat) : (signed bits).HasIntegerLimits := ⟨some _, some _, rfl, rfl⟩

theorem hasIntegerLimits_named {t : StorageType} (h : t ∈ named) : t.HasIntegerLimits := by
  simp only [named, List.mem_cons, List.not_mem_nil, or_false] at h
  rcases h with rfl | rfl | rfl | rfl | rfl | rfl | rfl | rfl | rfl | rfl | rfl
  any_goals exact hasIntegerLimits_unsigned _
  any_goals exact hasIntegerLimits_signed _
  all_goals exact ⟨none, none, rfl, rfl⟩

/-- The limits can be written, so far as there are any. -/
def HasWritableLimits (t : StorageType) : Prop :=
  ∀ limit, t.least = some limit ∨ t.greatest = some limit → limit.isWritable

theorem hasWritableLimits_named {t : StorageType} (h : t ∈ named) : t.HasWritableLimits := by
  have hlimits : ∀ t ∈ named, t.least.all Value.isWritable ∧ t.greatest.all Value.isWritable := by decide +kernel
  obtain ⟨hleast, hgreatest⟩ := hlimits t h
  rintro limit (h | h)
  · rwa [h] at hleast
  · rwa [h] at hgreatest

/-- The integer is past a limit that cannot be written. The least integer is looked at first. -/
inductive PastUnwritable (t : StorageType) (n : Int) : Prop
  | below {a : Int} (hlimit : t.least = some (.int a)) (hpast : n < a) (hlong : (Value.int a).isWritable = false)
  | above {b : Int} (hleast : ∀ a : Int, t.least = some (.int a) → a ≤ n) (hlimit : t.greatest = some (.int b))
    (hpast : b < n) (hlong : (Value.int b).isWritable = false)

theorem PastUnwritable.not_holds {t : StorageType} {n : Int} (h : t.PastUnwritable n) : ¬t.Holds n := by
  intro hholds
  rcases h with ⟨hlimit, hpast, -⟩ | ⟨-, hlimit, hpast, -⟩
  · exact absurd (hholds.least_le _ hlimit) (Int.not_le.mpr hpast)
  · exact absurd (hholds.le_greatest _ hlimit) (Int.not_le.mpr hpast)

theorem HasWritableLimits.not_pastUnwritable {t : StorageType} (ht : t.HasWritableLimits) (n : Int) :
    ¬t.PastUnwritable n := by
  rintro (⟨hlimit, -, hlong⟩ | ⟨-, hlimit, -, hlong⟩)
  · exact Bool.false_ne_true (hlong.symm.trans (ht _ (.inl hlimit)))
  · exact Bool.false_ne_true (hlong.symm.trans (ht _ (.inr hlimit)))

theorem breachOf_cases (limit : Option Int) {past : Value → Except Fault Bool} (refusal : Value → Refusal)
    {p : Int → Prop} [DecidablePred p] (hpast : ∀ a : Int, past (.int a) = .ok (decide (p a))) :
    (breachOf (limit.map .int) past refusal = .ok none ∧ ∀ a ∈ limit, ¬p a) ∨
      ∃ a ∈ limit, p a ∧ breachOf (limit.map .int) past refusal = .ok (some (refusal (.int a))) := by
  cases limit with
  | none => exact .inl ⟨rfl, fun a h => by cases h⟩
  | some a =>
      rw [Option.map_some, breachOf, hpast]
      by_cases h : p a
      · rw [decide_eq_true h]
        exact .inr ⟨a, rfl, h, rfl⟩
      · rw [decide_eq_false h]
        refine .inl ⟨rfl, fun b hb => ?_⟩
        cases hb
        exact h

theorem mem_of_map_int {limit : Option Int} {a : Int} (h : limit.map Value.int = some (.int a)) : a ∈ limit := by
  obtain ⟨b, hb, heq⟩ := Option.map_eq_some_iff.mp h
  cases heq
  exact hb

/-- Integer limits hold an integer, or else there is a reason to refuse it, which quotes the limit that is passed. -/
theorem breach_cases {t : StorageType} (ht : t.HasIntegerLimits) (n : Int) :
    (t.breach n = .ok none ∧ t.Holds n) ∨
      ∃ r, t.breach n = .ok (some r) ∧ ¬t.Holds n ∧ (r.limits.all Value.isWritable = false ↔ t.PastUnwritable n) := by
  obtain ⟨a, b, ha, hb⟩ := ht
  have hquoted (limit : Int) : [Value.int limit].all Value.isWritable = false ↔ (Value.int limit).isWritable = false := by
    rw [List.all_cons, List.all_nil, Bool.and_true]
  unfold breach
  rw [ha, hb]
  rcases breachOf_cases a (.below t) (Value.less_int n) with ⟨hbelow, hleast⟩ | ⟨least, hmem, hpast, hbelow⟩
  · have hle : ∀ c : Int, t.least = some (.int c) → c ≤ n :=
      fun c hc => Int.not_lt.mp (hleast c (mem_of_map_int (ha.symm.trans hc)))
    rw [hbelow]
    rcases breachOf_cases b (.above t) (Value.greater_int n) with ⟨habove, hgreatest⟩ | ⟨greatest, hmem, hpast, habove⟩
    · exact .inl ⟨habove, hle, fun c hc => Int.not_lt.mp (hgreatest c (mem_of_map_int (hb.symm.trans hc)))⟩
    · rw [Option.mem_def.mp hmem] at hb
      refine .inr ⟨_, habove, fun hholds => ?_, (hquoted greatest).trans ⟨.above hle hb hpast, ?_⟩⟩
      · exact absurd (hholds.le_greatest greatest hb) (Int.not_le.mpr hpast)
      · rintro (⟨hlimit, hless, -⟩ | ⟨-, hlimit, -, hlong⟩)
        · exact absurd (hle _ hlimit) (Int.not_le.mpr hless)
        · cases hb.symm.trans hlimit
          exact hlong
  · rw [hbelow]
    rw [Option.mem_def.mp hmem] at ha
    refine .inr ⟨_, rfl, fun hholds => ?_, (hquoted least).trans ⟨.below ha hpast, ?_⟩⟩
    · exact absurd (hholds.least_le least ha) (Int.not_le.mpr hpast)
    · rintro (⟨hlimit, -, hlong⟩ | ⟨hle, -⟩)
      · cases ha.symm.trans hlimit
        exact hlong
      · exact absurd (hle least ha) (Int.not_le.mpr hpast)

/-- An integer passes the limits if the type holds it, and else the value at hand is refused, if it and the limit can be
written. -/
theorem checkLimits_cases {t : StorageType} (ht : t.HasIntegerLimits) (n : Int) (value : Value) :
    (t.checkLimits n value = .ok () ∧ t.Holds n) ∨
      ¬t.Holds n ∧
        ((∃ r, t.checkLimits n value = .error (.refused r value)) ∧ value.isWritable ∧ ¬t.PastUnwritable n ∨
          t.checkLimits n value = .error .unwritable ∧ (value.isWritable → t.PastUnwritable n)) := by
  rw [checkLimits_eq]
  rcases breach_cases ht n with ⟨hbreach, hholds⟩ | ⟨r, hbreach, hnot, hquoted⟩
  · rw [hbreach]
    exact .inl ⟨rfl, hholds⟩
  · rw [hbreach]
    refine .inr ⟨hnot, ?_⟩
    rw [← hquoted]
    cases hvalue : value.isWritable with
    | false => exact .inr ⟨congrArg _ (Fault.worded_refused_of_not_writable r hvalue), fun h => by cases h⟩
    | true =>
        cases hlimits : r.limits.all Value.isWritable with
        | false =>
            have hworded : (Fault.refused r value).worded = .unwritable := by
              refine Fault.worded_of_not_writable ?_
              rw [Fault.values, List.all_cons, hlimits, Bool.and_false]
            exact .inr ⟨congrArg _ hworded, fun _ => rfl⟩
        | true =>
            have hworded : (Fault.refused r value).worded = .refused r value := by
              refine Fault.worded_of_writable ?_
              rw [Fault.values, List.all_cons, hvalue, hlimits, Bool.and_true]
            exact .inl ⟨⟨r, congrArg _ hworded⟩, rfl, Bool.true_eq_false.mp⟩

theorem isUnsigned_eq_ok {t : StorageType} (ht : t.HasIntegerLimits) : ∃ u, t.isUnsigned = .ok u := by
  obtain ⟨a, -, ha, -⟩ := ht
  unfold isUnsigned
  rw [ha]
  cases a with
  | none => exact ⟨_, rfl⟩
  | some a => exact ⟨_, rfl⟩

/-- A double with an integer part is refused for its sign or by the limits, or that part is taken. -/
theorem integer_of_truncate (t : StorageType) {v : Double} {n : Int} (hn : v.truncate? = some n) :
    t.integer v = t.isUnsigned.mapError .number >>= fun u =>
      if u && v.less 0 then .error (.refused (.negative t) (.double v))
      else t.checkLimits n (.double v) >>= fun _ => .ok n := by
  unfold integer
  rw [hn]
  cases t.isUnsigned with
  | error f => rfl
  | ok u =>
      change (if (u && v.less 0) = true then _ else _) = if (u && v.less 0) = true then _ else _
      split <;> rfl

/-- An integer type takes the integer part of a double, which it holds, or it refuses the double, if the limit that the
integer part is past can be written. -/
theorem integer_cases {t : StorageType} (ht : t.HasIntegerLimits) (v : Double) :
    (∃ n, t.integer v = .ok n ∧ t.Holds n) ∨ (∃ r, t.integer v = .error (.refused r (.double v))) ∨
      t.integer v = .error .unwritable ∧ ∃ n, t.PastUnwritable n := by
  cases hn : v.truncate? with
  | none =>
      unfold integer
      rw [hn]
      exact .inr (.inl ⟨_, rfl⟩)
  | some n =>
      obtain ⟨u, hu⟩ := isUnsigned_eq_ok ht
      rw [integer_of_truncate t hn, hu]
      change (∃ n, (if (u && v.less 0) = true then _ else _) = _ ∧ _) ∨
        (∃ r, (if (u && v.less 0) = true then _ else _) = _) ∨ (if (u && v.less 0) = true then _ else _) = _ ∧ _
      split
      · exact .inr (.inl ⟨_, rfl⟩)
      · rcases checkLimits_cases ht n (.double v) with ⟨hcheck, hholds⟩ | ⟨-, ⟨⟨r, hcheck⟩, -⟩ | ⟨hcheck, hpast⟩⟩
        · rw [hcheck]
          exact .inl ⟨n, rfl, hholds⟩
        · rw [hcheck]
          exact .inr (.inl ⟨r, rfl⟩)
        · rw [hcheck]
          exact .inr (.inr ⟨rfl, n, hpast rfl⟩)

/-- The number is one of those that the type stores. -/
def Stores (t : StorageType) (m : Number) : Prop :=
  if t.isInteger then ∃ n, m = .int n ∧ t.Holds n else ∃ v, m = .double v

/-- The outcome is a number that the type stores, or the refusal of a value. -/
def Settles (t : StorageType) (outcome : Except Fault Number) : Prop :=
  (∃ m, outcome = .ok m ∧ t.Stores m) ∨ ∃ r value, outcome = .error (.refused r value)

theorem Settles.ne_unwritable {t : StorageType} {outcome : Except Fault Number} (h : t.Settles outcome) :
    outcome ≠ .error .unwritable := by
  rintro rfl
  rcases h with ⟨m, hm, -⟩ | ⟨r, value, hr⟩
  · cases hm
  · cases hr

/-- The outcome is settled, or the value has too many digits for the refusal that it would be. -/
def SettlesFor (t : StorageType) (value : Value) (outcome : Except Fault Number) : Prop :=
  t.Settles outcome ∨ value.isWritable = false ∧ outcome = .error .unwritable

section Writable

variable {t : StorageType} (ht : t.HasIntegerLimits) (hwritable : t.HasWritableLimits)
include ht hwritable

/-- What is stored belongs to the type, and what is not stored is refused. -/
theorem ofDouble_cases (v : Double) :
    (∃ m, t.ofDouble v = .ok m ∧ t.Stores m) ∨ ∃ r, t.ofDouble v = .error (.refused r (.double v)) := by
  unfold ofDouble Stores
  cases t.isInteger with
  | true =>
      rcases integer_cases ht v with ⟨n, hn, hholds⟩ | ⟨r, hr⟩ | ⟨-, n, hpast⟩
      · exact .inl ⟨.int n, by rw [hn]; rfl, n, rfl, hholds⟩
      · exact .inr ⟨r, by rw [hr]; rfl⟩
      · exact absurd hpast (hwritable.not_pastUnwritable n)
  | false =>
      cases t.singlePrecision with
      | false => exact .inl ⟨.double v, rfl, v, rfl⟩
      | true =>
          unfold single
          cases v.toSingle.isInfinite && v.isFinite with
          | false => exact .inl ⟨_, rfl, _, rfl⟩
          | true => exact .inr ⟨_, rfl⟩

/-- A request for a type with integer limits that can be written is settled for every double. -/
theorem store_settles {output : TypeRequest} (houtput : output.resolve? = some t) (v : Double) :
    t.Settles (v.store output) := by
  have hstore : v.store output = t.ofDouble v := by
    rw [Double.store, TypeRequest.resolve, houtput]
    rfl
  rw [hstore]
  rcases ofDouble_cases ht hwritable v with hstored | ⟨r, hr⟩
  · exact .inl hstored
  · exact .inr ⟨r, _, hr⟩

end Writable

end StorageType

end Progression
