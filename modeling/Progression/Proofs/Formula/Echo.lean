import Progression.LevelTable
import Progression.Proofs.Double.Significant
import Progression.Proofs.Formula.Interchange
import Progression.Proofs.StorageType.Truncating
import Progression.Proofs.Value.Declared

/-! # Integers through a double

The formula `(x)` gives back what it is evaluated at, as far as a double carries it. An integer comes back rounded to 53
significant bits, if the type asked for holds it then. A declared type looks at the integer before it is rounded, a
table is as good as the formula, and a decimal that is an integer as good as that integer. -/

namespace Progression

/-- The outcomes are the same, up to the value that a refusal quotes. -/
inductive SameButQuoted : Except Fault Number → Except Fault Number → Prop
  | refl (outcome : Except Fault Number) : SameButQuoted outcome outcome
  | refused (r : Refusal) (value value' : Value) :
    SameButQuoted (.error (.refused r value)) (.error (.refused r value'))

namespace StorageType

/-- An integer that the type does not hold is refused, whatever value is quoted for it, if that can be written. -/
theorem exists_refusal {t : StorageType} (hlimits : t.HasIntegerLimits) (hwritable : t.HasWritableLimits) {n : Int}
    (hn : ¬t.Holds n) :
    ∃ r, t.breach n = .ok (some r) ∧
      ∀ value : Value, value.isWritable → (Fault.refused r value).worded = .refused r value := by
  obtain ⟨r, hbreach, -, hquoted⟩ := (breach_cases hlimits n).resolve_left fun h => hn h.2
  have hr : r.limits.all Value.isWritable = true :=
    Bool.not_eq_false _ |>.mp fun h => hwritable.not_pastUnwritable n (hquoted.mp h)
  refine ⟨r, hbreach, fun value hvalue => Fault.worded_of_writable ?_⟩
  rw [Fault.values, List.all_cons, hvalue, hr, Bool.and_true]

section Storing

variable {t : StorageType} {v : Double} {m : Int} (hinteger : t.isInteger) {output : TypeRequest}
  (houtput : output.resolve? = some t)
include hinteger houtput

theorem store_of_holds (hlimits : t.HasIntegerLimits) (hv : v.toRat? = some (m : ℚ)) (hholds : t.Holds m) :
    v.store output = .ok (.int m) := by
  rw [store_of_isInteger hinteger houtput, integer_of_takes hlimits ((takes_iff_of_intCast hv m).mpr ⟨rfl, hholds⟩)]
  rfl

theorem store_of_not_holds (hlimits : t.HasIntegerLimits) (hwritable : t.HasWritableLimits)
    (hv : v.toRat? = some (m : ℚ)) (hholds : ¬t.Holds m) : ∃ r, v.store output = .error (.refused r (.double v)) := by
  rw [store_of_isInteger hinteger houtput]
  rcases takes_or_refused hlimits v with ⟨n, hn⟩ | ⟨-, r, hr⟩ | ⟨⟨q, -, -, hpast⟩, -⟩
  · obtain ⟨rfl, hn⟩ := (takes_iff_of_intCast hv n).mp hn
    exact absurd hn hholds
  · rw [hr]
    exact ⟨r, rfl⟩
  · exact absurd hpast (hwritable.not_pastUnwritable _)

/-- An integer type tells no zeros apart. -/
theorem store_alike {w : Double} (h : v.Alike w) : SameButQuoted (v.store output) (w.store output) := by
  rw [store_of_isInteger hinteger houtput, store_of_isInteger hinteger houtput]
  rcases h.eq_or_zeros with rfl | ⟨s, s', rfl, rfl⟩
  · exact .refl _
  · rcases t.integer_zeros with ⟨outcome, hsame⟩ | ⟨r, hrefused⟩
    · rw [hsame, hsame]
      exact .refl _
    · rw [hrefused, hrefused]
      exact .refused r _ _

end Storing

end StorageType

namespace Value

section Converting

variable {n : Int}

theorem toDouble_int_of_lt (h : |roundedTo 53 n| < 2 ^ 1024) : (int n).toDouble none = .ok (.ofInt n) := by
  rw [toDouble_number, Number.toDouble, Number.requireFinite, if_pos ((Double.isFinite_ofInt_iff n).mpr h)]
  rfl

theorem toDouble_int_of_not_lt (h : ¬|roundedTo 53 n| < 2 ^ 1024) :
    (int n).toDouble none = .error (Fault.refused .noDouble (.int n)).worded := by
  rw [toDouble_number, Number.toDouble, Number.requireFinite, if_neg fun hn => h ((Double.isFinite_ofInt_iff n).mp hn)]
  rfl

theorem isWritable_of_lt (h : |roundedTo 53 n| < 2 ^ 1024) : (int n).isWritable := by
  by_contra hn
  have hlong := (toDouble_eq_unwritable_iff (int n)).mpr
    ⟨lacksDouble_of_not_writable (Bool.eq_false_iff.mpr hn), Bool.eq_false_iff.mpr hn⟩
  cases (toDouble_int_of_lt h).symm.trans hlong

/-- A decimal that is an integer is converted like it, up to the sign of a zero. -/
theorem toDouble_decimal_alike {d : Decimal} (hd : d.toRat? = some (n : ℚ)) :
    ∃ v, (decimal d).toDouble none = .ok v ∧ v.Alike (.ofInt n) := by
  obtain ⟨s, hs, hv⟩ := Number.toDouble_of_exact (n := .decimal d) hd (.inr rfl)
  exact ⟨_, by rw [toDouble_number, hv]; rfl, hs.alike (signOf_decide _)⟩

section Declared

variable {t : StorageType} (hinteger : t.isInteger) {input : TypeRequest} (hinput : input.resolve? = some t)
  {m : Number} (hm : m.toInt? = some n)
include hinteger hinput hm

theorem toDouble_of_breach_none (h : t.breach n = .ok none) :
    (number m).toDouble (some input) = (number m).toDouble none := by
  rw [toDouble_declared_number hinput, StorageType.checkNumber_of_isInteger hinteger, hm]
  dsimp only
  rw [StorageType.checkLimits_eq, h]
  rfl

theorem toDouble_of_breach_some {r : Refusal} (h : t.breach n = .ok (some r)) :
    (number m).toDouble (some input) = .error (Fault.refused r (.number m)).worded := by
  rw [toDouble_declared_number hinput, StorageType.checkNumber_of_isInteger hinteger, hm]
  dsimp only
  rw [StorageType.checkLimits_eq, h]
  rfl

end Declared

end Converting

end Value

/-- The outcome of the formula that is the unknown alone. -/
def echo (value : Value) (output : TypeRequest) (input : Option TypeRequest) : Except Fault Number := do
  (← Formula.ofText "(x)").evaluate value output input

theorem echo_eq (value : Value) (output : TypeRequest) (input : Option TypeRequest) :
    echo value output input = value.toDouble input >>= fun x => x.store output := by
  have hread : Formula.ofText "(x)" = .ok .unknown :=
    Formula.read_toText_of_finite (f := .unknown) trivial (by decide) (by decide)
  rw [echo, hread]
  rfl

/-- The value of a level is stored as the formula would store it. -/
theorem LevelTable.evaluate_eq_echo {table : LevelTable} {level value : Value} (h : table.lookup level = .ok value)
    (output : TypeRequest) : table.evaluate level output none = echo value output none := by
  rw [echo_eq, evaluate, h]
  rfl

/-- What becomes of an integer that goes through a double on its way to a type, with the type declared for it or not,
from a table or in the form of a decimal. One with too many digits is not refused, since its refusal cannot be put into
words. -/
structure EchoesInteger (t : StorageType) (output input : TypeRequest) (n : Int) : Prop where
  rounded : |roundedTo 53 n| < 2 ^ 1024 → t.Holds (roundedTo 53 n) →
    echo (.int n) output none = .ok (.int (roundedTo 53 n))
  refused : ¬(|roundedTo 53 n| < 2 ^ 1024 ∧ t.Holds (roundedTo 53 n)) → (Value.int n).isWritable →
    ∃ r value, echo (.int n) output none = .error (.refused r value)
  unwritable : (Value.int n).isWritable = false → echo (.int n) output none = .error .unwritable
  unchanged_iff : echo (.int n) output none = .ok (.int n) ↔ t.Holds n ∧ ∃ v : Double, v.toRat? = some (n : ℚ)
  unchanged_of_le : t.Holds n → |n| ≤ 2 ^ 53 → echo (.int n) output none = .ok (.int n)
  declared : t.Holds n → echo (.int n) output (some input) = echo (.int n) output none
  declared_refused : ¬t.Holds n → (Value.int n).isWritable →
    ∃ r, echo (.int n) output (some input) = .error (.refused r (.int n))
  declared_unwritable : (Value.int n).isWritable = false → echo (.int n) output (some input) = .error .unwritable
  table : ∀ (table : LevelTable) (level : Value), table.lookup level = .ok (.int n) →
    table.evaluate level output none = echo (.int n) output none
  decimal : ∀ d : Decimal, d.toRat? = some (n : ℚ) → |roundedTo 53 n| < 2 ^ 1024 →
    SameButQuoted (echo (.decimal d) output none) (echo (.int n) output none) ∧
      SameButQuoted (echo (.decimal d) output (some input)) (echo (.int n) output (some input)) ∧
      ∀ (table : LevelTable) (level : Value), table.lookup level = .ok (.decimal d) →
        SameButQuoted (table.evaluate level output none) (echo (.int n) output none)

section Echo

variable {t : StorageType} (hinteger : t.isInteger) (hlimits : t.HasIntegerLimits) {output input : TypeRequest}
  (houtput : output.resolve? = some t) (hinput : input.resolve? = some t) (hwritable : t.HasWritableLimits) {n : Int}
include hinteger houtput

theorem echo_decimal {d : Decimal} (hd : d.toRat? = some (n : ℚ)) (h : |roundedTo 53 n| < 2 ^ 1024) :
    SameButQuoted (echo (.decimal d) output none) (echo (.int n) output none) := by
  obtain ⟨v, hv, halike⟩ := Value.toDouble_decimal_alike hd
  rw [echo_eq, echo_eq, hv, Value.toDouble_int_of_lt h]
  exact StorageType.store_alike hinteger houtput halike

include hlimits hwritable

omit hwritable in
theorem echo_of_holds (h : |roundedTo 53 n| < 2 ^ 1024) (hholds : t.Holds (roundedTo 53 n)) :
    echo (.int n) output none = .ok (.int (roundedTo 53 n)) := by
  rw [echo_eq, Value.toDouble_int_of_lt h]
  exact StorageType.store_of_holds hinteger houtput hlimits (Double.toRat?_ofInt h) hholds

theorem echo_error (h : ¬(|roundedTo 53 n| < 2 ^ 1024 ∧ t.Holds (roundedTo 53 n))) :
    ∃ f, echo (.int n) output none = .error f ∧ ((Value.int n).isWritable → ∃ r value, f = .refused r value) := by
  rw [echo_eq]
  by_cases hrange : |roundedTo 53 n| < 2 ^ 1024
  · rw [Value.toDouble_int_of_lt hrange]
    obtain ⟨r, hr⟩ := StorageType.store_of_not_holds hinteger houtput hlimits hwritable (Double.toRat?_ofInt hrange)
      fun hholds => h ⟨hrange, hholds⟩
    exact ⟨_, hr, fun _ => ⟨r, _, rfl⟩⟩
  · rw [Value.toDouble_int_of_not_lt hrange]
    exact ⟨_, rfl, fun hn => ⟨_, _, Fault.worded_refused rfl hn⟩⟩

omit hwritable in
theorem echo_of_toRat {v : Double} (hv : v.toRat? = some (n : ℚ)) (hholds : t.Holds n) :
    echo (.int n) output none = .ok (.int n) := by
  obtain ⟨hsame, hlt⟩ := Double.roundedTo_of_toRat hv
  have hecho := echo_of_holds (n := n) hinteger hlimits houtput (by rwa [hsame]) (by rwa [hsame])
  rwa [hsame] at hecho

theorem echo_eq_self_iff :
    echo (.int n) output none = .ok (.int n) ↔ t.Holds n ∧ ∃ v : Double, v.toRat? = some (n : ℚ) := by
  refine ⟨fun hself => ?_, fun ⟨hholds, v, hv⟩ => echo_of_toRat hinteger hlimits houtput hv hholds⟩
  by_cases h : |roundedTo 53 n| < 2 ^ 1024 ∧ t.Holds (roundedTo 53 n)
  · have hecho := echo_of_holds hinteger hlimits houtput h.1 h.2
    have hsame : roundedTo 53 n = n := Number.int.inj (Except.ok.inj (hecho.symm.trans hself))
    have hvalue := Double.toRat?_ofInt h.1
    rw [hsame] at hvalue h
    exact ⟨h.2, _, hvalue⟩
  · obtain ⟨f, hf, -⟩ := echo_error hinteger hlimits houtput hwritable h
    cases hself.symm.trans hf

omit hinteger hlimits houtput hwritable in
/-- An integer with too many digits has no double, and that cannot be put into words. -/
theorem echo_of_not_writable (hn : (Value.int n).isWritable = false) :
    echo (.int n) output none = .error .unwritable := by
  have hlong := (Value.toDouble_eq_unwritable_iff (.int n)).mpr ⟨Value.lacksDouble_of_not_writable hn, hn⟩
  rw [echo_eq, hlong]
  rfl

omit houtput
include hinput

omit hwritable in
theorem echo_declared (hholds : t.Holds n) : echo (.int n) output (some input) = echo (.int n) output none := by
  rw [echo_eq, echo_eq, Value.toDouble_of_breach_none hinteger hinput rfl (StorageType.breach_of_holds hlimits hholds)]

theorem echo_declared_refused (hholds : ¬t.Holds n) (hn : (Value.int n).isWritable) :
    ∃ r, echo (.int n) output (some input) = .error (.refused r (.int n)) := by
  obtain ⟨r, hr, hworded⟩ := StorageType.exists_refusal hlimits hwritable hholds
  rw [echo_eq, Value.toDouble_of_breach_some hinteger hinput rfl hr, hworded _ hn]
  exact ⟨r, rfl⟩

omit hwritable in
theorem echo_declared_of_not_writable (hn : (Value.int n).isWritable = false) :
    echo (.int n) output (some input) = .error .unwritable := by
  have hlong := (Value.toDouble_declared hinput hlimits (.int n)).2.2.1.mpr (.value hinteger hn)
  rw [echo_eq, hlong]
  rfl

include houtput

theorem echo_decimal_declared {d : Decimal} (hd : d.toRat? = some (n : ℚ)) (h : |roundedTo 53 n| < 2 ^ 1024) :
    SameButQuoted (echo (.decimal d) output (some input)) (echo (.int n) output (some input)) := by
  have hinteger? : (Number.decimal d).toInt? = some n := Decimal.toInt?_of_toRat hd
  -- The limits are compared with the same integer: both values pass, or both are refused for one reason.
  by_cases hholds : t.Holds n
  · have hbreach := StorageType.breach_of_holds hlimits hholds
    have hecho := echo_decimal hinteger houtput hd h
    rw [echo_eq, echo_eq] at hecho
    rw [echo_eq, echo_eq, Value.toDouble_of_breach_none hinteger hinput hinteger? hbreach,
      Value.toDouble_of_breach_none hinteger hinput rfl hbreach]
    exact hecho
  · obtain ⟨r, hbreach, hworded⟩ := StorageType.exists_refusal hlimits hwritable hholds
    have hn : (Value.int n).isWritable := Value.isWritable_of_lt h
    rw [echo_eq, echo_eq, Value.toDouble_of_breach_some hinteger hinput hinteger? hbreach,
      Value.toDouble_of_breach_some hinteger hinput rfl hbreach, hworded _ hn, hworded _ rfl]
    exact .refused r _ _

/-- Every integer goes through a double in the way that its rounding, its digits and the limits of the type say. -/
theorem echoes_integer (n : Int) : EchoesInteger t output input n where
  rounded h hholds := echo_of_holds hinteger hlimits houtput h hholds
  refused h hn := by
    obtain ⟨f, hf, hrefused⟩ := echo_error hinteger hlimits houtput hwritable h
    obtain ⟨r, value, rfl⟩ := hrefused hn
    exact ⟨r, value, hf⟩
  unwritable := echo_of_not_writable
  unchanged_iff := echo_eq_self_iff hinteger hlimits houtput hwritable
  unchanged_of_le hholds hle := by
    have hsame := Double.roundedTo_of_le hle
    have hlt : |roundedTo 53 n| < 2 ^ 1024 := by
      rw [hsame]
      exact hle.trans_lt (pow_lt_pow_right₀ (by decide) (by decide))
    have hecho := echo_of_holds hinteger hlimits houtput hlt (by rwa [hsame])
    rwa [hsame] at hecho
  declared hholds := echo_declared hinteger hlimits hinput hholds
  declared_refused hholds hn := echo_declared_refused hinteger hlimits hinput hwritable hholds hn
  declared_unwritable := echo_declared_of_not_writable hinteger hlimits hinput
  table table level h := table.evaluate_eq_echo h output
  decimal d hd h := by
    refine ⟨echo_decimal hinteger houtput hd h, echo_decimal_declared hinteger hlimits houtput hinput hwritable hd h,
      fun table level hlookup => ?_⟩
    rw [LevelTable.evaluate_eq_echo hlookup]
    exact echo_decimal hinteger houtput hd h

end Echo

/-- In 64 bits `2 ^ 53 + 1` comes back as `2 ^ 53`, and the greatest integer does not come back, since it is rounded to
`2 ^ 64`. Without limits it comes back as that. -/
theorem echoes_integer_edges :
    StorageType.u64.isInteger ∧ StorageType.u64.HasIntegerLimits ∧ StorageType.u64.HasWritableLimits ∧
      StorageType.int.HasIntegerLimits ∧ StorageType.int.HasWritableLimits ∧
      (TypeRequest.exactly .u64).resolve? = some .u64 ∧ (TypeRequest.builtin .integer).resolve? = some .int ∧
      echo (.int 9007199254740993) (.exactly .u64) none = .ok (.int 9007199254740992) ∧
      (∃ r value, echo (.int 18446744073709551615) (.exactly .u64) none = .error (.refused r value)) ∧
      echo (.int 18446744073709551615) (.builtin .integer) none = .ok (.int 18446744073709551616) ∧
      SameButQuoted (echo (.decimal (.finite false 70 (-1))) (.exactly .u64) none)
        (echo (.int 7) (.exactly .u64) none) := by
  have hu64 := StorageType.hasIntegerLimits_named (t := .u64) (by decide)
  have hint := StorageType.hasIntegerLimits_named (t := .int) (by decide)
  have hu64' := StorageType.hasWritableLimits_named (t := .u64) (by decide)
  have hint' := StorageType.hasWritableLimits_named (t := .int) (by decide)
  have hecho (n : Int) : EchoesInteger .u64 (.exactly .u64) (.exactly .u64) n := echoes_integer rfl hu64 rfl rfl hu64' n
  have hecho' (n : Int) : EchoesInteger .int (.builtin .integer) (.builtin .integer) n :=
    echoes_integer rfl hint rfl rfl hint' n
  have hodd : roundedTo 53 9007199254740993 = 9007199254740992 := by decide +kernel
  have hgreatest : roundedTo 53 18446744073709551615 = 18446744073709551616 := by decide +kernel
  have hseven : (Decimal.finite false 70 (-1)).toRat? = some ((7 : Int) : ℚ) := by decide +kernel
  have hrange {n : Int} (hn : |n| ≤ 2 ^ 64) : |n| < 2 ^ 1024 := hn.trans_lt (pow_lt_pow_right₀ (by decide) (by decide))
  refine ⟨rfl, hu64, hu64', hint, hint', rfl, rfl, ?_, (hecho _).refused (fun h => ?_) (by decide +kernel), ?_,
    ((hecho 7).decimal _ hseven ?_).1⟩
  · rw [← hodd]
    exact (hecho _).rounded (hrange (by decide +kernel)) (StorageType.holds_unsigned_iff.mpr (by decide +kernel))
  · have hle := (StorageType.holds_unsigned_iff.mp h.2).2
    rw [hgreatest] at hle
    norm_num at hle
  · rw [← hgreatest]
    exact (hecho' _).rounded (hrange (by decide +kernel)) ⟨fun a ha => (by cases ha), fun b hb => (by cases hb)⟩
  · exact hrange (by decide +kernel)

/-- Not every integer is refused that does not come back rounded. -/
theorem leastUnwritable_not_refused :
    ¬∀ t ∈ StorageType.named, t.isInteger → ∀ n : Int,
      ¬(|roundedTo 53 n| < 2 ^ 1024 ∧ t.Holds (roundedTo 53 n)) →
        ∃ r value, echo (.int n) (.exactly t) none = .error (.refused r value) := by
  intro h
  have hlong := Value.isWritable_leastUnwritable
  obtain ⟨r, value, hr⟩ := h .u8 List.mem_cons_self rfl Value.leastUnwritable fun hrounded =>
    Bool.false_ne_true (hlong.symm.trans (Value.isWritable_of_lt hrounded.1))
  cases hr.symm.trans (echo_of_not_writable hlong)

end Progression
