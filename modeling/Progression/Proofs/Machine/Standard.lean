import Mathlib.Control.Monad.Basic
import Progression.Proofs.Double.Powers
import Progression.Proofs.Machine.Traps
import Progression.Proofs.Value.Exact

/-! # The standard machine

The machine that formulas are computed on traps where its documentation says so. Its guarded operations are those of
the arithmetic of doubles, at all doubles, and so it evaluates formulas as they are evaluated without traps. -/

namespace Progression

namespace Machine

/-- A power of finite numbers traps where it is not a finite number: as too large, or, for a base of zero and for a
negative base with a fractional exponent, as outside the domain. -/
def standardPow (a b : Double) : Except Trap Double :=
  let v := a.pow b
  if !a.isFinite || !b.isFinite || v.isFinite then .ok v
  else if v.isInfinite && !a.isZero then .error .overflow
  else .error .domain

/-- A remainder traps where it is not a number although both operands are numbers. -/
def standardFmod (a b : Double) : Except Trap Double :=
  if (a % b).isNaN && !a.isNaN && !b.isNaN then .error .domain else .ok (a % b)

/-- The trap that the conversion of a number without a double meets. -/
def conversionTrap : Number.Fault → Trap
  | .signalingNaN => .domain
  | _ => .overflow

def standard : Machine where
  add a b := .ok (a + b)
  sub a b := .ok (a - b)
  mul a b := .ok (a * b)
  div a b := if b.isZero then .error .zeroDivision else .ok (a / b)
  fmod := standardFmod
  pow := standardPow
  log a := if a.less 0 || a.isZero then .error .domain else .ok a.ln
  convert n := n.toDouble.mapError conversionTrap

section Traps

variable (a b : Double)

theorem standardFmod_cases :
    standardFmod a b = .ok (a % b) ∨ standardFmod a b = .error .domain ∧ a % b = .nan := by
  unfold standardFmod
  split
  · rename_i h
    refine .inr ⟨rfl, ?_⟩
    cases hv : a % b with
    | nan => rfl
    | infinite s =>
        rw [hv] at h
        cases h
    | finite s n =>
        rw [hv] at h
        cases h
  · exact .inl rfl

/-- What a power of finite numbers is where it is no finite number. -/
theorem pow_cases (ha : a.isFinite) (hb : b.isFinite) (hv : (a.pow b).isFinite = false) :
    (a.isZero = false ∧ a.pow b = .infinite (a.less 0 && b.isOdd)) ∨ (a.isZero = false ∧ a.pow b = .nan) ∨
      a.isZero = true ∧ a.pow b = .infinite (a.negative && b.isOdd) := by
  cases a with
  | nan => cases ha
  | infinite s => cases ha
  | finite s m =>
      cases b with
      | nan => cases hb
      | infinite t => cases hb
      | finite t n =>
          by_cases htrivial : ((Double.finite t n).isZero || Double.finite s m = 1) = true
          · have hone : (Double.finite s m).pow (.finite t n) = 1 := if_pos htrivial
            rw [hone] at hv
            exact absurd hv (by decide +kernel)
          · rw [Bool.or_eq_true, not_or, decide_eq_true_eq] at htrivial
            rw [Double.pow_finite htrivial.2 (Bool.eq_false_iff.mpr htrivial.1)] at hv ⊢
            by_cases hm : m.val = 0
            · rw [if_pos hm] at hv ⊢
              cases t with
              | false => cases hv
              | true => exact .inr (.inr ⟨beq_iff_eq.mpr hm, rfl⟩)
            · have hzero : (Double.finite s m).isZero = false := beq_eq_false_iff_ne.mpr hm
              rw [if_neg hm] at hv ⊢
              by_cases hfraction : (s && !(Double.finite t n).isInteger) = true
              · rw [if_pos hfraction]
                exact .inr (.inl ⟨hzero, rfl⟩)
              · rw [if_neg hfraction] at hv ⊢
                rw [Double.less_zero_eq, hzero, Bool.not_false, Bool.and_true]
                unfold Double.powMagnitude at hv ⊢
                rcases Double.withSign_abs_cases (s && (Double.finite t n).isOdd) _ with hnan | hinfinite | ⟨k, hfinite⟩
                · exact .inr (.inl ⟨rfl, hnan⟩)
                · exact .inl ⟨rfl, hinfinite⟩
                · rw [hfinite] at hv
                  cases hv

theorem standardPow_cases :
    standardPow a b = .ok (a.pow b) ∨
      (standardPow a b = .error .overflow ∧ a.pow b = .infinite (a.less 0 && b.isOdd)) ∨
      standardPow a b = .error .domain ∧
        a.pow b = if a.isZero then .infinite (a.negative && b.isOdd) else .nan := by
  by_cases hok : (!a.isFinite || !b.isFinite || (a.pow b).isFinite) = true
  · exact .inl (if_pos hok)
  · have hstandard : standardPow a b =
        if (a.pow b).isInfinite && !a.isZero then .error .overflow else .error .domain := if_neg hok
    rw [Bool.or_eq_true, Bool.or_eq_true, not_or, not_or] at hok
    obtain ⟨⟨ha, hb⟩, hv⟩ := hok
    rw [hstandard]
    rcases pow_cases a b (by simpa using ha) (by simpa using hb) (Bool.eq_false_iff.mpr hv) with
      ⟨hzero, hpow⟩ | ⟨hzero, hpow⟩ | ⟨hzero, hpow⟩
    · rw [hzero, hpow]
      exact .inr (.inl ⟨rfl, rfl⟩)
    · rw [hzero, hpow]
      exact .inr (.inr ⟨rfl, rfl⟩)
    · rw [hzero, hpow]
      exact .inr (.inr ⟨rfl, rfl⟩)

end Traps

theorem lawful_standard : standard.Lawful where
  add _ _ := ⟨_, rfl⟩
  sub _ _ := ⟨_, rfl⟩
  mul _ _ := ⟨_, rfl⟩
  div a b hb := ⟨a / b, if_neg (Bool.eq_false_iff.mp hb)⟩
  div_zero _ _ hb := if_pos hb
  fmod a b t h := by
    change standardFmod a b = .error t at h
    rcases standardFmod_cases a b with hok | ⟨herror, -⟩
    · cases hok.symm.trans h
    · cases herror.symm.trans h
      rfl
  pow a b t h := by
    change standardPow a b = .error t at h
    rcases standardPow_cases a b with hok | ⟨herror, -⟩ | ⟨herror, -⟩
    · cases hok.symm.trans h
    · cases herror.symm.trans h
      exact .inr rfl
    · cases herror.symm.trans h
      exact .inl rfl
  log a h := by
    refine ⟨a.ln, if_neg ?_⟩
    rw [Double.zero_less_eq] at h
    rw [Double.less_zero_eq]
    grind
  convert n t h := by
    change n.toDouble.mapError conversionTrap = .error t at h
    cases hn : n.toDouble with
    | ok v =>
        rw [hn] at h
        cases h
    | error f =>
        rw [hn] at h
        cases h
        cases f <;> first | exact .inl rfl | exact .inr rfl

section Agreement

variable (a b : Double)

/-- The guard of a quotient puts the sign of the quotient on an infinity. -/
theorem infinite_mul_one (s t : Bool) :
    Double.withSign s (.infinite false) * Double.withSign t 1 = .infinite (s ^^ t) := by
  cases s <;> cases t <;> decide +kernel

theorem quotient_standard : standard.quotient a b = .ok (a / b) := by
  unfold quotient
  cases hb : b.isZero with
  | true =>
      have hdiv : standard.div a b = .error .zeroDivision := if_pos hb
      obtain ⟨s, rfl⟩ : ∃ s, b = .zero s := ⟨_, Double.eq_zero_of_isZero hb⟩
      rw [hdiv, Double.div_zero, Bool.or_comm]
      dsimp only
      split
      · rfl
      · exact congrArg Except.ok (infinite_mul_one a.negative s)
  | false =>
      have hdiv : standard.div a b = .ok (a / b) := if_neg (Bool.eq_false_iff.mp hb)
      rw [hdiv]

theorem remainder_standard : standard.remainder a b = .ok (a % b) := by
  unfold remainder
  rcases standardFmod_cases a b with hok | ⟨herror, hnan⟩
  · rw [show standard.fmod a b = _ from hok]
  · rw [show standard.fmod a b = _ from herror, hnan]

theorem power_standard : standard.power a b = .ok (a.pow b) := by
  unfold power
  rcases standardPow_cases a b with hok | ⟨herror, hpow⟩ | ⟨herror, hpow⟩
  · rw [show standard.pow a b = _ from hok]
  · rw [show standard.pow a b = _ from herror, hpow]
  · rw [show standard.pow a b = _ from herror, hpow]

theorem ln_standard : standard.ln a = .ok a.ln := by
  unfold ln
  by_cases hzero : a.isZero
  · rw [if_pos hzero, Double.ln, if_pos hzero]
  · rw [if_neg hzero]
    by_cases hnone : a.less 0 || a.isNaN
    · rw [if_pos hnone, Double.ln_eq_nan hnone]
    · rw [if_neg hnone]
      refine if_neg fun h => ?_
      rcases Bool.or_eq_true_iff.mp h with hless | h
      · exact hnone (Bool.or_eq_true_iff.mpr (.inl hless))
      · exact hzero h

theorem apply_standard (op : Operator) : standard.apply op a b = .ok (op.apply a b) := by
  cases op with
  | add => rfl
  | sub => rfl
  | mul => rfl
  | div => exact quotient_standard a b
  | mod => exact remainder_standard a b
  | pow => exact power_standard a b
  | log =>
      change standard.logarithm a b = .ok (a.ln / b.ln)
      unfold logarithm
      rw [ln_standard, ln_standard]
      exact quotient_standard a.ln b.ln

end Agreement

theorem eval_standard (x : Double) (f : Formula) : standard.eval x f = .ok (f.eval x) := by
  induction f with
  | literal v => rfl
  | unknown => rfl
  | apply op left right ihleft ihright =>
      unfold eval
      rw [ihleft, ihright]
      exact apply_standard _ _ op

theorem toDouble_standard (value : Value) :
    standard.toDouble value = (value.toDouble none).mapError .fault := by
  unfold toDouble
  cases value with
  | number n =>
      have hconvert : standard.convert n = n.toDouble.mapError conversionTrap := rfl
      dsimp only
      rw [hconvert, Value.toDouble_number]
      cases n.toDouble with
      | ok v => rfl
      | error f => cases f <;> rfl
  | truth b => rfl
  | complex re im => rfl
  | text s => rfl
  | null => rfl

/-- On the standard machine a formula is evaluated as it is without traps. -/
theorem evaluate_standard (f : Formula) (value : Value) (output : TypeRequest) :
    standard.evaluate f value output = (f.evaluate value output none).mapError .fault := by
  have hstandard := toDouble_standard value
  unfold Formula.evaluate
  cases hx : value.toDouble none with
  | error fault =>
      rw [hx] at hstandard
      exact evaluate_of_error hstandard f output
  | ok x =>
      rw [hx] at hstandard
      exact evaluate_of_ok hstandard (eval_standard x f) output

end Machine

namespace Formula

section Settled

variable {t : StorageType} (ht : t.HasIntegerLimits) (hwritable : t.HasWritableLimits) {output : TypeRequest}
  (houtput : output.resolve? = some t) (f : Formula)
include ht hwritable houtput

/-- A request for a type with integer limits that can be written is settled, if the value can be written. -/
theorem evaluate_settles (value : Value) : t.SettlesFor value (f.evaluate value output none) := by
  unfold evaluate
  rcases value.toDouble_cases with ⟨x, hx⟩ | ⟨r, hr⟩ | ⟨hlong, hunwritable⟩
  · rw [hx]
    exact .inl (StorageType.store_settles ht hwritable houtput (f.eval x))
  · rw [hr]
    exact .inl (.inr ⟨r, value, rfl⟩)
  · rw [hunwritable]
    exact .inr ⟨hlong, rfl⟩

/-- What cannot be put into words is only the refusal of the value itself. -/
theorem evaluate_eq_unwritable_iff (value : Value) :
    f.evaluate value output none = .error .unwritable ↔ value.LacksDouble ∧ value.isWritable = false := by
  rw [← Value.toDouble_eq_unwritable_iff]
  unfold evaluate
  cases hx : value.toDouble none with
  | error fault =>
      change Except.error fault = .error .unwritable ↔ _
      rw [Except.error.injEq, Except.error.injEq]
  | ok x =>
      refine iff_of_false (fun h => ?_) fun h => by cases h
      exact (StorageType.store_settles ht hwritable houtput (f.eval x)).ne_unwritable h

end Settled

end Formula

namespace Machine

/-- A request for a named type is settled, for every formula and every value: a number of the type is stored, or a value
is refused. Only if the value has no double and has too many digits, its refusal cannot be put into words. That holds on
every lawful machine, so that no trap escapes. The standard machine is lawful, and a formula is evaluated on it as it is
without traps. -/
theorem no_trap_escapes {t : StorageType} (ht : t ∈ StorageType.named) {output : TypeRequest}
    (houtput : output.resolve? = some t) (f : Formula) :
    (∀ value, t.SettlesFor value (f.evaluate value output none)) ∧
      (∀ value, f.evaluate value output none = .error .unwritable ↔ value.LacksDouble ∧ value.isWritable = false) ∧
      (∀ m : Machine, m.Lawful → ∀ value, ∃ outcome, t.SettlesFor value outcome ∧
        m.evaluate f value output = outcome.mapError .fault) ∧
      standard.Lawful ∧
      ∀ value, standard.evaluate f value output = (f.evaluate value output none).mapError .fault := by
  have hlimits := StorageType.hasIntegerLimits_named ht
  have hwritable := StorageType.hasWritableLimits_named ht
  refine ⟨fun value => ?_, f.evaluate_eq_unwritable_iff hlimits hwritable houtput, fun m hm value => ?_,
    lawful_standard, fun value => evaluate_standard f value output⟩
  · exact f.evaluate_settles hlimits hwritable houtput value
  · exact evaluate_settles hm hlimits hwritable houtput f value

/-- One divided by the unknown. -/
def reciprocal : Formula := .apply .div (.literal 1) .unknown

/-- The reciprocal of zero traps, and what escapes is that the infinity is refused. -/
theorem no_trap_escapes_reciprocal :
    StorageType.u8 ∈ StorageType.named ∧ (TypeRequest.exactly .u8).resolve? = some .u8 ∧ standard.Lawful ∧
      standard.div 1 (.zero false) = .error .zeroDivision ∧
      standard.evaluate reciprocal (.int 0) (.exactly .u8) =
        .error (.fault (.refused (.notFinite .u8) (.double (.infinite false)))) := by
  have hu8 : StorageType.u8 ∈ StorageType.named := List.mem_cons_self
  have hrunning : reciprocal.evaluate (.int 0) (.exactly .u8) none =
      .error (.refused (.notFinite .u8) (.double (.infinite false))) := by decide +kernel
  have houtput : (TypeRequest.exactly .u8).resolve? = some .u8 := rfl
  obtain ⟨-, -, -, hlawful, hstandard⟩ := no_trap_escapes hu8 houtput reciprocal
  refine ⟨hu8, houtput, hlawful, rfl, ?_⟩
  rw [hstandard, hrunning]
  rfl

/-- A fraction that is an integer with one digit too many to be written. -/
def longFraction : Value := .fraction Value.leastUnwritable

/-- Not every value is settled whose integers can be written, but not necessarily its fractions. -/
theorem longFraction_not_settled :
    ¬∀ (f : Formula) (value : Value), (∀ n : Int, value = .int n → value.isWritable) → ∀ t ∈ StorageType.named,
      t.Settles (f.evaluate value (.exactly t) none) := by
  intro h
  have hunwritable : Formula.unknown.evaluate longFraction (.exactly .u8) none = .error .unwritable := by
    decide +kernel
  have hsettles := h .unknown longFraction (fun n hn => by cases hn) .u8 List.mem_cons_self
  exact hsettles.ne_unwritable hunwritable

end Machine

end Progression
