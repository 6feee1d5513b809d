import Progression.Proofs.Double.Zeros
import Progression.Proofs.StorageType.Storing
import Progression.Formula.Parse

/-! # Machines that trap

A machine need not have a result where the arithmetic of doubles has an infinity or not-a-number: it may trap, at a zero
divisor, outside the domain of a function, or at a result that is too large. A formula is computed on it behind guards
that put those results back, and a value that cannot be converted is refused. What traps a lawful machine has are
then all caught: at every value it stores a number, or it refuses one, unless that has too many digits to be written. -/

namespace Progression

namespace Value

theorem toDouble_number (n : Number) :
    (number n).toDouble none = n.toDouble.mapError fun _ => (Fault.refused .noDouble (.number n)).worded := by
  unfold toDouble
  dsimp only
  cases n.toDouble <;> rfl

/-- What has no double is refused, if no type is declared for it and it can be written. -/
theorem toDouble_cases (value : Value) :
    (∃ x, value.toDouble none = .ok x) ∨ (∃ r, value.toDouble none = .error (.refused r value)) ∨
      value.isWritable = false ∧ value.toDouble none = .error .unwritable := by
  cases value with
  | number n =>
      rw [toDouble_number]
      cases n.toDouble with
      | ok x => exact .inl ⟨x, rfl⟩
      | error f =>
          rcases Fault.worded_refused_cases (r := .noDouble) rfl (number n) with ⟨-, hworded⟩ | ⟨hlong, hworded⟩
          · exact .inr (.inl ⟨_, congrArg _ hworded⟩)
          · exact .inr (.inr ⟨hlong, congrArg _ hworded⟩)
  | truth b => exact .inr (.inl ⟨_, rfl⟩)
  | complex re im => exact .inr (.inl ⟨_, rfl⟩)
  | text s => exact .inr (.inl ⟨_, rfl⟩)
  | null => exact .inr (.inl ⟨_, rfl⟩)

end Value

/-- Why a machine gives no result. -/
inductive Trap where
  | zeroDivision
  | overflow
  | domain
  | operandKind
  deriving DecidableEq

/-- The operations that a machine brings along. -/
structure Machine where
  add : Double → Double → Except Trap Double
  sub : Double → Double → Except Trap Double
  mul : Double → Double → Except Trap Double
  div : Double → Double → Except Trap Double
  fmod : Double → Double → Except Trap Double
  pow : Double → Double → Except Trap Double
  log : Double → Except Trap Double
  convert : Number → Except Trap Double

/-- How a computation on a machine can fail: with a fault, or with a trap that nothing has caught. -/
inductive Escape where
  | fault (f : Fault)
  | trap (t : Trap)
  deriving DecidableEq

namespace Machine

section Guarded

variable (m : Machine)

/-- The quotient. A zero divisor leaves nothing of a zero, and an infinity of any other number. -/
def quotient (a b : Double) : Except Trap Double :=
  match m.div a b with
  | .error .zeroDivision =>
    if a.isZero || a.isNaN then .ok .nan
    else m.mul (.withSign a.negative (.infinite false)) (.withSign b.negative 1)
  | outcome => outcome

def remainder (a b : Double) : Except Trap Double :=
  match m.fmod a b with
  | .error .domain => .ok .nan
  | outcome => outcome

/-- The power. One that is too large is an infinity, and so is a negative power of zero. -/
def power (a b : Double) : Except Trap Double :=
  match m.pow a b with
  | .error .overflow => .ok (.infinite (a.less 0 && b.isOdd))
  | .error .domain => .ok (if a.isZero then .infinite (a.negative && b.isOdd) else .nan)
  | outcome => outcome

def ln (a : Double) : Except Trap Double :=
  if a.isZero then .ok (.infinite true)
  else if a.less 0 || a.isNaN then .ok .nan
  else m.log a

def logarithm (a base : Double) : Except Trap Double := do
  let dividend ← m.ln a
  let divisor ← m.ln base
  m.quotient dividend divisor

def apply : Operator → Double → Double → Except Trap Double
  | .add => m.add
  | .sub => m.sub
  | .mul => m.mul
  | .div => m.quotient
  | .mod => m.remainder
  | .pow => m.power
  | .log => m.logarithm

/-- The value of a formula at `x`, the left operand being computed first. -/
def eval (x : Double) : Formula → Except Trap Double
  | .literal v => .ok v
  | .unknown => .ok x
  | .apply op left right => do
    let a ← eval x left
    let b ← eval x right
    m.apply op a b

/-- The double that a value stands for. -/
def toDouble (value : Value) : Except Escape Double :=
  match value with
  | .number n =>
    match m.convert n with
    | .ok v => .ok v
    | .error .overflow | .error .domain => .error (.fault (Fault.refused .noDouble value).worded)
    | .error t => .error (.trap t)
  | _ => .error (.fault (.refused .notReal value))

/-- The value of a formula at what a caller hands over, as the storage type asked for. -/
def evaluate (f : Formula) (value : Value) (output : TypeRequest) : Except Escape Number := do
  let x ← m.toDouble value
  let y ← (m.eval x f).mapError .trap
  (y.store output).mapError .fault

end Guarded

/-- A machine only traps where its operations are known to: a quotient exactly at a zero divisor, a remainder outside
its domain, a power or a conversion also if it is too large, and a logarithm nowhere among the positive numbers. -/
structure Lawful (m : Machine) : Prop where
  add : ∀ a b, ∃ v, m.add a b = .ok v
  sub : ∀ a b, ∃ v, m.sub a b = .ok v
  mul : ∀ a b, ∃ v, m.mul a b = .ok v
  div : ∀ a b, b.isZero = false → ∃ v, m.div a b = .ok v
  div_zero : ∀ a b, b.isZero → m.div a b = .error .zeroDivision
  fmod : ∀ a b t, m.fmod a b = .error t → t = .domain
  pow : ∀ a b t, m.pow a b = .error t → t = .domain ∨ t = .overflow
  log : ∀ a, Double.less 0 a → ∃ v, m.log a = .ok v
  convert : ∀ n t, m.convert n = .error t → t = .domain ∨ t = .overflow

section Lawful

variable {m : Machine} (hm : m.Lawful)
include hm

theorem quotient_ok (a b : Double) : ∃ v, m.quotient a b = .ok v := by
  unfold quotient
  cases hb : b.isZero with
  | true =>
      rw [hm.div_zero a b hb]
      dsimp only
      split
      · exact ⟨_, rfl⟩
      · exact hm.mul _ _
  | false =>
      obtain ⟨v, hv⟩ := hm.div a b hb
      rw [hv]
      exact ⟨v, rfl⟩

theorem remainder_ok (a b : Double) : ∃ v, m.remainder a b = .ok v := by
  unfold remainder
  cases h : m.fmod a b with
  | ok v => exact ⟨v, rfl⟩
  | error t =>
      obtain rfl := hm.fmod a b t h
      exact ⟨_, rfl⟩

theorem power_ok (a b : Double) : ∃ v, m.power a b = .ok v := by
  unfold power
  cases h : m.pow a b with
  | ok v => exact ⟨v, rfl⟩
  | error t =>
      rcases hm.pow a b t h with rfl | rfl
      · exact ⟨_, rfl⟩
      · exact ⟨_, rfl⟩

/-- Behind the guard, only positive numbers are left to take the logarithm of. -/
theorem ln_ok (a : Double) : ∃ v, m.ln a = .ok v := by
  unfold ln
  by_cases hzero : a.isZero
  · rw [if_pos hzero]
    exact ⟨_, rfl⟩
  · rw [if_neg hzero]
    by_cases hnone : a.less 0 || a.isNaN
    · rw [if_pos hnone]
      exact ⟨_, rfl⟩
    · rw [if_neg hnone]
      apply hm.log
      rw [Double.less_zero_eq] at hnone
      rw [Double.zero_less_eq]
      grind

theorem logarithm_ok (a base : Double) : ∃ v, m.logarithm a base = .ok v := by
  obtain ⟨dividend, hdividend⟩ := ln_ok hm a
  obtain ⟨divisor, hdivisor⟩ := ln_ok hm base
  unfold logarithm
  rw [hdividend, hdivisor]
  exact quotient_ok hm dividend divisor

theorem apply_ok (op : Operator) (a b : Double) : ∃ v, m.apply op a b = .ok v := by
  cases op with
  | add => exact hm.add a b
  | sub => exact hm.sub a b
  | mul => exact hm.mul a b
  | div => exact quotient_ok hm a b
  | mod => exact remainder_ok hm a b
  | pow => exact power_ok hm a b
  | log => exact logarithm_ok hm a b

/-- No trap escapes from a formula, however deep the application is in which it comes up. -/
theorem eval_ok (x : Double) (f : Formula) : ∃ v, m.eval x f = .ok v := by
  induction f with
  | literal v => exact ⟨v, rfl⟩
  | unknown => exact ⟨x, rfl⟩
  | apply op left right ihleft ihright =>
      obtain ⟨a, ha⟩ := ihleft
      obtain ⟨b, hb⟩ := ihright
      unfold eval
      rw [ha, hb]
      exact apply_ok hm op a b

theorem toDouble_of_convert {n : Number} {t : Trap} (h : m.convert n = .error t) :
    m.toDouble (.number n) = .error (.fault (Fault.refused .noDouble (.number n)).worded) := by
  unfold toDouble
  dsimp only
  rw [h]
  rcases hm.convert n t h with rfl | rfl
  · rfl
  · rfl

/-- A value has a double, or it is refused, if it can be written. -/
theorem toDouble_cases (value : Value) :
    (∃ x, m.toDouble value = .ok x) ∨ (∃ r, m.toDouble value = .error (.fault (.refused r value))) ∨
      value.isWritable = false ∧ m.toDouble value = .error (.fault .unwritable) := by
  cases value with
  | number n =>
      cases h : m.convert n with
      | ok v =>
          refine .inl ⟨v, ?_⟩
          unfold toDouble
          dsimp only
          rw [h]
      | error t =>
          rw [toDouble_of_convert hm h]
          rcases Fault.worded_refused_cases (r := .noDouble) rfl (.number n) with ⟨-, hworded⟩ | ⟨hlong, hworded⟩
          · exact .inr (.inl ⟨_, by rw [hworded]⟩)
          · exact .inr (.inr ⟨hlong, by rw [hworded]⟩)
  | truth b => exact .inr (.inl ⟨_, rfl⟩)
  | complex re im => exact .inr (.inl ⟨_, rfl⟩)
  | text s => exact .inr (.inl ⟨_, rfl⟩)
  | null => exact .inr (.inl ⟨_, rfl⟩)

omit hm in
theorem evaluate_of_ok {f : Formula} {value : Value} {x v : Double} (hx : m.toDouble value = .ok x)
    (hv : m.eval x f = .ok v) (output : TypeRequest) :
    m.evaluate f value output = (v.store output).mapError .fault := by
  unfold evaluate
  rw [hx]
  change (m.eval x f).mapError Escape.trap >>= _ = _
  rw [hv]
  rfl

omit hm in
theorem evaluate_of_error {value : Value} {e : Escape} (he : m.toDouble value = .error e) (f : Formula)
    (output : TypeRequest) : m.evaluate f value output = .error e := by
  unfold evaluate
  rw [he]
  rfl

/-- What a lawful machine comes to at a value is settled for every formula, if the value can be written. -/
theorem evaluate_settles {t : StorageType} (ht : t.HasIntegerLimits) (hwritable : t.HasWritableLimits)
    {output : TypeRequest} (houtput : output.resolve? = some t) (f : Formula) (value : Value) :
    ∃ outcome, t.SettlesFor value outcome ∧ m.evaluate f value output = outcome.mapError .fault := by
  rcases toDouble_cases hm value with ⟨x, hx⟩ | ⟨r, hr⟩ | ⟨hlong, hunwritable⟩
  · obtain ⟨v, hv⟩ := eval_ok hm x f
    exact ⟨v.store output, .inl (StorageType.store_settles ht hwritable houtput v), evaluate_of_ok hx hv output⟩
  · exact ⟨.error (.refused r value), .inl (.inr ⟨r, value, rfl⟩), evaluate_of_error hr f output⟩
  · exact ⟨.error .unwritable, .inr ⟨hlong, rfl⟩, evaluate_of_error hunwritable f output⟩

end Lawful
end Machine
end Progression
