import Progression.Decimal.Arithmetic
import Progression.Value.Scaled

/-! # Numbers in the kinds that callers hold

A number is an integer, a double, a decimal or a fraction. Comparison is exact across the kinds. Sums and
remainders stay exact for integers and fractions, become doubles as soon as a double takes part, and do
not mix decimals with doubles or fractions. -/

namespace Progression

inductive Number where
  | int (n : Int)
  | double (v : Double)
  | decimal (d : Decimal)
  | fraction (r : Rat)
  deriving DecidableEq

namespace Number

/-- The name of a number's kind. -/
def kind : Number → String
  | .int _ => "int"
  | .double _ => "float"
  | .decimal _ => "decimal.Decimal"
  | .fraction _ => "Fraction"

/-- Why an operation on numbers has no result. -/
inductive Fault where
  | integerTooLarge
  | quotientTooLarge
  | signalingNaN
  | decimal (f : Decimal.Fault)
  | mixedKinds (operator left right : String)
  deriving DecidableEq

def Fault.message : Fault → String
  | .integerTooLarge => "int too large to convert to float"
  | .quotientTooLarge => "integer division result too large for a float"
  | .signalingNaN => "cannot convert signaling NaN to float"
  | .decimal f => f.message
  | .mixedKinds operator left right =>
    "unsupported operand type(s) for " ++ operator ++ ": '" ++ left ++ "' and '" ++ right ++ "'"

/-- A finite double, or else the fault. -/
def requireFinite (fault : Fault) (v : Double) : Except Fault Double :=
  if v.isFinite then .ok v else .error fault

/-- The nearest double. Integers and fractions out of range have none; decimals out of range become
infinities. -/
def toDouble : Number → Except Fault Double
  | .int n => requireFinite .integerTooLarge (.ofInt n)
  | .double v => .ok v
  | .decimal d =>
    match d.toDouble? with
    | some v => .ok v
    | none => .error .signalingNaN
  | .fraction r => requireFinite .quotientTooLarge (.ofRat r)

/-- The place of a number among all numbers and the two infinities. -/
inductive Place where
  | below
  | at (s : Scaled)
  | above
  deriving DecidableEq

/-- How two places stand to each other. -/
def Place.compare : Place → Place → Ordering
  | .below, .below | .above, .above => .eq
  | .below, _ | _, .above => .lt
  | _, .below | .above, _ => .gt
  | .at r, .at s => r.compare s

theorem Place.compare_eq_symm {p q : Place} (h : p.compare q = .eq) : q.compare p = .eq := by
  cases p <;> cases q <;> grind [Place.compare, Scaled.compare_eq_symm]

theorem Place.compare_eq_trans {p q r : Place} (hpq : p.compare q = .eq) (hqr : q.compare r = .eq) :
    p.compare r = .eq := by
  cases p <;> cases q <;> cases r <;> grind [Place.compare, Scaled.compare_eq_trans]

/-- The exact place of a number; not-a-number has none. -/
def place? : Number → Option Place
  | .int n => some (.at (.ofRat n))
  | .double .nan => none
  | .double (.infinite s) => some (if s then .below else .above)
  | .double v => v.toRat?.map (.at ∘ .ofRat)
  | .decimal (.nan ..) => none
  | .decimal (.infinite s) => some (if s then .below else .above)
  | .decimal (.finite s c e) => some (.at ⟨Decimal.signedInt s c, e⟩)
  | .fraction r => some (.at (.ofRat r))

def isDecimal : Number → Bool
  | .decimal _ => true
  | _ => false

/-- Whether `a < b`. Not-a-number is never less, but is refused where a decimal takes part. -/
def less (a b : Number) : Except Fault Bool :=
  match a.place?, b.place? with
  | some p, some q => .ok (p.compare q).isLT
  | _, _ => if a.isDecimal || b.isDecimal then .error (.decimal .undefined) else .ok false

/-- Whether the two are the same number: never if one of them is not a number. -/
def same (a b : Number) : Bool :=
  match a.place?, b.place? with
  | some p, some q => (p.compare q).isEq
  | _, _ => false

theorem same_iff {a b : Number} :
    a.same b = true ↔ ∃ p q, a.place? = some p ∧ b.place? = some q ∧ p.compare q = .eq := by
  unfold same
  cases a.place? <;> cases b.place? <;> simp [Ordering.isEq_iff_eq_eq]

theorem compare_int (m n : Int) :
    (Place.at (.ofRat m)).compare (.at (.ofRat n)) = Scaled.order m n := by
  simp [Place.compare, Scaled.compare_ofRat]

@[simp] theorem less_int (m n : Int) : (int m).less (int n) = .ok (decide (m < n)) := by
  simp only [less, place?, compare_int, Scaled.isLT_order]

@[simp] theorem same_int (m n : Int) : (int m).same (int n) = decide (m = n) := by
  simp only [same, place?, compare_int, Scaled.isEq_order]

theorem same_symm {a b : Number} (h : a.same b = true) : b.same a = true := by
  obtain ⟨p, q, hp, hq, h⟩ := same_iff.mp h
  exact same_iff.mpr ⟨q, p, hq, hp, Place.compare_eq_symm h⟩

theorem same_trans {a b c : Number} (hab : a.same b = true) (hbc : b.same c = true) :
    a.same c = true := by
  obtain ⟨p, q, hp, hq, hpq⟩ := same_iff.mp hab
  obtain ⟨q', r, hq', hr, hqr⟩ := same_iff.mp hbc
  obtain rfl : q = q' := Option.some.inj (hq.symm.trans hq')
  exact same_iff.mpr ⟨p, r, hp, hr, Place.compare_eq_trans hpq hqr⟩

def isSignaling : Number → Bool
  | .decimal d => d.isSignaling
  | _ => false

/-- The operations that gauges and intervals use. `inPlace` is a subtraction that replaces its left
operand, and `modulo` is the remainder of a division by a number other than zero. -/
inductive Operation where
  | plus
  | minus
  | inPlace
  | modulo
  deriving DecidableEq

namespace Operation

def symbol : Operation → String
  | plus => "+"
  | minus => "-"
  | inPlace => "-="
  | modulo => "%"

/-- On integers, a remainder leaves the quotient rounded down. -/
def onInts : Operation → Int → Int → Int
  | plus, a, b => a + b
  | minus, a, b | inPlace, a, b => a - b
  | modulo, a, b => Int.fmod a b

/-- On fractions, a remainder leaves the quotient rounded down. -/
def onRats : Operation → Rat → Rat → Rat
  | plus, a, b => a + b
  | minus, a, b | inPlace, a, b => a - b
  | modulo, a, b => a - b * (a / b).floor

/-- On doubles, a remainder has the sign of the divisor. -/
def onDoubles : Operation → Double → Double → Double
  | plus, a, b => a + b
  | minus, a, b | inPlace, a, b => a - b
  | modulo, a, b => a.modulo b

/-- On decimals, a remainder has the sign of the dividend. -/
def onDecimals : Operation → Decimal → Decimal → Except Decimal.Fault Decimal
  | plus, a, b => a.add b
  | minus, a, b | inPlace, a, b => a.sub b
  | modulo, a, b => a.rem b

/-- Applies the operation. -/
def apply (op : Operation) (a b : Number) : Except Fault Number :=
  let decimals (d e : Decimal) : Except Fault Number :=
    match op.onDecimals d e with
    | .ok result => .ok (.decimal result)
    | .error f => .error (.decimal f)
  match a, b with
  | .int m, .int n => .ok (.int (op.onInts m n))
  | .int m, .fraction s => .ok (.fraction (op.onRats m s))
  | .fraction r, .int n => .ok (.fraction (op.onRats r n))
  | .fraction r, .fraction s => .ok (.fraction (op.onRats r s))
  | .decimal d, .decimal e => decimals d e
  | .decimal d, .int n => decimals d (.ofInt n)
  | .int m, .decimal e => decimals (.ofInt m) e
  | .decimal _, _ | _, .decimal _ => .error (.mixedKinds op.symbol a.kind b.kind)
  | a, b => do
    let x ← a.toDouble
    let y ← b.toDouble
    return .double (op.onDoubles x y)

end Operation
end Number
end Progression
