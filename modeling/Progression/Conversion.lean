import Progression.Fault

/-! # Conversion to and from doubles

Formulas are computed on doubles. What a caller hands over is converted to a double, and checked first
against the storage type it is said to have; a computed double is converted to the storage type asked
for. An integer type drops the fraction and refuses what is then outside its limits. Doubles can always be
written; where another value or a limit is quoted, the refusal has to be put into words. -/

namespace Progression

/-- The storage type that a request stands for. -/
def TypeRequest.resolve (request : TypeRequest) : Except Fault StorageType :=
  match request.resolve? with
  | some t => .ok t
  | none => .error (.unsupportedType request)

/-- The storage type of a name. What cannot be looked up at all has a fault of its own. -/
def StorageType.ofName (name : Value) : Except Fault StorageType :=
  match name with
  | .text s =>
    match StorageType.find? s with
    | some t => .ok t
    | none => .error (.unknownType name)
  | _ => .error (if name.isSignaling then .unhashable else (Fault.unknownType name).worded)

namespace Value

/-- Whether `a < b`: numbers by their places, and texts by their characters. -/
def less (a b : Value) : Except Fault Bool :=
  match a, b with
  | .text s, .text t => .ok (Text.precedes s.toList t.toList)
  | a, b =>
    match a.asNumber?, b.asNumber? with
    | some m, some n => (m.less n).mapError .number
    | _, _ => .error (.unordered "<" a.kind b.kind)

/-- Whether `a > b`: that is `b < a`, but a fault names the operands in their own order. -/
def greater (a b : Value) : Except Fault Bool :=
  match a, b with
  | .text s, .text t => .ok (Text.precedes t.toList s.toList)
  | a, b =>
    match a.asNumber?, b.asNumber? with
    | some m, some n => (n.less m).mapError .number
    | _, _ => .error (.unordered ">" a.kind b.kind)

/-- The sum, difference or remainder of values that count as numbers. -/
def operate (op : Number.Operation) (a b : Value) : Except Fault Value :=
  match a.asNumber?, b.asNumber? with
  | some m, some n => ((op.apply m n).mapError .number).map .number
  | _, _ => .error (.number (.mixedKinds op.symbol a.kind b.kind))

@[simp] theorem less_int (m n : Int) : (int m).less (int n) = .ok (decide (m < n)) :=
  congrArg (Except.mapError Fault.number) (Number.less_int m n)

@[simp] theorem greater_int (m n : Int) : (int m).greater (int n) = .ok (decide (n < m)) :=
  congrArg (Except.mapError Fault.number) (Number.less_int n m)

@[simp] theorem operate_int (op : Number.Operation) (m n : Int) :
    operate op (int m) (int n) = .ok (int (op.onInts m n)) := rfl

end Value

namespace StorageType

/-- Refuses an integer outside the limits of the type; `value` is what the message quotes. -/
def checkLimits (t : StorageType) (n : Int) (value : Value) : Except Fault Unit := do
  if let some least := t.least then
    if ← (Value.int n).less least then throw (Fault.refused (.below t least) value).worded
  if let some greatest := t.greatest then
    if ← (Value.int n).greater greatest then throw (Fault.refused (.above t greatest) value).worded

/-- The double in single precision. A finite one must stay finite. -/
def single (t : StorageType) (v : Double) : Except Fault Double :=
  if v.toSingle.isInfinite && v.isFinite then .error (.refused (.outOfRange t) (.double v))
  else .ok v.toSingle

/-- The integer part of a finite double, within the limits of the type. -/
def integer (t : StorageType) (v : Double) : Except Fault Int :=
  match v.truncate? with
  | none => .error (.refused (.notFinite t) (.double v))
  | some n => do
    if (← t.isUnsigned.mapError .number) && v.less 0 then throw (.refused (.negative t) (.double v))
    t.checkLimits n (.double v)
    return n

/-- The computed double as a value of the type. -/
def ofDouble (t : StorageType) (v : Double) : Except Fault Number :=
  if t.isInteger then (t.integer v).map .int
  else if t.singlePrecision then (t.single v).map .double
  else .ok (.double v)

/-- Checks that a number belongs to the type. Single precision only asks that the number be in range;
what has no double at all keeps the fault of that conversion. -/
def checkNumber (t : StorageType) (n : Number) : Except Fault Unit := do
  if t.isInteger then
    let integral? :=
      match n with
      | .int m => some m
      | .decimal d => d.toInt?
      | _ => none
    match integral? with
    | some m => t.checkLimits m (.number n)
    | none => throw (Fault.refused (.notOfType t) (.number n)).worded
  else if t.singlePrecision then
    match n.toDouble with
    | .ok v => discard (t.single v)
    | .error f => throw (.number f)

end StorageType

namespace Double

/-- The computed double as a value of the type asked for. -/
def store (v : Double) (output : TypeRequest) : Except Fault Number := do
  (← output.resolve).ofDouble v

end Double

namespace Value

/-- The double that a value stands for, after a check against a storage type. Only real numbers have
one. -/
def toDouble (value : Value) (input : Option TypeRequest) : Except Fault Double :=
  match value with
  | .number n => do
    match input with
    | some request => (← request.resolve).checkNumber n
    | none => pure ()
    match n.toDouble with
    | .ok v => return v
    | .error _ => throw (Fault.refused .noDouble value).worded
  | _ => .error (.refused .notReal value)

/-- The integer part of a value; a text is read as a numeral. -/
def integerPart (value : Value) : Except Fault Int :=
  let orElse (fault : NoInteger) (n? : Option Int) : Except Fault Int :=
    match n? with
    | some n => .ok n
    | none => .error (.noInteger fault)
  match value with
  | .number (.int n) => .ok n
  | .number (.double v) => orElse (if v.isNaN then .doubleNaN else .doubleInfinite) v.truncate?
  | .number (.decimal d) => orElse (if d.isNaN then .decimalNaN else .decimalInfinite) d.truncate?
  | .number (.fraction r) => .ok (Int.tdiv r.num r.den)
  | .truth b => .ok (if b then 1 else 0)
  | .text s => orElse (.ofText s) (Text.readInt? s.toList)
  | value => .error (.noInteger (.otherKind value.kind))

end Value
end Progression
