import Progression.Formula.Reading
import Progression.Formula.SyntaxError
import Progression.StorageType

/-! # Faults

Everything that can go wrong, by its cause. The wording of a fault is a function of the cause. Most faults
quote values, and a value with too many digits cannot be written: then the wording goes wrong itself, and
what comes out is that fault instead. -/

namespace Progression

/-- Why a value is refused by a conversion. -/
inductive Refusal where
  | notReal
  | noDouble
  | notOfType (t : StorageType)
  | below (t : StorageType) (limit : Value)
  | above (t : StorageType) (limit : Value)
  | outOfRange (t : StorageType)
  | notFinite (t : StorageType)
  | negative (t : StorageType)
  | notInTable
  deriving DecidableEq

/-- The limits that a refusal quotes besides the value. -/
def Refusal.limits : Refusal → List Value
  | .below _ limit | .above _ limit => [limit]
  | _ => []

/-- The refusal of a value in words, where the value and the limits can be written. -/
def Refusal.text (value : Value) : Refusal → String
  | .notReal => value.quoted ++ " is not a real number"
  | .noDouble => value.quoted ++ " has no double precision representation"
  | .notOfType t => value.quoted ++ " is not a " ++ t.name ++ " value"
  | .below t limit => value.quoted ++ " is below the " ++ t.name ++ " minimum " ++ limit.display
  | .above t limit => value.quoted ++ " is above the " ++ t.name ++ " maximum " ++ limit.display
  | .outOfRange t => value.quoted ++ " is out of range for " ++ t.name
  | .notFinite t => "Non-finite " ++ value.quoted ++ " cannot be converted to " ++ t.name
  | .negative t => "Negative " ++ value.quoted ++ " cannot be converted to " ++ t.name
  | .notInTable => value.quoted ++ " is out of bound for the value map"

/-- Why a value has no integer part. -/
inductive NoInteger where
  | doubleNaN
  | doubleInfinite
  | decimalNaN
  | decimalInfinite
  | notDigits (text : String)
  | tooManyDigits (count : Nat)
  | otherKind (kind : String)
  deriving DecidableEq

/-- Why a text is not read as an integer: the digits it begins with are counted before all else. -/
def NoInteger.ofText (text : String) : NoInteger :=
  let count := (Text.leadingDigits text.toList).length
  if Text.digitLimit < count then .tooManyDigits count else .notDigits text

/-- How many characters of a quoted text a message shows. -/
def quotedTextLimit : Nat := 200

/-- How the digit limit is complained of; `found` says what was found. -/
def digitLimitMessage (found : String) : String :=
  "Exceeds the limit (" ++ Nat.repr Text.digitLimit ++ " digits) for integer string conversion" ++ found ++
    "; use sys.set_int_max_str_digits() to increase the limit"

def NoInteger.message : NoInteger → String
  | .doubleNaN => "cannot convert float NaN to integer"
  | .doubleInfinite => "cannot convert float infinity to integer"
  | .decimalNaN => "cannot convert NaN to integer"
  | .decimalInfinite => "cannot convert Infinity to integer"
  | .notDigits text =>
    "invalid literal for int() with base 10: " ++
      String.ofList ((Text.quoted text.toList).take quotedTextLimit)
  | .tooManyDigits count => digitLimitMessage (": value has " ++ Nat.repr count ++ " digits")
  | .otherKind kind =>
    "int() argument must be a string, a bytes-like object or a real number, not '" ++ kind ++ "'"

inductive Fault where
  | syntaxError (text : List Char) (e : SyntaxError)
  | malformed (m : Reading.Malformed)
  | nestingLimit (limit : Int)
  | stray (leaf : Value)
  | refused (r : Refusal) (value : Value)
  | number (f : Number.Fault)
  | unordered (symbol left right : String)
  | noInteger (n : NoInteger)
  | unhashable
  | unknownType (name : Value)
  | unsupportedType (request : TypeRequest)
  | emptyInterval (least greatest : Value)
  | negativeGauge (current ceiling : Value)
  | overfullGauge (current ceiling : Value)
  | negativeAmount (amount : Value)
  | fractionalCeiling (t : StorageType)
  | unsavable (kind : String)
  | notText (kind : String)
  | missing (field : String)
  | unwritable
  deriving DecidableEq

/-- The values that the message of a fault quotes. -/
def Fault.values : Fault → List Value
  | .malformed m => m.values
  | .nestingLimit limit => [.int limit]
  | .stray leaf => [leaf]
  | .refused r value => value :: r.limits
  | .unknownType name => [name]
  | .emptyInterval least greatest => [least, greatest]
  | .negativeGauge current ceiling | .overfullGauge current ceiling => [current, ceiling]
  | .negativeAmount amount => [amount]
  | _ => []

/-- What comes of putting a fault into words: the fault itself, if every value in it can be written. -/
def Fault.worded (f : Fault) : Fault := if f.values.all Value.isWritable then f else .unwritable

theorem Fault.worded_of_writable {f : Fault} (h : f.values.all Value.isWritable) : f.worded = f := if_pos h

theorem Fault.worded_of_not_writable {f : Fault} (h : f.values.all Value.isWritable = false) :
    f.worded = .unwritable := if_neg (Bool.eq_false_iff.mp h)

/-- Refusing a value that can be written comes to that, unless a limit is quoted with it. -/
theorem Fault.worded_refused {r : Refusal} (hr : r.limits = []) {value : Value} (h : value.isWritable) :
    (refused r value).worded = .refused r value := by
  refine worded_of_writable ?_
  rw [values, hr, List.all_cons, h]
  rfl

theorem Fault.worded_refused_of_not_writable (r : Refusal) {value : Value} (h : value.isWritable = false) :
    (refused r value).worded = .unwritable := by
  refine worded_of_not_writable ?_
  rw [values, List.all_cons, h, Bool.false_and]

/-- A refusal that quotes the value alone comes to itself if that can be written. -/
theorem Fault.worded_refused_cases {r : Refusal} (hr : r.limits = []) (value : Value) :
    value.isWritable = true ∧ (refused r value).worded = .refused r value ∨
      value.isWritable = false ∧ (refused r value).worded = .unwritable := by
  cases h : value.isWritable with
  | true => exact .inl ⟨rfl, worded_refused hr h⟩
  | false => exact .inr ⟨rfl, worded_refused_of_not_writable r h⟩

/-- The message of a fault, where the values in it can be written. -/
def Fault.message : Fault → String
  | .syntaxError text e => String.ofList (e.chars text)
  | .malformed m => m.message
  | .nestingLimit limit => "max_depth must be positive, got " ++ Value.intText limit
  | .stray leaf => "Unexpected node type: " ++ leaf.quoted
  | .refused r value => "[Conversion error] " ++ r.text value
  | .number f => f.message
  | .unordered symbol left right =>
    "'" ++ symbol ++ "' not supported between instances of '" ++ left ++ "' and '" ++ right ++ "'"
  | .noInteger n => n.message
  | .unhashable => "Cannot hash a signaling NaN value"
  | .unknownType name => "Unknown numeric type name: " ++ name.quoted
  | .unsupportedType request => "Unsupported numeric type: " ++ request.quoted
  | .emptyInterval least greatest =>
    "[Construction error] Invalid bound: " ++ least.display ++ " > " ++ greatest.display
  | .negativeGauge current ceiling =>
    "[Construction error] Invalid progress: " ++ current.display ++ " / " ++ ceiling.display ++
      ", values must not be negative"
  | .overfullGauge current ceiling =>
    "[Construction error] Invalid progress: " ++ current.display ++ " > " ++ ceiling.display
  | .negativeAmount amount => "Progress amounts must not be negative, got " ++ amount.display
  | .fractionalCeiling t => "Progress ceilings are integers, got " ++ t.name
  | .unsavable kind => "Cannot serialize evaluation of type " ++ kind
  | .notText kind => "'" ++ kind ++ "' object has no attribute 'startswith'"
  | .missing field => Text.quotedString field
  | .unwritable => digitLimitMessage ""

namespace Value

/-- The quoted form of a value that can be written. -/
def quote (value : Value) : Except Fault String :=
  if value.isWritable then .ok value.quoted else .error .unwritable

/-- The plain form of a value that can be written. -/
def write (value : Value) : Except Fault String :=
  if value.isWritable then .ok value.display else .error .unwritable

end Value
end Progression
