import Progression.Value.Basic

/-! # Storage types

The computed doubles are stored by callers in numeric types of their own. A storage type says whether
it holds integers, between which limits, and whether its fractions have single precision. A limit may be
any value that an integer can be compared with. A caller may also ask for one of the two types that the
language of the caller has built in. -/

namespace Progression

structure StorageType where
  name : String
  isInteger : Bool
  least : Option Value
  greatest : Option Value
  singlePrecision : Bool
  deriving DecidableEq

namespace StorageType

/-- Whether the type's own minimum is zero; such a type refuses every negative number. -/
def isUnsigned (t : StorageType) : Except Number.Fault Bool :=
  match t.least with
  | none => .ok false
  | some least =>
    if least.isSignaling then .error (.decimal .undefined) else .ok (least.same (.int 0))

/-- The integers of `bits` bits from zero on. -/
def unsigned (bits : Nat) : StorageType :=
  ⟨"u" ++ Nat.repr bits, true, some (.int 0), some (.int ((Nat.pow 2 bits : Nat) - 1)), false⟩

/-- The integers of `bits` bits in two's complement. -/
def signed (bits : Nat) : StorageType :=
  let half := Nat.pow 2 (bits - 1)
  ⟨"i" ++ Nat.repr bits, true, some (.int (-half)), some (.int (half - 1)), false⟩

def f32 : StorageType := ⟨"f32", false, none, none, true⟩
def f64 : StorageType := ⟨"f64", false, none, none, false⟩
def int : StorageType := ⟨"int", true, none, none, false⟩
def u8 : StorageType := unsigned 8
def u64 : StorageType := unsigned 64

/-- The types that have a name of their own. -/
def named : List StorageType :=
  [u8, unsigned 16, unsigned 32, u64, signed 8, signed 16, signed 32, signed 64, f32, f64, int]

/-- The type of a name. -/
def find? (name : String) : Option StorageType := named.find? (·.name == name)

end StorageType

/-- The types that are built into the caller's language. -/
inductive NativeType where
  | integer
  | double
  | text
  | truth
  | complex
  deriving DecidableEq

def NativeType.name : NativeType → String
  | integer => "int"
  | double => "float"
  | text => "str"
  | truth => "bool"
  | complex => "complex"

/-- What a caller passes as a storage type. -/
inductive TypeRequest where
  | exactly (t : StorageType)
  | builtin (b : NativeType)
  | null
  deriving DecidableEq

namespace TypeRequest

/-- A request as messages quote it. -/
def quoted : TypeRequest → String
  | exactly t => t.name
  | builtin b => "<class '" ++ b.name ++ "'>"
  | null => "None"

/-- The storage type that a request stands for. -/
def resolve? : TypeRequest → Option StorageType
  | exactly t => some t
  | builtin .integer => some .int
  | builtin .double => some .f64
  | _ => none

end TypeRequest
end Progression
