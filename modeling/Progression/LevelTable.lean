import Progression.Conversion
import Progression.Entries

/-! # Level tables

A level table lists the value of every supported level. Levels are mostly integers, but any value can be
one that is the same as itself wherever it is looked up, whatever its kind: 2 and 2.0 are one level. -/

namespace Progression

/-- A level of a table. A signaling not-a-number cannot be one. -/
structure Level where
  value : Value
  quiet : value.isSignaling = false
  deriving DecidableEq

namespace Level

/-- The level that an integer is. -/
def int (n : Int) : Level := ⟨.int n, rfl⟩

def ofValue (value : Value) : Except Fault Level :=
  if h : value.isSignaling = false then .ok ⟨value, h⟩ else .error .unhashable

instance : BEq Level := ⟨fun a b => a.value.same b.value⟩

instance : PartialEquivBEq Level := ⟨Value.same_symm, Value.same_trans⟩

end Level

structure LevelTable where
  entries : Entries Level Value
  deriving DecidableEq

namespace LevelTable

def empty : LevelTable := ⟨.empty⟩

/-- The table of a list of entries, taken in turn. -/
def ofList (entries : List (Value × Value)) : Except Fault LevelTable := do
  let entries ← entries.mapM fun entry => do return (← Level.ofValue entry.1, entry.2)
  return ⟨.ofList entries⟩

/-- The value of a level. -/
def lookup (t : LevelTable) (level : Value) : Except Fault Value := do
  match t.entries.find? (← Level.ofValue level) with
  | some value => return value
  | none => throw (Fault.refused .notInTable level).worded

/-- The value of a level as the storage type asked for. -/
def evaluate (t : LevelTable) (level : Value) (output : TypeRequest) (input : Option TypeRequest) :
    Except Fault Number := do
  if input.isSome then discard (level.toDouble input)
  let value ← t.lookup level
  let v ← value.toDouble none
  v.store output

/-- The form in which messages quote a table. -/
def quoted (t : LevelTable) : Except Fault String := do
  let entries ← t.entries.toList.mapM fun e => do return (← e.1.value.quote) ++ ": " ++ (← e.2.quote)
  return "ValueMap(values=\x7b" ++ ", ".intercalate entries ++ "\x7d)"

/-- Whether two tables have the same levels with the same values, in any order. -/
def same (t u : LevelTable) : Bool :=
  t.entries.size == u.entries.size &&
    t.entries.toList.all fun entry => u.entries.find? entry.1 == some entry.2

/-- A saved table has its levels as texts. Levels of one text become one entry. -/
structure Saved where
  values : Option (Entries String Value)
  deriving DecidableEq

def save (t : LevelTable) : Except Fault Saved := do
  let entries ← t.entries.toList.mapM fun entry => do return (← entry.1.value.write, entry.2)
  return ⟨some (.ofList entries)⟩

/-- The level that a text writes. -/
def readLevel (text : String) : Except Fault Level := do return .int (← (Value.text text).integerPart)

def restore (saved : Saved) : Except Fault LevelTable :=
  match saved.values with
  | none => .error (.missing "values")
  | some values => do
    let entries ← values.toList.mapM fun entry => do return (← readLevel entry.1, entry.2)
    return ⟨.ofList entries⟩

end LevelTable
end Progression
