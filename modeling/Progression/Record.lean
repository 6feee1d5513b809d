import Progression.Fault

/-! # Log records

The library records each formula that it reads and each new ceiling of a gauge. -/

namespace Progression

inductive Record where
  | parsed (text : String) (f : Formula)
  | ceiling (level old new : Value)
  deriving DecidableEq

namespace Record

/-- A record in words, if the values in it can be written. -/
def message : Record → Except Fault String
  | parsed text f => .ok ("parsed formula " ++ Text.quotedString text ++ " into " ++ f.quoted)
  | ceiling level old new => do
    return "level " ++ (← level.write) ++ ": progress ceiling " ++ (← old.write) ++ " -> " ++ (← new.write)

/-- The records of reading a text: one if it is a formula. -/
def ofReading (text : String) (result : Except ε Formula) : List Record :=
  match result with
  | .ok f => [parsed text f]
  | .error _ => []

end Record
end Progression
