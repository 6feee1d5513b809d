/-! # Entries

Entries keep the order in which their keys first came. A key that comes again leaves the place and the
first form of the key, and changes the value. Keys may be the same without being equal, and a key need
not be the same as itself. Main statement: `find?_set`. -/

namespace Progression

structure Entries (κ : Type) (α : Type) where
  toList : List (κ × α)
  deriving DecidableEq

namespace Entries

variable {κ α : Type}

def empty : Entries κ α := ⟨[]⟩

def size (t : Entries κ α) : Nat := t.toList.length

variable [BEq κ]

/-- The entries with the value of a key set. -/
def setEntry (key : κ) (value : α) : List (κ × α) → List (κ × α)
  | [] => [(key, value)]
  | entry :: more =>
    if key == entry.1 then (entry.1, value) :: more else entry :: setEntry key value more

def set (t : Entries κ α) (key : κ) (value : α) : Entries κ α := ⟨setEntry key value t.toList⟩

/-- The entries of a list, taken in turn. -/
def ofList (entries : List (κ × α)) : Entries κ α :=
  entries.foldl (fun t entry => t.set entry.1 entry.2) empty

/-- The value of a key. -/
def find? (t : Entries κ α) (key : κ) : Option α := t.toList.lookup key

theorem lookup_setEntry [PartialEquivBEq κ] (key other : κ) (value : α) (entries : List (κ × α)) :
    (setEntry key value entries).lookup other =
      if other == key then some value else entries.lookup other := by
  induction entries with
  | nil => cases h : other == key <;> simp [setEntry, List.lookup_cons, h]
  | cons entry more ih =>
      obtain ⟨present, held⟩ := entry
      cases hpresent : key == present
      · cases hother : other == present
        · simp [setEntry, hpresent, List.lookup_cons, hother, ih]
        · have hkey : (other == key) = false := by
            cases h : other == key
            · rfl
            · rw [← BEq.congr_left h, hother] at hpresent
              exact hpresent
          simp [setEntry, hpresent, List.lookup_cons, hother, hkey]
      · rw [BEq.congr_right hpresent]
        cases hother : other == present <;>
          simp [setEntry, hpresent, List.lookup_cons, hother]

/-- The last value set is found, and keys that are not the same are not affected. -/
theorem find?_set [PartialEquivBEq κ] (t : Entries κ α) (key other : κ) (value : α) :
    (t.set key value).find? other = if other == key then some value else t.find? other :=
  lookup_setEntry key other value t.toList

end Entries
end Progression
