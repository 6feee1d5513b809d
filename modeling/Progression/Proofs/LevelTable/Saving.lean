import Progression.LevelTable
import Progression.Proofs.LevelTable.Entries
import Progression.Proofs.Text.IntegerNumeral

/-! # Saving tables of integer levels

A table whose levels are integers is restored from what was saved of it, entry by entry and in the same order: the
levels are told apart by their texts, which read back as them. For that the levels must have few enough digits. -/

namespace Progression

theorem mapM_map_eq_ok {α β γ ε : Type} {f : β → Except ε γ} {a : α → β} {b : α → γ} {xs : List α}
    (h : ∀ x ∈ xs, f (a x) = .ok (b x)) : (xs.map a).mapM f = .ok (xs.map b) := by
  induction xs with
  | nil => rfl
  | cons x xs ih =>
      obtain ⟨hx, hxs⟩ := List.forall_mem_cons.mp h
      rw [List.map_cons, List.mapM_cons, hx, ih hxs]
      rfl

theorem mapM_eq_error {α β ε : Type} {f : α → Except ε β} {before after : List α} {x : α} {e : ε}
    (hbefore : ∀ y ∈ before, ∃ z, f y = .ok z) (hx : f x = .error e) : (before ++ x :: after).mapM f = .error e := by
  induction before with
  | nil =>
      rw [List.nil_append, List.mapM_cons, hx]
      rfl
  | cons y before ih =>
      obtain ⟨⟨z, hz⟩, hbefore⟩ := List.forall_mem_cons.mp hbefore
      rw [List.cons_append, List.mapM_cons, hz, ih hbefore]
      rfl

/-- An integer is read back from its text exactly if it can be written. -/
theorem Value.integerPart_intText_iff {n : Int} :
    (Value.text (Value.intText n)).integerPart = .ok n ↔ (Value.int n).isWritable := by
  rw [integerPart, intText, String.toList_ofList, Text.readInt?_intDigits, isWritable]
  cases Text.hasFewDigits n with
  | true => exact iff_of_true rfl rfl
  | false => exact iff_of_false (fun h => by cases h) Bool.false_ne_true

theorem Value.intText_injective {m n : Int} (h : intText m = intText n) : m = n :=
  Text.intDigits_injective (String.ofList_injective h)

theorem Value.write_of_isWritable {value : Value} (h : value.isWritable) : value.write = .ok value.display := if_pos h

namespace LevelTable

/-- The table of integer levels. -/
def ofInts (entries : Entries Int Value) : LevelTable := ⟨entries.mapKeys .int⟩

theorem beq_int (m n : Int) : (Level.int m == Level.int n) = (m == n) := by
  show (Value.int m).same (.int n) = _
  rw [Value.same_int]
  rfl

theorem beq_intText (m n : Int) : (Value.intText m == Value.intText n) = (m == n) := by
  rw [Bool.eq_iff_iff, beq_iff_eq, beq_iff_eq]
  exact ⟨Value.intText_injective, congrArg Value.intText⟩

theorem ofList_int (entries : List (Int × Value)) :
    ofList (entries.map fun e => (.int e.1, e.2)) = .ok (ofInts (.ofList entries)) := by
  have hlevel (e : Int × Value) : Level.ofValue (.int e.1) = .ok (.int e.1) := rfl
  rw [ofList, mapM_map_eq_ok fun e _ => by rw [hlevel]; rfl, ofInts, ← Entries.ofList_map beq_int]
  rfl

/-- The levels that are integers can be written. -/
def Short (entries : Entries Int Value) : Prop := ∀ e ∈ entries.toList, (Value.int e.1).isWritable

theorem short_ofList {entries : List (Int × Value)} (h : ∀ e ∈ entries, (Value.int e.1).isWritable) :
    Short (.ofList entries) := by
  intro e he
  have hkey := List.mem_map_of_mem (f := Prod.fst) he
  rw [Entries.keys_ofList, List.mem_eraseDups] at hkey
  obtain ⟨e', he', heq⟩ := List.mem_map.mp hkey
  rw [← heq]
  exact h e' he'

section Short

variable {entries : Entries Int Value} (h : entries.Distinct) (hshort : Short entries)
include h hshort

theorem save_ofInts : (ofInts entries).save = .ok ⟨some (entries.mapKeys Value.intText)⟩ := by
  have htexts : ((ofInts entries).entries.toList.mapM fun entry => do return (← entry.1.value.write, entry.2)) =
      (.ok (entries.toList.map fun e => (Value.intText e.1, e.2)) : Except Fault (List (String × Value))) := by
    rw [ofInts, Entries.mapKeys]
    refine mapM_map_eq_ok fun e he => ?_
    show ((Value.int e.1).write >>= fun text => return (text, e.2)) = _
    rw [Value.write_of_isWritable (hshort e he)]
    rfl
  rw [save, htexts]
  show Except.ok (⟨some (.ofList (entries.toList.map fun e => (Value.intText e.1, e.2)))⟩ : Saved) = _
  rw [Entries.ofList_map beq_intText, h.ofList_toList]

theorem restore_texts : restore ⟨some (entries.mapKeys Value.intText)⟩ = .ok (ofInts entries) := by
  rw [restore, Entries.mapKeys]
  dsimp only
  rw [mapM_map_eq_ok fun e he => by
    rw [readLevel, Value.integerPart_intText_iff.mpr (hshort e he)]
    rfl]
  show Except.ok (⟨.ofList (entries.toList.map fun e => (Level.int e.1, e.2))⟩ : LevelTable) = _
  rw [Entries.ofList_map beq_int, h.ofList_toList, ofInts]

end Short

end LevelTable
end Progression
