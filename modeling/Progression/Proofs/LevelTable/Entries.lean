import Mathlib.Data.List.Induction
import Progression.Entries

/-! # Entries with distinct keys

Entries that were set one after the other have distinct keys, and entries with distinct keys are what setting them
one after the other gives. Writing the keys in another form changes neither, if the form tells the keys apart. Of the
entries set the last one with a key is found, and the keys stand in the order in which they first came. -/

namespace Progression.Entries

variable {κ κ' α : Type}

/-- The entries with another form of their keys. -/
def mapKeys (f : κ → κ') (t : Entries κ α) : Entries κ' α := ⟨t.toList.map fun e => (f e.1, e.2)⟩

theorem keys_mapKeys (f : κ → κ') (t : Entries κ α) :
    (t.mapKeys f).toList.map Prod.fst = (t.toList.map Prod.fst).map f := by
  rw [mapKeys, List.map_map, List.map_map]
  rfl

/-- The value is that of the last entry whose key satisfies `p`. -/
def IsLast (p : κ → Prop) (entries : List (κ × α)) (value : α) : Prop :=
  ∃ before key after, entries = before ++ (key, value) :: after ∧ p key ∧ ∀ e ∈ after, ¬p e.1

/-- The last entries are the same if the keys are written in another form. -/
theorem isLast_map {p : κ' → Prop} (f : κ → κ') {entries : List (κ × α)} {value : α} :
    IsLast p (entries.map fun e => (f e.1, e.2)) value ↔ IsLast (fun k => p (f k)) entries value := by
  constructor
  · rintro ⟨before, key, after, hentries, hkey, hafter⟩
    obtain ⟨before, rest, rfl, rfl, hrest⟩ := List.map_eq_append_iff.mp hentries
    obtain ⟨⟨k, held⟩, after, rfl, heq, rfl⟩ := List.map_eq_cons_iff.mp hrest
    obtain ⟨rfl, rfl⟩ := Prod.mk.inj heq
    exact ⟨before, k, after, rfl, hkey, fun e he => hafter _ (List.mem_map_of_mem he)⟩
  · rintro ⟨before, key, after, rfl, hkey, hafter⟩
    refine ⟨_, f key, _, by rw [List.map_append, List.map_cons], hkey, fun e he => ?_⟩
    obtain ⟨e', he', rfl⟩ := List.mem_map.mp he
    exact hafter e' he'

variable [BEq κ] [BEq κ']

/-- No key is the same as an earlier one. -/
def Distinct (t : Entries κ α) : Prop := t.toList.Pairwise fun e later => (later.1 == e.1) = false

theorem mem_setEntry {key : κ} {value : α} {entries : List (κ × α)} {e : κ × α}
    (h : e ∈ setEntry key value entries) : e.1 = key ∨ ∃ e' ∈ entries, e.1 = e'.1 := by
  induction entries with
  | nil => exact .inl (congrArg Prod.fst (List.mem_singleton.mp h))
  | cons entry more ih =>
      rw [setEntry] at h
      split at h
      · rcases List.mem_cons.mp h with rfl | hmore
        · exact .inr ⟨entry, List.mem_cons_self, rfl⟩
        · exact .inr ⟨e, List.mem_cons_of_mem entry hmore, rfl⟩
      · rcases List.mem_cons.mp h with rfl | hmore
        · exact .inr ⟨e, List.mem_cons_self, rfl⟩
        · refine (ih hmore).imp_right ?_
          rintro ⟨e', he', heq⟩
          exact ⟨e', List.mem_cons_of_mem entry he', heq⟩

theorem pairwise_setEntry (key : κ) (value : α) {entries : List (κ × α)}
    (h : entries.Pairwise fun e later => (later.1 == e.1) = false) :
    (setEntry key value entries).Pairwise fun e later => (later.1 == e.1) = false := by
  induction h with
  | nil => exact List.pairwise_singleton _ _
  | @cons entry more hentry hmore ih =>
      rw [setEntry]
      split
      · exact .cons hentry hmore
      · rename_i hkey
        refine .cons (fun e he => ?_) ih
        rcases mem_setEntry he with heq | ⟨e', he', heq⟩
        · rw [heq]
          exact Bool.eq_false_iff.mpr hkey
        · rw [heq]
          exact hentry e' he'

theorem distinct_ofList (entries : List (κ × α)) : (ofList entries).Distinct := by
  have hfold : ∀ t : Entries κ α, t.Distinct →
      (entries.foldl (fun t entry => t.set entry.1 entry.2) t).Distinct := by
    induction entries with
    | nil => exact fun t ht => ht
    | cons entry more ih => exact fun t ht => ih _ (pairwise_setEntry entry.1 entry.2 ht)
  exact hfold empty .nil

theorem setEntry_of_forall_not {key : κ} (value : α) {entries : List (κ × α)}
    (h : ∀ e ∈ entries, (key == e.1) = false) : setEntry key value entries = entries ++ [(key, value)] := by
  induction entries with
  | nil => rfl
  | cons entry more ih =>
      obtain ⟨hentry, hmore⟩ := List.forall_mem_cons.mp h
      rw [setEntry, if_neg (Bool.eq_false_iff.mp hentry), ih hmore, List.cons_append]

/-- Distinct entries are those of their list. -/
theorem Distinct.ofList_toList {t : Entries κ α} (ht : t.Distinct) : ofList t.toList = t := by
  have hfold : ∀ more done : List (κ × α),
      (done ++ more).Pairwise (fun e later => (later.1 == e.1) = false) →
        more.foldl (fun t entry => t.set entry.1 entry.2) (⟨done⟩ : Entries κ α) = ⟨done ++ more⟩ := by
    intro more
    induction more with
    | nil => exact fun done _ => by rw [List.foldl_nil, List.append_nil]
    | cons entry more ih =>
        intro done hdone
        have hentry : ∀ e ∈ done, (entry.1 == e.1) = false :=
          fun e he => (List.pairwise_append.mp hdone).2.2 e he entry List.mem_cons_self
        rw [List.append_cons] at hdone ⊢
        rw [List.foldl_cons, set, setEntry_of_forall_not entry.2 hentry, ih _ hdone]
  exact hfold t.toList [] ht

theorem ofList_concat (entries : List (κ × α)) (entry : κ × α) :
    ofList (entries ++ [entry]) = (ofList entries).set entry.1 entry.2 := by
  rw [ofList, ofList, List.foldl_append]
  rfl

theorem find?_ofList [PartialEquivBEq κ] (entries : List (κ × α)) (key : κ) :
    (ofList entries).find? key = entries.reverse.lookup key := by
  induction entries using List.reverseRecOn with
  | nil => rfl
  | append_singleton entries entry ih =>
      rw [ofList_concat, find?_set, ih, List.reverse_append, List.reverse_singleton, List.singleton_append,
        List.lookup_cons]
      cases key == entry.1 <;> rfl

/-- Of the entries of a list the last one with a key is found. -/
theorem find?_ofList_eq_some_iff [PartialEquivBEq κ] {entries : List (κ × α)} {key : κ} {value : α} :
    (ofList entries).find? key = some value ↔ IsLast (fun k => key == k) entries value := by
  rw [find?_ofList, List.lookup_eq_findSome?, List.findSome?_eq_some_iff]
  constructor
  · rintro ⟨after, ⟨k, held⟩, before, hentries, hvalue, hafter⟩
    obtain ⟨hkey, rfl⟩ : (key == k) = true ∧ held = value := by
      rw [Option.ite_none_right_eq_some] at hvalue
      exact ⟨hvalue.1, Option.some.inj hvalue.2⟩
    refine ⟨before.reverse, k, after.reverse, ?_, hkey, fun e he hsame => ?_⟩
    · rw [List.reverse_eq_append_iff.mp hentries, List.reverse_cons, List.append_assoc, List.singleton_append]
    · have hnone := hafter e (List.mem_reverse.mp he)
      rw [if_pos hsame] at hnone
      cases hnone
  · rintro ⟨before, k, after, rfl, hkey, hafter⟩
    refine ⟨after.reverse, (k, value), before.reverse, ?_, if_pos hkey, fun e he => ?_⟩
    · rw [List.reverse_append, List.reverse_cons, List.append_assoc, List.singleton_append]
    · exact if_neg (hafter e (List.mem_reverse.mp he))

theorem find?_ofList_eq_none_iff [PartialEquivBEq κ] {entries : List (κ × α)} {key : κ} :
    (ofList entries).find? key = none ↔ ∀ e ∈ entries, (key == e.1) = false := by
  rw [find?_ofList, List.lookup_eq_none_iff]
  simp only [List.mem_reverse, bne, Bool.not_eq_true']

theorem keys_setEntry (key : κ) (value : α) (entries : List (κ × α)) :
    (setEntry key value entries).map Prod.fst =
      if (entries.map Prod.fst).elem key then entries.map Prod.fst else entries.map Prod.fst ++ [key] := by
  induction entries with
  | nil => rfl
  | cons entry more ih =>
      rw [setEntry, List.map_cons, List.elem_cons]
      cases hkey : key == entry.1
      · rw [if_neg Bool.false_ne_true, List.map_cons, ih]
        dsimp only
        split <;> rfl
      · rfl

/-- The keys stand once each, in the order in which they first come. -/
theorem keys_ofList [LawfulBEq κ] (entries : List (κ × α)) :
    (ofList entries).toList.map Prod.fst = (entries.map Prod.fst).eraseDups := by
  induction entries using List.reverseRecOn with
  | nil => rfl
  | append_singleton entries entry ih =>
      rw [ofList_concat, set, keys_setEntry, ih, List.map_append, List.eraseDups_append, List.map_singleton,
        List.removeAll, List.filter_cons]
      by_cases hmem : entry.1 ∈ entries.map Prod.fst
      · simp [hmem]
      · simp [hmem, List.eraseDups_cons]

/-- An entry is found by its key. -/
theorem Distinct.find?_of_mem [ReflBEq κ] [PartialEquivBEq κ] {t : Entries κ α} (ht : t.Distinct) {e : κ × α}
    (he : e ∈ t.toList) : t.find? e.1 = some e.2 := by
  obtain ⟨before, after, hentries⟩ := List.append_of_mem he
  have hafter : ∀ later ∈ after, (later.1 == e.1) = false := by
    rw [Distinct, hentries] at ht
    exact (List.pairwise_cons.mp (List.pairwise_append.mp ht).2.1).1
  rw [← ht.ofList_toList, find?_ofList_eq_some_iff]
  refine ⟨before, e.1, after, hentries, BEq.rfl, fun later hlater hsame => ?_⟩
  exact Bool.false_ne_true ((hafter later hlater).symm.trans (BEq.symm hsame))

section MapKeys

variable {f : κ → κ'} (hf : ∀ k l, (f k == f l) = (k == l))
include hf

theorem setEntry_map (key : κ) (value : α) (entries : List (κ × α)) :
    setEntry (f key) value (entries.map fun e => (f e.1, e.2)) =
      (setEntry key value entries).map fun e => (f e.1, e.2) := by
  induction entries with
  | nil => rfl
  | cons entry more ih =>
      rw [List.map_cons, setEntry, setEntry, hf, ih]
      split <;> rfl

theorem ofList_map (entries : List (κ × α)) :
    ofList (entries.map fun e => (f e.1, e.2)) = (ofList entries).mapKeys f := by
  have hfold : ∀ t : Entries κ α,
      (entries.map fun e => (f e.1, e.2)).foldl (fun t entry => t.set entry.1 entry.2) (t.mapKeys f) =
        (entries.foldl (fun t entry => t.set entry.1 entry.2) t).mapKeys f := by
    induction entries with
    | nil => exact fun t => rfl
    | cons entry more ih =>
        intro t
        have hset : (t.mapKeys f).set (f entry.1) entry.2 = (t.set entry.1 entry.2).mapKeys f :=
          congrArg Entries.mk (setEntry_map hf entry.1 entry.2 t.toList)
        rw [List.map_cons, List.foldl_cons, List.foldl_cons, hset, ih]
  exact hfold empty

end MapKeys

end Progression.Entries
