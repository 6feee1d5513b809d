import Progression.Proofs.LevelTable.Saving
import Progression.Proofs.Text.IntegerText
import Progression.Proofs.Value.Places

/-! # Loading level tables

A saved table has texts for its levels, and several texts can write one integer. A table is loaded exactly if each of
its texts writes an integer without too many digits. A level is then looked up by its exact value, and the last text that writes it counts. When
the table is saved again, each integer is written once and in one way, and from there on nothing changes any more. -/

namespace Progression

namespace LevelTable

open Text (WritesInt WritesShort)

theorem readLevel_of_writes {text : String} {n : Int} (h : WritesShort text n) : readLevel text = .ok (.int n) := by
  rw [readLevel, Value.integerPart, Text.readInt?_eq_some_iff.mpr h]
  rfl

theorem readLevel_of_not_writes {text : String} (h : ∀ n, ¬WritesShort text n) :
    readLevel text = .error (.noInteger (.ofText text)) := by
  have hnone : Text.readInt? text.toList = none :=
    Option.eq_none_iff_forall_ne_some.mpr fun n hn => h n (Text.readInt?_eq_some_iff.mp hn)
  rw [readLevel, Value.integerPart, hnone]
  rfl

/-- An entry with the level that its text writes. -/
def readEntry (e : String × Value) : Except Fault (Level × Value) := do return (← readLevel e.1, e.2)

theorem restore_eq (values : Entries String Value) :
    restore ⟨some values⟩ = (values.toList.mapM readEntry).map fun entries => ⟨.ofList entries⟩ := by
  show (values.toList.mapM readEntry >>= fun entries => return (⟨.ofList entries⟩ : LevelTable)) = _
  cases values.toList.mapM readEntry <;> rfl

variable {values : Entries String Value}

/-- The first text that writes no integer, or one with too many digits, is reported. -/
theorem restore_of_not_writes {before after : List (String × Value)} {text : String} {value : Value}
    (hvalues : values.toList = before ++ (text, value) :: after) (hbefore : ∀ e ∈ before, ∃ n, WritesShort e.1 n)
    (htext : ∀ n, ¬WritesShort text n) : restore ⟨some values⟩ = .error (.noInteger (.ofText text)) := by
  have hread : ∀ e ∈ before, ∃ entry, readEntry e = .ok entry := by
    intro e he
    obtain ⟨n, hn⟩ := hbefore e he
    exact ⟨(.int n, e.2), by rw [readEntry, readLevel_of_writes hn]; rfl⟩
  have hreport : readEntry (text, value) = .error (.noInteger (.ofText text)) := by
    rw [readEntry, readLevel_of_not_writes htext]
    rfl
  rw [restore_eq, hvalues, mapM_eq_error hread hreport]
  rfl

/-- The table of the integers that texts write. -/
def ofTexts (n : String → Int) (values : Entries String Value) : LevelTable :=
  ofInts (.ofList (values.toList.map fun e => (n e.1, e.2)))

variable {n : String → Int}

theorem entries_ofTexts :
    (ofTexts n values).entries = .ofList (values.toList.map fun e => (Level.int (n e.1), e.2)) := by
  rw [ofTexts, ofInts, ← Entries.ofList_map beq_int, List.map_map]
  rfl

theorem restore_of_writes (h : ∀ e ∈ values.toList, WritesShort e.1 (n e.1)) :
    restore ⟨some values⟩ = .ok (ofTexts n values) := by
  have hread : ∀ e ∈ values.toList, readEntry (id e) = .ok (.int (n e.1), e.2) := by
    intro e he
    rw [readEntry, id, readLevel_of_writes (h e he)]
    rfl
  have hlevels := mapM_map_eq_ok hread
  rw [List.map_id] at hlevels
  rw [restore_eq, hlevels, Except.map, ← entries_ofTexts]

theorem exists_integers (h : ∀ e ∈ values.toList, ∃ n, WritesShort e.1 n) :
    ∃ n : String → Int, ∀ e ∈ values.toList, WritesShort e.1 (n e.1) := by
  refine ⟨fun text => (Text.readInt? text.toList).getD 0, fun e he => ?_⟩
  obtain ⟨m, hm⟩ := h e he
  dsimp only
  rw [Text.readInt?_eq_some_iff.mpr hm]
  exact hm

/-- A table is not restored exactly if some text writes no integer or one with too many digits, and then the first such
text is reported. -/
theorem restore_eq_error_iff (f : Fault) :
    restore ⟨some values⟩ = .error f ↔ ∃ before text value after, values.toList = before ++ (text, value) :: after ∧
      (∀ e ∈ before, ∃ n, WritesShort e.1 n) ∧ (∀ n, ¬WritesShort text n) ∧ f = .noInteger (.ofText text) := by
  constructor
  · intro h
    cases hfind : values.toList.find? fun e => !(Text.readInt? e.1.toList).isSome with
    | none =>
        have hwrites : ∀ e ∈ values.toList, ∃ n, WritesShort e.1 n := by
          intro e he
          have hsome := List.find?_eq_none.mp hfind e he
          rw [Bool.not_eq_true', Bool.not_eq_false] at hsome
          exact Text.isSome_readInt?_iff.mp hsome
        obtain ⟨n, hn⟩ := exists_integers hwrites
        rw [restore_of_writes hn] at h
        cases h
    | some e =>
        obtain ⟨htext, before, after, hvalues, hbefore⟩ := List.find?_eq_some_iff_append.mp hfind
        have hwrites : ∀ e ∈ before, ∃ n, WritesShort e.1 n :=
          fun e he => Text.isSome_readInt?_iff.mp (by simpa using hbefore e he)
        have hnot : ∀ n, ¬WritesShort e.1 n := by
          intro n hn
          rw [Text.isSome_readInt?_iff.mpr ⟨n, hn⟩] at htext
          cases htext
        rw [restore_of_not_writes hvalues hwrites hnot] at h
        exact ⟨before, e.1, e.2, after, hvalues, hwrites, hnot, (Except.error.inj h).symm⟩
  · rintro ⟨before, text, value, after, hvalues, hbefore, htext, rfl⟩
    exact restore_of_not_writes hvalues hbefore htext

theorem find?_ofTexts_eq_some_iff {level : Level} {value : Value} :
    (ofTexts n values).entries.find? level = some value ↔
      Entries.IsLast (fun text => level == .int (n text)) values.toList value := by
  rw [entries_ofTexts, Entries.find?_ofList_eq_some_iff]
  exact Entries.isLast_map fun text => Level.int (n text)

theorem find?_ofTexts_eq_none_iff {level : Level} :
    (ofTexts n values).entries.find? level = none ↔ ∀ e ∈ values.toList, (level == .int (n e.1)) = false := by
  rw [entries_ofTexts, Entries.find?_ofList_eq_none_iff, List.forall_mem_map]

theorem evaluate_eq (t : LevelTable) {level : Value} (hquiet : level.isSignaling = false) (output : TypeRequest) :
    t.evaluate level output none =
      match t.entries.find? ⟨level, hquiet⟩ with
      | some value => value.toDouble none >>= (·.store output)
      | none => .error (Fault.refused .notInTable level).worded := by
  have hlevel : Level.ofValue level = .ok ⟨level, hquiet⟩ := dif_pos hquiet
  have hlookup : t.lookup level = match t.entries.find? ⟨level, hquiet⟩ with
      | some value => .ok value
      | none => .error (Fault.refused .notInTable level).worded := by
    rw [lookup, hlevel]
    rfl
  show (t.lookup level >>= fun value => value.toDouble none >>= (·.store output)) = _
  rw [hlookup]
  cases t.entries.find? ⟨level, hquiet⟩ <;> rfl

section Lookup

variable {level : Value} {number : Number} (hnumber : level.asNumber? = some number)
  (hquiet : level.isSignaling = false)
include hnumber hquiet

/-- The last text that writes the level counts. -/
theorem evaluate_of_isLast {value : Value} (output : TypeRequest)
    (h : Entries.IsLast (fun text => number.toRat? = some (n text : ℚ)) values.toList value) :
    (ofTexts n values).evaluate level output none = value.toDouble none >>= (·.store output) := by
  have hlevel : (fun text => ((⟨level, hquiet⟩ : Level) == .int (n text)) = true) =
      fun text => number.toRat? = some (n text : ℚ) :=
    funext fun text => propext (Value.same_int_iff hnumber (n text))
  rw [evaluate_eq _ hquiet, find?_ofTexts_eq_some_iff.mpr (hlevel ▸ h)]

theorem evaluate_of_forall_ne (output : TypeRequest) (h : ∀ e ∈ values.toList, number.toRat? ≠ some (n e.1 : ℚ)) :
    (ofTexts n values).evaluate level output none = .error (Fault.refused .notInTable level).worded := by
  have hlevel : ∀ e ∈ values.toList, ((⟨level, hquiet⟩ : Level) == .int (n e.1)) = false :=
    fun e he => Bool.eq_false_iff.mpr fun hsame => h e he ((Value.same_int_iff hnumber (n e.1)).mp hsame)
  rw [evaluate_eq _ hquiet, find?_ofTexts_eq_none_iff.mpr hlevel]

end Lookup

/-- The saved entries of the table of the integers that texts write. -/
def savedTexts (n : String → Int) (values : Entries String Value) : Entries String Value :=
  (Entries.ofList (values.toList.map fun e => (n e.1, e.2))).mapKeys Value.intText

section Short

variable (hn : ∀ e ∈ values.toList, WritesShort e.1 (n e.1))
include hn

theorem short_ofTexts : Short (.ofList (values.toList.map fun e => (n e.1, e.2))) := by
  refine short_ofList (List.forall_mem_map.mpr fun e he => ?_)
  exact (hn e he).hasFewDigits

theorem save_ofTexts : (ofTexts n values).save = .ok ⟨some (savedTexts n values)⟩ :=
  save_ofInts (Entries.distinct_ofList _) (short_ofTexts hn)

/-- What was saved of the table is loaded as it again. -/
theorem restore_savedTexts : restore ⟨some (savedTexts n values)⟩ = .ok (ofTexts n values) :=
  restore_texts (Entries.distinct_ofList _) (short_ofTexts hn)

end Short

/-- Each integer is written once, in the order in which the integers first come. -/
theorem keys_savedTexts :
    (savedTexts n values).toList.map Prod.fst =
      (values.toList.map fun e => n e.1).eraseDups.map Value.intText := by
  rw [savedTexts, Entries.keys_mapKeys, Entries.keys_ofList, List.map_map]
  rfl

/-- Each integer has the value of the last text that writes it. -/
theorem isLast_of_mem_savedTexts {e : String × Value} (he : e ∈ (savedTexts n values).toList) :
    ∃ m, e.1 = Value.intText m ∧ Entries.IsLast (fun text => n text = m) values.toList e.2 := by
  obtain ⟨⟨m, value⟩, hentry, rfl⟩ := List.mem_map.mp he
  have hfind := (Entries.distinct_ofList _).find?_of_mem hentry
  have hlast := (Entries.isLast_map n).mp (Entries.find?_ofList_eq_some_iff.mp hfind)
  have hkey : (fun text => (m == n text) = true) = fun text => n text = m :=
    funext fun text => propext (by rw [beq_iff_eq]; exact eq_comm)
  exact ⟨m, rfl, hkey ▸ hlast⟩

/-- A table is loaded from texts exactly if each of them writes an integer without too many digits; else the first text
that does not is reported. A level then has the value of the last text that writes its exact value, and if no text does,
the level is refused, provided that it can be written. When the table is saved each integer is written once, in the
order in which the integers first come, with the value of the last text that writes it. What was saved is loaded as the
same table, and that is saved in the same way. -/
theorem loaded_by_integers (values : Entries String Value) :
    (∀ f, restore ⟨some values⟩ = .error f ↔
      ∃ before text value after, values.toList = before ++ (text, value) :: after ∧
        (∀ e ∈ before, ∃ m, WritesShort e.1 m) ∧ (∀ m, ¬WritesShort text m) ∧ f = .noInteger (.ofText text)) ∧
      ∀ n : String → Int, (∀ e ∈ values.toList, WritesShort e.1 (n e.1)) →
        ∃ t saved, restore ⟨some values⟩ = .ok t ∧
          (∀ level number output, level.asNumber? = some number → level.isSignaling = false →
            (∀ value, Entries.IsLast (fun text => number.toRat? = some (n text : ℚ)) values.toList value →
              t.evaluate level output none = value.toDouble none >>= (·.store output)) ∧
            ((∀ e ∈ values.toList, number.toRat? ≠ some (n e.1 : ℚ)) → level.isWritable →
              t.evaluate level output none = .error (.refused .notInTable level))) ∧
          t.save = .ok ⟨some saved⟩ ∧
          saved.toList.map Prod.fst = (values.toList.map fun e => n e.1).eraseDups.map Value.intText ∧
          (∀ e ∈ saved.toList, ∃ m, e.1 = Value.intText m ∧ Entries.IsLast (fun text => n text = m) values.toList e.2) ∧
          restore ⟨some saved⟩ = .ok t ∧ (restore ⟨some saved⟩ >>= save) = .ok ⟨some saved⟩ := by
  refine ⟨restore_eq_error_iff, fun n hn => ⟨ofTexts n values, savedTexts n values, restore_of_writes hn, ?_,
    save_ofTexts hn, keys_savedTexts, fun e => isLast_of_mem_savedTexts, restore_savedTexts hn, ?_⟩⟩
  · intro level number output hnumber hquiet
    refine ⟨fun value => evaluate_of_isLast hnumber hquiet output, fun hmissing hwritable => ?_⟩
    rw [evaluate_of_forall_ne hnumber hquiet output hmissing, Fault.worded_refused rfl hwritable]
  · rw [restore_savedTexts hn]
    exact save_ofTexts hn

/-- A run of ones. -/
def ones (k : Nat) : Text.IntegerText where
  before := []
  sign := .absent
  lead := List.replicate (k + 1) '1'
  groups := []
  after := []
  blank_before _ h := absurd h List.not_mem_nil
  blank_after _ h := absurd h List.not_mem_nil
  lead_ne_nil := List.replicate_succ_ne_nil
  digit_lead c h := by
    rw [List.eq_of_mem_replicate h]
    decide
  digit_groups _ h := absurd h List.not_mem_nil

/-- A table can fail to load although all its texts write integers: one of them may be too long. -/
theorem ones_not_loaded :
    ¬∀ values : Entries String Value,
      (∃ f, restore ⟨some values⟩ = .error f) → ∃ e ∈ values.toList, ∀ n, ¬WritesInt e.1 n := by
  intro h
  let text := String.ofList (ones Text.digitLimit).chars
  have hwrites : WritesInt text (ones Text.digitLimit).value := ⟨_, (String.toList_ofList).symm, rfl⟩
  have hlong : Text.digitLimit < (ones Text.digitLimit).digits.length := by
    show _ < (List.replicate (Text.digitLimit + 1) '1' ++ []).length
    rw [List.append_nil, List.length_replicate]
    exact Nat.lt_succ_self _
  have hnot : ∀ n, ¬WritesShort text n := by
    intro n hn
    have hread : Text.readInt? text.toList = some n := Text.readInt?_eq_some_iff.mpr hn
    rw [String.toList_ofList, (ones Text.digitLimit).readInt?_chars, if_pos hlong] at hread
    cases hread
  have hfails := @restore_of_not_writes ⟨[(text, .int 5)]⟩ [] [] text (.int 5) rfl
    (fun _ he => absurd he List.not_mem_nil) hnot
  obtain ⟨e, he, hnone⟩ := h ⟨[(text, .int 5)]⟩ ⟨_, hfails⟩
  obtain rfl := List.mem_singleton.mp he
  exact hnone _ hwrites

/-- Three spellings of one level, and two other levels. -/
def spellings : Entries String Value :=
  ⟨[("1", .int 5), ("1_0", .int 3), ("01", .double 2), ("-2", .int 300), (" +1\n", .int 7)]⟩

/-- The integer that a spelling is. -/
def spelled (text : String) : Int := (Text.readInt? text.toList).getD 0

/-- Level 1 has its first place and its last value. -/
theorem loaded_by_integers_spellings :
    (∀ e ∈ spellings.toList, WritesShort e.1 (spelled e.1)) ∧
      restore ⟨some ⟨spellings.toList ++ [("1__0", .null), ("x", .null)]⟩⟩ = .error (.noInteger (.notDigits "1__0")) ∧
      ∃ t saved, restore ⟨some spellings⟩ = .ok t ∧ t.save = .ok ⟨some saved⟩ ∧
        saved.toList.map Prod.fst = ["1", "10", "-2"] ∧
        t.evaluate (.double 1) (.exactly .u8) none = .ok (.int 7) ∧
        t.evaluate (.decimal (.finite false 100 (-1))) (.exactly .u8) none = .ok (.int 3) ∧
        (Value.fraction (19 / 2)).isWritable ∧
        t.evaluate (.fraction (19 / 2)) (.exactly .u8) none = .error (.refused .notInTable (.fraction (19 / 2))) ∧
        restore ⟨some saved⟩ = .ok t := by
  have hread : ∀ e ∈ spellings.toList, Text.readInt? e.1.toList = some (spelled e.1) := by decide +kernel
  have hwrites : ∀ e ∈ spellings.toList, WritesShort e.1 (spelled e.1) :=
    fun e he => Text.readInt?_eq_some_iff.mp (hread e he)
  have hcause : NoInteger.ofText "1__0" = .notDigits "1__0" := by decide +kernel
  have hwritable : (Value.fraction (19 / 2)).isWritable := by decide +kernel
  have hnot : ∀ m, ¬WritesShort "1__0" m := by
    intro m hm
    have hnone : Text.readInt? "1__0".toList = none := by decide +kernel
    cases hnone.symm.trans (Text.readInt?_eq_some_iff.mpr hm)
  refine ⟨hwrites, ?_, ?_⟩
  · rw [← hcause]
    exact ((loaded_by_integers _).1 _).mpr
      ⟨spellings.toList, "1__0", .null, [("x", .null)], rfl, fun e he => ⟨_, hwrites e he⟩, hnot, rfl⟩
  · obtain ⟨t, saved, hrestore, hevaluate, hsave, hkeys, -, hagain, -⟩ :=
      (loaded_by_integers spellings).2 spelled hwrites
    have hseven : (Value.int 7).toDouble none >>= (·.store (.exactly .u8)) = .ok (.int 7) := by decide +kernel
    have hthree : (Value.int 3).toDouble none >>= (·.store (.exactly .u8)) = .ok (.int 3) := by decide +kernel
    refine ⟨t, saved, hrestore, hsave, hkeys.trans (by decide +kernel), ?_, ?_, hwritable, ?_, hagain⟩
    · refine ((hevaluate (.double 1) _ _ rfl rfl).1 (.int 7) ?_).trans hseven
      exact ⟨spellings.toList.take 4, " +1\n", [], rfl, by decide +kernel, by decide⟩
    · refine ((hevaluate (.decimal (.finite false 100 (-1))) _ _ rfl rfl).1 (.int 3) ?_).trans hthree
      exact ⟨spellings.toList.take 1, "1_0", spellings.toList.drop 2, rfl, by decide +kernel, by decide +kernel⟩
    · exact (hevaluate (.fraction (19 / 2)) _ _ rfl rfl).2 (by decide +kernel) hwritable

end LevelTable
end Progression
