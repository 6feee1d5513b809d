import Progression.Formula.Parse
import Progression.Proofs.Gauge.Kinds
import Progression.Proofs.LevelTable.Loading
import Progression.Proofs.StorageType.Storing

/-! # Levels that are no real numbers

A formula refuses what is no real number. A table does so if a type is declared for its level. Without one it only looks
the level up, and then a truth value or a complex number that is the same as an integer of the table stands for it; any
other value that is no real number is refused as well. -/

namespace Progression

/-- The outcome does not say of any value that it is no real number. -/
def SparesReals {α : Type} (x : Except Fault α) : Prop := ∀ v, x ≠ .error (.refused .notReal v)

namespace SparesReals

variable {α β : Type}

theorem ok (a : α) : SparesReals (.ok a) := fun v h => by cases h

theorem refused {r : Refusal} (hr : r ≠ .notReal) (value : Value) :
    SparesReals (.error (.refused r value) : Except Fault α) := by
  intro v h
  cases h
  exact hr rfl

theorem worded {r : Refusal} (hr : r ≠ .notReal) (value : Value) :
    SparesReals (.error (Fault.refused r value).worded : Except Fault α) := by
  unfold Fault.worded
  split
  · exact .refused hr value
  · exact fun v h => by cases h

theorem mapError_number (x : Except Number.Fault α) : SparesReals (x.mapError .number) := by
  intro v h
  cases x <;> cases h

theorem bind {x : Except Fault α} {k : α → Except Fault β} (hx : SparesReals x) (hk : ∀ a, SparesReals (k a)) :
    SparesReals (x >>= k) := by
  intro v h
  cases x with
  | error f => exact hx v (congrArg Except.error (Except.error.inj h))
  | ok a => exact hk a v h

theorem map {x : Except Fault α} (hx : SparesReals x) (k : α → β) : SparesReals (x.map k) := by
  intro v h
  cases x with
  | error f => exact hx v (congrArg Except.error (Except.error.inj h))
  | ok a => cases h

end SparesReals

theorem Value.sparesReals_less (a b : Value) : SparesReals (a.less b) := by
  unfold less
  split
  · exact .ok _
  · split
    · exact .mapError_number _
    · exact fun v h => by cases h

theorem Value.sparesReals_greater (a b : Value) : SparesReals (a.greater b) := by
  unfold greater
  split
  · exact .ok _
  · split
    · exact .mapError_number _
    · exact fun v h => by cases h

namespace StorageType

variable (t : StorageType)

theorem sparesReals_breachOf {past : Value → Except Fault Bool} (hpast : ∀ limit, SparesReals (past limit))
    (limit : Option Value) (refusal : Value → Refusal) : SparesReals (breachOf limit past refusal) := by
  cases limit with
  | none => exact .ok none
  | some limit => exact (hpast limit).map _

theorem sparesReals_breach (n : Int) : SparesReals (t.breach n) := by
  refine .bind (sparesReals_breachOf (Value.sparesReals_less _) _ _) fun reason => ?_
  cases reason with
  | none => exact sparesReals_breachOf (Value.sparesReals_greater _) _ _
  | some r => exact .ok (some r)

theorem exists_limit_of_breachOf {limit : Option Value} {past : Value → Except Fault Bool} {refusal : Value → Refusal}
    {r : Refusal} (h : breachOf limit past refusal = .ok (some r)) : ∃ limit, r = refusal limit := by
  cases limit with
  | none => cases h
  | some limit =>
      obtain ⟨b, -, hb⟩ := exists_of_map_eq_ok h
      cases b with
      | false => cases hb
      | true => exact ⟨limit, (Option.some.inj hb).symm⟩

/-- A limit is passed below or above. -/
theorem breach_ne_notReal {n : Int} {r : Refusal} (h : t.breach n = .ok (some r)) : r ≠ .notReal := by
  rintro rfl
  obtain ⟨reason, hreason, hrest⟩ := exists_of_bind_eq_ok h
  cases reason with
  | none =>
      obtain ⟨limit, habove⟩ := exists_limit_of_breachOf hrest
      cases habove
  | some r =>
      obtain ⟨limit, rfl⟩ := exists_limit_of_breachOf hreason
      cases hrest

theorem sparesReals_checkLimits (n : Int) (value : Value) : SparesReals (t.checkLimits n value) := by
  rw [checkLimits_eq]
  cases hbreach : t.breach n with
  | error f =>
      intro v h
      exact t.sparesReals_breach n v (hbreach.trans (congrArg Except.error (Except.error.inj h)))
  | ok reason =>
      cases reason with
      | none => exact .ok ()
      | some r => exact .worded (t.breach_ne_notReal hbreach) value

theorem sparesReals_single (v : Double) : SparesReals (t.single v) := by
  unfold single
  split
  · exact .refused Refusal.noConfusion _
  · exact .ok _

theorem sparesReals_checkNumber (n : Number) : SparesReals (t.checkNumber n) := by
  unfold checkNumber
  split
  · dsimp only
    split
    · exact t.sparesReals_checkLimits _ _
    · exact .worded Refusal.noConfusion _
  · split
    · split
      · exact (t.sparesReals_single _).map _
      · exact fun v h => by cases h
    · exact .ok ()

theorem sparesReals_ofDouble (v : Double) : SparesReals (t.ofDouble v) := by
  have hinteger : SparesReals (t.integer v) := by
    cases hn : v.truncate? with
    | none =>
        rw [integer, hn]
        exact .refused Refusal.noConfusion _
    | some n =>
        rw [integer_of_truncate t hn]
        refine .bind (.mapError_number _) fun unsigned => ?_
        split
        · exact .refused Refusal.noConfusion _
        · exact .bind (t.sparesReals_checkLimits _ _) fun _ => .ok n
  unfold ofDouble
  split
  · exact hinteger.map _
  · split
    · exact (t.sparesReals_single v).map _
    · exact .ok _

end StorageType

theorem TypeRequest.sparesReals_resolve (request : TypeRequest) : SparesReals request.resolve := by
  unfold resolve
  split
  · exact .ok _
  · exact fun v h => by cases h

theorem Double.sparesReals_store (v : Double) (output : TypeRequest) : SparesReals (v.store output) :=
  .bind output.sparesReals_resolve fun t => t.sparesReals_ofDouble v

theorem Value.sparesReals_toDouble_number (n : Number) (input : Option TypeRequest) :
    SparesReals ((number n).toDouble input) := by
  have hnone : SparesReals ((number n).toDouble none) := by
    unfold toDouble
    dsimp only
    cases n.toDouble with
    | ok v => exact .ok v
    | error f => exact .worded Refusal.noConfusion _
  cases input with
  | none => exact hnone
  | some request =>
      have hdeclared : (number n).toDouble (some request) =
          request.resolve >>= fun t => t.checkNumber n >>= fun _ => (number n).toDouble none := by
        unfold toDouble TypeRequest.resolve
        dsimp only
      rw [hdeclared]
      exact .bind request.sparesReals_resolve fun t => .bind (t.sparesReals_checkNumber n) fun _ => hnone

/-- Every formula says of the same values that they are no real numbers, whatever types are asked for. -/
theorem Formula.evaluate_eq_notReal_iff {f : Formula} {value v : Value} {output : TypeRequest}
    {input : Option TypeRequest} :
    f.evaluate value output input = .error (.refused .notReal v) ↔ v = value ∧ ¬value.IsReal := by
  constructor
  · intro h
    have hunreal : ¬value.IsReal := by
      rintro ⟨n, rfl⟩
      exact (SparesReals.bind (Value.sparesReals_toDouble_number n input) fun x => (f.eval x).sparesReals_store output) v h
    rw [evaluate, Value.toDouble_of_not_isReal hunreal] at h
    cases h
    exact ⟨rfl, hunreal⟩
  · rintro ⟨rfl, hunreal⟩
    rw [evaluate, Value.toDouble_of_not_isReal hunreal]
    rfl

/-! ## What stands for a level -/

/-- The value is no real number but counts as an integer: a truth value as one or zero, and a complex number without an
imaginary part as its real part. -/
inductive Value.CountsAs : Value → Int → Prop
  | truth (b : Bool) : CountsAs (.truth b) (if b then 1 else 0)
  | complex {re im : Double} {n : Int} : re.toRat? = some (n : ℚ) → im.toRat? = some 0 → CountsAs (.complex re im) n

theorem Value.same_int_iff_countsAs {value : Value} (h : ¬value.IsReal) (n : Int) :
    value.same (.int n) = true ↔ value.CountsAs n := by
  cases value with
  | number m => exact absurd ⟨m, rfl⟩ h
  | truth b =>
      have hsame : (Value.truth b).same (.int n) = (Value.int (if b then 1 else 0)).same (.int n) := rfl
      rw [hsame, same_int, decide_eq_true_eq]
      constructor
      · rintro rfl
        exact .truth b
      · rintro ⟨⟩
        rfl
  | complex re im =>
      have hsame : (Value.complex re im).same (.int n) = ((Number.double re).same (.int n) && (Number.double im).same (.int 0)) :=
        rfl
      rw [hsame, Bool.and_eq_true, Number.same_iff_of_toRat (show (Number.int n).toRat? = some (n : ℚ) from rfl),
        Number.same_iff_of_toRat (show (Number.int 0).toRat? = some ((0 : Int) : ℚ) from rfl), Int.cast_zero]
      constructor
      · rintro ⟨hre, him⟩
        exact .complex hre him
      · rintro ⟨⟩
        exact ⟨‹_›, ‹_›⟩
  | text s =>
      constructor
      · intro hsame
        cases hsame
      · rintro ⟨⟩
  | null =>
      constructor
      · intro hsame
        cases hsame
      · rintro ⟨⟩

theorem Entries.lookup_congr {κ α : Type} [BEq κ] [PartialEquivBEq κ] {key other : κ} (h : key == other)
    (entries : List (κ × α)) : entries.lookup key = entries.lookup other := by
  induction entries with
  | nil => rfl
  | cons entry more ih => rw [List.lookup_cons, List.lookup_cons, BEq.congr_left h, ih]

namespace LevelTable

variable (levels : Entries Int Value) {value : Value}

theorem evaluate_declared_of_not_isReal (t : LevelTable) (h : ¬value.IsReal) (output request : TypeRequest) :
    t.evaluate value output (some request) = .error (.refused .notReal value) := by
  unfold evaluate
  rw [Option.isSome_some, if_pos rfl, Value.toDouble_of_not_isReal h]
  rfl

theorem isSignaling_of_not_isReal (h : ¬value.IsReal) : value.isSignaling = false := by
  cases value with
  | number n => exact absurd ⟨n, rfl⟩ h
  | truth | complex | text | null => rfl

/-- A value is found as the integer that it counts as. -/
theorem find?_of_countsAs (h : ¬value.IsReal) (hquiet : value.isSignaling = false) {n : Int} (hn : value.CountsAs n) :
    (ofInts levels).entries.find? ⟨value, hquiet⟩ = (ofInts levels).entries.find? (.int n) := by
  have hsame : ((⟨value, hquiet⟩ : Level) == .int n) = true := (Value.same_int_iff_countsAs h n).mpr hn
  exact Entries.lookup_congr hsame _

theorem find?_ofInts_eq_none_iff {level : Level} :
    (ofInts levels).entries.find? level = none ↔ ∀ e ∈ levels.toList, (level == .int e.1) = false := by
  rw [Entries.find?, List.lookup_eq_none_iff]
  simp only [ofInts, Entries.mapKeys, List.forall_mem_map, bne, Bool.not_eq_true']

theorem evaluate_of_find? {t : LevelTable} {level held : Value} {hquiet : level.isSignaling = false}
    (h : t.entries.find? ⟨level, hquiet⟩ = some held) (output : TypeRequest) :
    t.evaluate level output none = held.toDouble none >>= (·.store output) := by
  rw [evaluate_eq _ hquiet, h]

theorem evaluate_of_countsAs (h : ¬value.IsReal) {n : Int} (hn : value.CountsAs n)
    (hlevel : n ∈ levels.toList.map Prod.fst) (output : TypeRequest) :
    (ofInts levels).evaluate value output none = (ofInts levels).evaluate (.int n) output none := by
  have hquiet := isSignaling_of_not_isReal h
  cases hheld : (ofInts levels).entries.find? (.int n) with
  | some held =>
      have hfind := (find?_of_countsAs levels h hquiet hn).trans hheld
      exact (evaluate_of_find? hfind output).trans (evaluate_of_find? hheld output).symm
  | none =>
      obtain ⟨e, he, rfl⟩ := List.mem_map.mp hlevel
      have hne := (find?_ofInts_eq_none_iff levels).mp hheld e he
      rw [beq_int, BEq.rfl] at hne
      cases hne

theorem evaluate_of_not_countsAs (h : ¬value.IsReal) (hn : ∀ n ∈ levels.toList.map Prod.fst, ¬value.CountsAs n)
    (output : TypeRequest) : (ofInts levels).evaluate value output none = .error (.refused .notInTable value) := by
  have hquiet := isSignaling_of_not_isReal h
  have hwritable : value.isWritable := Value.isWritable_of_not_isReal h
  have hnone : (ofInts levels).entries.find? ⟨value, hquiet⟩ = none := by
    refine (find?_ofInts_eq_none_iff levels).mpr fun e he => ?_
    have hnot := hn e.1 (List.mem_map_of_mem he)
    rw [← Value.same_int_iff_countsAs h] at hnot
    exact Bool.eq_false_iff.mpr hnot
  rw [evaluate_eq _ hquiet, hnone]
  exact congrArg Except.error (Fault.worded_refused rfl hwritable)

/-- What one formula refuses as no real number every formula refuses, and so does every table of integer levels if a type
is declared for the level. Without one the table refuses it as well, as a level that it does not have, unless the value
counts as an integer of the table: then it stands for that integer. -/
theorem refused_unless_counted (levels : Entries Int Value) {f : Formula} {value v : Value} {output : TypeRequest}
    {input : Option TypeRequest} (h : f.evaluate value output input = .error (.refused .notReal v)) :
    v = value ∧
      (∀ (g : Formula) output input, g.evaluate value output input = .error (.refused .notReal value)) ∧
      (∀ output request, (ofInts levels).evaluate value output (some request) = .error (.refused .notReal value)) ∧
      (∀ output, (∀ n ∈ levels.toList.map Prod.fst, ¬value.CountsAs n) →
        (ofInts levels).evaluate value output none = .error (.refused .notInTable value)) ∧
      ∀ output, ∀ n ∈ levels.toList.map Prod.fst, value.CountsAs n →
        (ofInts levels).evaluate value output none = (ofInts levels).evaluate (.int n) output none := by
  obtain ⟨rfl, hunreal⟩ := Formula.evaluate_eq_notReal_iff.mp h
  refine ⟨rfl, fun g output input => Formula.evaluate_eq_notReal_iff.mpr ⟨rfl, hunreal⟩,
    fun output request => evaluate_declared_of_not_isReal _ hunreal output request, fun output hn => ?_,
    fun output n hlevel hn => ?_⟩
  · exact evaluate_of_not_countsAs levels hunreal hn output
  · exact evaluate_of_countsAs levels hunreal hn hlevel output

/-- The values of two levels. -/
def twoLevels : Entries Int Value := ⟨[(1, .int 100), (2, .double 5)]⟩

/-- Where no type is declared, the true value is the level 1. -/
theorem truth_found_as_level :
    ¬∀ (levels : Entries Int Value) (f : Formula) (value : Value) (output : TypeRequest) (input : Option TypeRequest),
      (∃ v, f.evaluate value output input = .error (.refused .notReal v)) →
        ∃ r v, (ofInts levels).evaluate value output input = .error (.refused r v) := by
  intro hall
  obtain ⟨r, v, hrefused⟩ := hall twoLevels .unknown (.truth true) (.builtin .double) none ⟨_, rfl⟩
  have hfound : (ofInts twoLevels).evaluate (.truth true) (.builtin .double) none = .ok (.double 100) := by
    decide +kernel
  rw [hfound] at hrefused
  cases hrefused

/-- The complex number 2 is the level 2 without a declared type and none with one, and the text of a level is none. -/
theorem refused_unless_counted_complex :
    Formula.unknown.evaluate (.complex 2 0) (.builtin .double) none = .error (.refused .notReal (.complex 2 0)) ∧
      (Value.complex 2 0).CountsAs 2 ∧
      (ofInts twoLevels).evaluate (.complex 2 0) (.exactly .u8) none = .ok (.int 5) ∧
      (ofInts twoLevels).evaluate (.complex 2 0) (.exactly .u8) (some (.builtin .integer)) =
        .error (.refused .notReal (.complex 2 0)) ∧
      (∀ n ∈ twoLevels.toList.map Prod.fst, ¬(Value.text "2").CountsAs n) ∧
      (ofInts twoLevels).evaluate (.text "2") (.exactly .u8) none = .error (.refused .notInTable (.text "2")) := by
  have hcomplex : Formula.unknown.evaluate (.complex 2 0) (.builtin .double) none =
      .error (.refused .notReal (.complex 2 0)) := rfl
  have htext : Formula.unknown.evaluate (.text "2") (.builtin .double) none =
      .error (.refused .notReal (.text "2")) := rfl
  have hcounts : (Value.complex 2 0).CountsAs 2 := .complex (by decide +kernel) (by decide +kernel)
  have hnone : ∀ n ∈ twoLevels.toList.map Prod.fst, ¬(Value.text "2").CountsAs n := by
    rintro n - ⟨⟩
  have hfive : (ofInts twoLevels).evaluate (.int 2) (.exactly .u8) none = .ok (.int 5) := by decide +kernel
  obtain ⟨-, -, hdeclared, -, hfound⟩ := refused_unless_counted twoLevels hcomplex
  obtain ⟨-, -, -, hrefused, -⟩ := refused_unless_counted twoLevels htext
  exact ⟨hcomplex, hcounts, (hfound _ 2 (by decide) hcounts).trans hfive, hdeclared _ _, hnone, hrefused _ hnone⟩

end LevelTable

end Progression
