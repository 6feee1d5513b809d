import Progression.Proofs.Value.Exact

/-! # Values of a declared type

A value that is said to have a type is checked before it is converted. The check refuses what does not belong to the
type, and what it lets pass is converted as if nothing had been said. The check against single precision converts the
number by itself, so the fault of a number without a double comes out of it as it is, where the conversion proper would
have refused the value. Like every refusal, that of the check must be put into words. -/

namespace Progression

/-- The integer that an integer or a decimal is. -/
def Number.toInt? : Number → Option Int
  | .int m => some m
  | .decimal d => d.toInt?
  | _ => none

namespace StorageType

/-- The check against the type converts the number. -/
def ChecksByDouble (t : StorageType) : Prop := t.isInteger = false ∧ t.singlePrecision = true

/-- The check against an integer type looks at the integer that the number is, if it is one. -/
theorem checkNumber_of_isInteger {t : StorageType} (hinteger : t.isInteger) (n : Number) :
    t.checkNumber n = match n.toInt? with
      | some m => t.checkLimits m (.number n)
      | none => .error (Fault.refused (.notOfType t) (.number n)).worded := by
  unfold checkNumber
  rw [if_pos hinteger]
  cases n <;> rfl

theorem checkNumber_of_toDouble_error {t : StorageType} (ht : t.ChecksByDouble) {n : Number} {f : Number.Fault}
    (hn : n.toDouble = .error f) : t.checkNumber n = .error (.number f) := by
  unfold checkNumber
  rw [ht.1, ht.2, hn]
  rfl

theorem checkNumber_of_double {t : StorageType} (hinteger : t.isInteger = false) (hsingle : t.singlePrecision = false)
    (n : Number) : t.checkNumber n = .ok () := by
  unfold checkNumber
  rw [hinteger, hsingle]
  rfl

/-- A number that the check converts to a double stays finite in single precision, or is refused. -/
theorem checkNumber_of_toDouble_ok {t : StorageType} (ht : t.ChecksByDouble) {n : Number} {v : Double}
    (hn : n.toDouble = .ok v) :
    t.checkNumber n = .ok () ∨ ∃ r value, t.checkNumber n = .error (.refused r value) := by
  unfold checkNumber
  rw [ht.1, ht.2, hn, if_neg Bool.false_ne_true, if_pos rfl]
  dsimp only
  unfold single
  cases v.toSingle.isInfinite && v.isFinite with
  | false => exact .inl rfl
  | true => exact .inr ⟨_, _, rfl⟩

end StorageType

namespace Value

/-- The refusal that the value comes to under the type quotes an integer with too many digits: in the value itself or,
if the value is an integer, in the limit that it is past. -/
inductive UnwritableUnder (t : StorageType) : Value → Prop
  | value {value : Value} (hinteger : t.isInteger) (hlong : value.isWritable = false) : UnwritableUnder t value
  | limit {n : Number} {m : Int} (hinteger : t.isInteger) (hn : n.toInt? = some m) (hpast : t.PastUnwritable m) :
    UnwritableUnder t (.number n)
  | noDouble {value : Value} (hinteger : t.isInteger = false) (hsingle : t.singlePrecision = false)
    (hlacks : value.LacksDouble) (hlong : value.isWritable = false) : UnwritableUnder t value

/-- What the check against a type comes to for a number: the number passes, it is refused, its refusal cannot be put into
words, or the conversion of the check fails by itself. -/
inductive Checked (t : StorageType) (n : Number) : Except Fault Unit → Prop
  | passed (hconverted : ¬(t.ChecksByDouble ∧ n.LacksDouble))
    (hunwritable : UnwritableUnder t (number n) ↔ n.LacksDouble ∧ (number n).isWritable = false) : Checked t n (.ok ())
  | refused (r : Refusal) (value : Value) (hconverted : ¬(t.ChecksByDouble ∧ n.LacksDouble))
    (hwritable : ¬UnwritableUnder t (number n)) : Checked t n (.error (.refused r value))
  | unwritable (hunwritable : UnwritableUnder t (number n)) : Checked t n (.error .unwritable)
  | escaped (f : Number.Fault) (hchecks : t.ChecksByDouble) (hlacks : n.LacksDouble) : Checked t n (.error (.number f))

namespace UnwritableUnder

variable {t : StorageType} {value : Value}

/-- Under an integer type it is the value that is quoted, or the limit that it is past. -/
theorem iff_of_isInteger (hinteger : t.isInteger) {n : Number} :
    UnwritableUnder t (number n) ↔
      (number n).isWritable = false ∨ ∃ m, n.toInt? = some m ∧ t.PastUnwritable m := by
  constructor
  · rintro (⟨-, hlong⟩ | ⟨-, hn, hpast⟩ | ⟨hnot, -, -, hlong⟩)
    · exact .inl hlong
    · exact .inr ⟨_, hn, hpast⟩
    · exact .inl hlong
  · rintro (hlong | ⟨m, hn, hpast⟩)
    · exact .value hinteger hlong
    · exact .limit hinteger hn hpast

theorem not_of_checksByDouble (ht : t.ChecksByDouble) : ¬UnwritableUnder t value := by
  rintro (⟨hinteger, -⟩ | ⟨hinteger, -, -⟩ | ⟨-, hsingle, -, -⟩)
  · exact Bool.false_ne_true (ht.1.symm.trans hinteger)
  · exact Bool.false_ne_true (ht.1.symm.trans hinteger)
  · exact Bool.false_ne_true (hsingle.symm.trans ht.2)

theorem iff_of_double (hinteger : t.isInteger = false) (hsingle : t.singlePrecision = false) :
    UnwritableUnder t value ↔ value.LacksDouble ∧ value.isWritable = false := by
  constructor
  · rintro (⟨hnot, -⟩ | ⟨hnot, -, -⟩ | ⟨-, -, hlacks, hlong⟩)
    · exact absurd (hinteger.symm.trans hnot) Bool.false_ne_true
    · exact absurd (hinteger.symm.trans hnot) Bool.false_ne_true
    · exact ⟨hlacks, hlong⟩
  · rintro ⟨hlacks, hlong⟩
    exact .noDouble hinteger hsingle hlacks hlong

end UnwritableUnder

/-- A number that is an integer and cannot be written is no decimal, and has no double. -/
theorem lacksDouble_of_toInt {n : Number} {m : Int} (hn : n.toInt? = some m) (hlong : (number n).isWritable = false) :
    n.LacksDouble := by
  cases n with
  | int m => exact lacksDouble_of_not_writable hlong
  | double v => cases hn
  | decimal d => cases hlong
  | fraction r => cases hn

theorem checked_of_isInteger {t : StorageType} (hinteger : t.isInteger) (ht : t.HasIntegerLimits) (n : Number) :
    Checked t n (t.checkNumber n) := by
  have hconverted : ¬(t.ChecksByDouble ∧ n.LacksDouble) := fun h => Bool.false_ne_true (h.1.1.symm.trans hinteger)
  rw [StorageType.checkNumber_of_isInteger hinteger]
  cases hn : n.toInt? with
  | none =>
      cases hwritable : (number n).isWritable with
      | false =>
          dsimp only
          rw [Fault.worded_refused_of_not_writable _ hwritable]
          exact .unwritable (.value hinteger hwritable)
      | true =>
          dsimp only
          rw [Fault.worded_refused rfl hwritable]
          refine .refused _ _ hconverted fun h => ?_
          rcases (UnwritableUnder.iff_of_isInteger hinteger).mp h with hlong | ⟨m, hm, -⟩
          · exact Bool.false_ne_true (hlong.symm.trans hwritable)
          · cases hn.symm.trans hm
  | some m =>
      have hunder : UnwritableUnder t (number n) ↔ (number n).isWritable = false ∨ t.PastUnwritable m := by
        rw [UnwritableUnder.iff_of_isInteger hinteger, hn]
        simp only [Option.some.injEq, exists_eq_left']
      dsimp only
      rcases StorageType.checkLimits_cases ht m (.number n) with
        ⟨hcheck, hholds⟩ | ⟨-, ⟨⟨r, hcheck⟩, hwritable, hlimit⟩ | ⟨hcheck, hquoted⟩⟩
      · -- A number that passes can still be too long for the refusal that it comes to in the conversion.
        rw [hcheck]
        refine .passed hconverted (hunder.trans ⟨fun h => ?_, fun h => .inl h.2⟩)
        have hlong := h.resolve_right fun hpast => hpast.not_holds hholds
        exact ⟨lacksDouble_of_toInt hn hlong, hlong⟩
      · rw [hcheck]
        refine .refused r _ hconverted fun h => ?_
        rcases hunder.mp h with hlong | hpast
        · exact Bool.false_ne_true (hlong.symm.trans hwritable)
        · exact hlimit hpast
      · rw [hcheck]
        refine .unwritable (hunder.mpr ?_)
        cases hwritable : (number n).isWritable with
        | false => exact .inl rfl
        | true => exact .inr (hquoted hwritable)

theorem checked_of_checksByDouble {t : StorageType} (ht : t.ChecksByDouble) (n : Number) :
    Checked t n (t.checkNumber n) := by
  cases hn : n.toDouble with
  | error f =>
      rw [StorageType.checkNumber_of_toDouble_error ht hn]
      exact .escaped f ht ((Number.toDouble_error_iff n).mp ⟨f, hn⟩)
  | ok v =>
      have hlacks : ¬n.LacksDouble := by
        rw [← Number.toDouble_error_iff, hn]
        rintro ⟨f, hf⟩
        cases hf
      have hwritable : ¬UnwritableUnder t (number n) := UnwritableUnder.not_of_checksByDouble ht
      rcases StorageType.checkNumber_of_toDouble_ok ht hn with hok | ⟨r, value, hrefused⟩
      · rw [hok]
        exact .passed (fun h => hlacks h.2) (iff_of_false hwritable fun h => hlacks h.1)
      · rw [hrefused]
        exact .refused r value (fun h => hlacks h.2) hwritable

theorem checked {t : StorageType} (ht : t.HasIntegerLimits) (n : Number) : Checked t n (t.checkNumber n) := by
  cases hinteger : t.isInteger with
  | true => exact checked_of_isInteger hinteger ht n
  | false =>
      cases hsingle : t.singlePrecision with
      | true => exact checked_of_checksByDouble ⟨hinteger, hsingle⟩ n
      | false =>
          rw [StorageType.checkNumber_of_double hinteger hsingle]
          exact .passed (fun h => Bool.false_ne_true (hsingle.symm.trans h.1.2))
            (UnwritableUnder.iff_of_double hinteger hsingle)

/-- Without a declared type no fault of a number comes out. -/
theorem toDouble_ne_number_fault (value : Value) (f : Number.Fault) : value.toDouble none ≠ .error (.number f) := by
  intro hf
  rcases value.toDouble_cases with ⟨x, hx⟩ | ⟨r, hr⟩ | ⟨-, hunwritable⟩
  · cases hx.symm.trans hf
  · cases hr.symm.trans hf
  · cases hunwritable.symm.trans hf

/-- What a check lets pass is converted, or it is refused, if it can be. -/
theorem toDouble_of_passed {t : StorageType} {n : Number}
    (hunwritable : UnwritableUnder t (number n) ↔ n.LacksDouble ∧ (number n).isWritable = false)
    (hwritable : ¬UnwritableUnder t (number n)) :
    (∃ x, (number n).toDouble none = .ok x) ∨ ∃ r quoted, (number n).toDouble none = .error (.refused r quoted) := by
  rcases (number n).toDouble_cases with hok | ⟨r, hr⟩ | ⟨-, hlong⟩
  · exact .inl hok
  · exact .inr ⟨r, _, hr⟩
  · exact absurd (hunwritable.mpr ((toDouble_eq_unwritable_iff _).mp hlong)) hwritable

theorem not_unwritableUnder_of_not_isReal {t : StorageType} {value : Value} (h : ¬value.IsReal) :
    ¬UnwritableUnder t value := by
  rintro (⟨-, hlong⟩ | ⟨-, -, -⟩ | ⟨-, -, hlacks, -⟩)
  · exact Bool.false_ne_true (hlong.symm.trans (isWritable_of_not_isReal h))
  · exact h ⟨_, rfl⟩
  · exact h (isReal_of_lacksDouble hlacks)

section Declared

variable {t : StorageType} {input : TypeRequest} (hinput : input.resolve? = some t)
include hinput

theorem toDouble_declared_number (n : Number) :
    (number n).toDouble (some input) = t.checkNumber n >>= fun _ => (number n).toDouble none := by
  unfold toDouble TypeRequest.resolve
  dsimp only
  rw [hinput]
  rfl

/-- What is converted under a declared type is converted to the same double without one. Every other value is refused,
except for the numbers without a double under a type whose check converts: those come to a fault of their own. And a
refusal that quotes an integer with too many digits cannot be put into words. -/
theorem toDouble_declared (ht : t.HasIntegerLimits) (value : Value) :
    (∀ x, value.toDouble (some input) = .ok x → value.toDouble none = .ok x) ∧
      ((∃ f, value.toDouble (some input) = .error (.number f)) ↔ t.ChecksByDouble ∧ value.LacksDouble) ∧
      (value.toDouble (some input) = .error .unwritable ↔ UnwritableUnder t value) ∧
      (¬(t.ChecksByDouble ∧ value.LacksDouble) → ¬UnwritableUnder t value →
        (∃ x, value.toDouble (some input) = .ok x) ∨
          ∃ r quoted, value.toDouble (some input) = .error (.refused r quoted)) := by
  by_cases hreal : value.IsReal
  · obtain ⟨n, rfl⟩ := hreal
    rw [toDouble_declared_number hinput]
    have hchecked := checked ht n
    generalize t.checkNumber n = outcome at hchecked ⊢
    cases hchecked with
    | passed hconverted hunwritable =>
        -- What has passed is converted as it is without a declared type.
        change (∀ x, (number n).toDouble none = .ok x → _) ∧ ((∃ f, (number n).toDouble none = _) ↔ _) ∧
          ((number n).toDouble none = _ ↔ _) ∧ (_ → _ → (∃ x, (number n).toDouble none = _) ∨ _)
        refine ⟨fun x hx => hx, iff_of_false (fun ⟨f, hf⟩ => ?_) hconverted,
          (toDouble_eq_unwritable_iff _).trans hunwritable.symm, fun _ hwritable => ?_⟩
        · exact toDouble_ne_number_fault _ f hf
        · exact toDouble_of_passed hunwritable hwritable
    | refused r quoted hconverted hwritable =>
        refine ⟨fun x hx => (by cases hx), iff_of_false (fun ⟨f, hf⟩ => (by cases hf)) hconverted,
          iff_of_false (fun h => (by cases h)) hwritable, fun _ _ => .inr ⟨r, quoted, rfl⟩⟩
    | unwritable hunwritable =>
        refine ⟨fun x hx => (by cases hx), iff_of_false (fun ⟨f, hf⟩ => (by cases hf)) fun h => ?_,
          iff_of_true rfl hunwritable, fun _ h => absurd hunwritable h⟩
        exact UnwritableUnder.not_of_checksByDouble h.1 hunwritable
    | escaped f hchecks hlacks =>
        refine ⟨fun x hx => (by cases hx), iff_of_true ⟨f, rfl⟩ ⟨hchecks, hlacks⟩,
          iff_of_false (fun h => (by cases h)) (UnwritableUnder.not_of_checksByDouble hchecks), fun h _ => ?_⟩
        exact absurd ⟨hchecks, hlacks⟩ h
  · rw [toDouble_of_not_isReal hreal (some input)]
    exact ⟨fun x hx => (by cases hx),
      iff_of_false (fun ⟨f, hf⟩ => by cases hf) fun hescapes => hreal (isReal_of_lacksDouble hescapes.2),
      iff_of_false (fun hlong => by cases hlong) (not_unwritableUnder_of_not_isReal hreal),
      fun _ _ => .inr ⟨_, _, rfl⟩⟩

end Declared

/-- A number out of range is refused as a byte, but comes to a fault of its own as a number of single precision. -/
theorem toDouble_declared_power :
    (TypeRequest.exactly .f32).resolve? = some .f32 ∧ StorageType.f32.HasIntegerLimits ∧
      (TypeRequest.exactly .u8).resolve? = some .u8 ∧ StorageType.u8.HasIntegerLimits ∧
      (∃ f, (number (powerInteger 400)).toDouble (some (.exactly .f32)) = .error (.number f)) ∧
      ¬∃ f, (number (powerInteger 400)).toDouble (some (.exactly .u8)) = .error (.number f) := by
  have hf32 := StorageType.hasIntegerLimits_named (t := .f32) (by decide)
  have hu8 := StorageType.hasIntegerLimits_named (t := .u8) (by decide)
  have hlacks : (number (powerInteger 400)).LacksDouble :=
    (Number.lacksDouble_of_exact (exactValue_power 400).2).mpr ⟨overflowBound_le_power, rfl⟩
  refine ⟨rfl, hf32, rfl, hu8, (toDouble_declared rfl hf32 _).2.1.mpr ⟨⟨rfl, rfl⟩, hlacks⟩, fun h => ?_⟩
  cases ((toDouble_declared rfl hu8 _).2.1.mp h).1.1

/-- Declaring a type for a value can change the kind of a failure. -/
theorem power_escapes :
    ¬∀ t ∈ StorageType.named, ∀ value : Value,
      (∃ x, value.toDouble (some (.exactly t)) = .ok x) ∨
        ∃ r quoted, value.toDouble (some (.exactly t)) = .error (.refused r quoted) := by
  intro h
  have hescapes : (number (powerInteger 400)).toDouble (some (.exactly .f32)) = .error (.number .integerTooLarge) := by
    decide +kernel
  rcases h .f32 (by decide) (number (powerInteger 400)) with ⟨x, hx⟩ | ⟨r, quoted, hr⟩
  · cases hescapes.symm.trans hx
  · cases hescapes.symm.trans hr

end Value

end Progression
