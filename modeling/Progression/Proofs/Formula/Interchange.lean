import Progression.Proofs.Double.Zeros
import Progression.Proofs.Formula.RoundTrip
import Progression.Proofs.StorageType.Storing

/-! # Formulas that are the same

Formulas that are the same have the same shape and the same numbers, but a zero in one may have the other sign in the
other. They compute like numbers, unless two zeros of opposite sign meet as divisors, or as bases of powers. -/

namespace Progression

namespace Operator

/-- Two applications to like operands have unlike results: the divisors, or the bases, are zeros of opposite sign,
and that sign becomes the sign of an infinity. -/
def Parts (op : Operator) (a b a' b' : Double) : Prop :=
  match op with
  | .div => b.isZero ∧ b' = -b ∧ (a.isNaN || a.isZero) = false
  | .pow => a.isZero ∧ a' = -a ∧ b.negative ∧ b.isOdd
  | _ => False

instance (op : Operator) (a b a' b' : Double) : Decidable (op.Parts a b a' b') := by
  cases op <;> unfold Parts <;> infer_instance

section Operands

open Double

variable {a b a' b' : Double} (ha : a.Alike a') (hb : b.Alike b')
include ha hb

theorem alike_div_iff : (a / b).Alike (a' / b') ↔ ¬Parts .div a b a' b' := by
  rcases hb.eq_or_zeros with rfl | ⟨s, t, rfl, rfl⟩
  · refine iff_of_true (ha.congr (f := (· / b)) (zero_div_alike b _ _)) fun h => ?_
    exact ne_neg_of_isZero h.1 h.2.1
  · rw [div_zero, div_zero]
    rcases ha.eq_or_zeros with rfl | ⟨u, u', rfl, rfl⟩
    · cases hnothing : a.isNaN || a.isZero with
      | true => exact iff_of_true (Alike.refl _) fun h => by cases hnothing.symm.trans h.2.2
      | false =>
          rw [if_neg Bool.false_ne_true, if_neg Bool.false_ne_true, alike_infinities, Bool.xor_right_inj,
            ← zero_ne_neg_zero]
          exact not_congr ⟨fun h => ⟨rfl, h, hnothing⟩, fun h => h.2.1⟩
    · exact iff_of_true (Alike.refl _) fun h => by cases h.2.2

theorem alike_pow_iff : (a.pow b).Alike (a'.pow b') ↔ ¬Parts .pow a b a' b' := by
  have hright (a : Double) : (a.pow b).Alike (a.pow b') := hb.congr (f := a.pow) (Alike.refl _)
  rcases ha.eq_or_zeros with rfl | ⟨s, t, rfl, rfl⟩
  · exact iff_of_true (hright a) fun h => ne_neg_of_isZero h.1 h.2.1
  · by_cases hodd : b.negative ∧ b.isOdd
    · have hpow (s : Bool) : (zero s).pow b = .infinite s := zero_pow_of_odd b s hodd.1 hodd.2
      have hiff : ((zero s).pow b).Alike ((zero t).pow b') ↔ zero t ≠ -zero s := by
        rw [zero_ne_neg_zero, ← alike_infinities, ← hpow, ← hpow]
        exact ⟨fun h => h.trans (hright _).symm, fun h => h.trans (hright _)⟩
      rw [hiff]
      exact not_congr ⟨fun h => ⟨rfl, h, hodd⟩, fun h => h.2.1⟩
    · exact iff_of_true ((zero_pow_alike b s t hodd).trans (hright _)) fun h => hodd h.2.2

/-- Applications to like operands are alike exactly if they do not part. -/
theorem alike_apply_iff (op : Operator) : (op.apply a b).Alike (op.apply a' b') ↔ ¬op.Parts a b a' b' := by
  cases op with
  | add => exact iff_of_true (ha.congr_both hb (zero_add_alike · _ _) (add_zero_alike · _ _)) not_false
  | sub => exact iff_of_true (ha.congr_both hb (zero_sub_alike · _ _) (sub_zero_alike · _ _)) not_false
  | mul => exact iff_of_true (ha.congr_both hb (zero_mul_alike · _ _) (mul_zero_alike · _ _)) not_false
  | div => exact alike_div_iff ha hb
  | mod => exact iff_of_true (ha.congr_both hb (zero_mod_alike · _ _) (mod_zero_alike · _ _)) not_false
  | pow => exact alike_pow_iff ha hb
  | log => exact iff_of_true (ha.congr_both (f := fun a b => a.ln / b.ln) hb (fun _ => rfl) fun _ => rfl) not_false

end Operands

end Operator

namespace Formula

/-- Computed at `x`, two formulas of the same shape have corresponding applications that part. -/
def Parts (x : Double) : Formula → Formula → Prop
  | apply op left right, apply _ left' right' =>
    op.Parts (left.eval x) (right.eval x) (left'.eval x) (right'.eval x) ∨ left.Parts x left' ∨ right.Parts x right'
  | _, _ => False

theorem same_apply {op op' : Operator} {left right left' right' : Formula}
    (h : (apply op left right).same (apply op' left' right')) : op = op' ∧ left.same left' ∧ right.same right' := by
  unfold same at h
  simpa only [Bool.and_eq_true, beq_iff_eq, and_assoc] using h

/-- Formulas that are the same compute like numbers, unless they part somewhere. -/
theorem eval_alike {f g : Formula} (h : f.same g) (x : Double) (hparts : ¬f.Parts x g) :
    (f.eval x).Alike (g.eval x) := by
  induction f generalizing g with
  | literal v =>
      cases g with
      | literal w => exact Double.alike_of_same h
      | unknown => cases h
      | apply op left right => cases h
  | unknown =>
      cases g with
      | literal w => cases h
      | unknown => exact Double.Alike.refl x
      | apply op left right => cases h
  | apply op left right ihleft ihright =>
      cases g with
      | literal w => cases h
      | unknown => cases h
      | apply op' left' right' =>
          obtain ⟨rfl, hleft, hright⟩ := same_apply h
          have hl := ihleft hleft fun hl => hparts (.inr (.inl hl))
          have hr := ihright hright fun hr => hparts (.inr (.inr hr))
          exact (Operator.alike_apply_iff hl hr op).mpr fun hop => hparts (.inl hop)

end Formula

/-- Two outcomes differ in the sign of a zero at most: of the result, or of the double that a refusal quotes. -/
inductive AlikeOutcomes : Except Fault Number → Except Fault Number → Prop
  | refl (outcome : Except Fault Number) : AlikeOutcomes outcome outcome
  | zeros (s t : Bool) : AlikeOutcomes (.ok (.double (.zero s))) (.ok (.double (.zero t)))
  | refused (r : Refusal) (s t : Bool) :
    AlikeOutcomes (.error (.refused r (.double (.zero s)))) (.error (.refused r (.double (.zero t))))

namespace Double

theorem truncate_zero (s : Bool) : (zero s).truncate? = some 0 := by
  cases s <;> decide +kernel

theorem less_zero (s : Bool) : (zero s).less 0 = false := by
  cases s <;> decide +kernel

theorem toSingle_zero (s : Bool) : (zero s).toSingle = zero s := by
  cases s <;> decide +kernel

end Double

namespace StorageType

/-- An integer type has one answer to both zeros, or refuses both for one reason. -/
theorem integer_zeros (t : StorageType) :
    (∃ outcome, ∀ s, t.integer (.zero s) = outcome) ∨
      ∃ r, ∀ s, t.integer (.zero s) = .error (.refused r (.double (.zero s))) := by
  have hinteger (s : Bool) : t.integer (.zero s) =
      t.isUnsigned.mapError .number >>= fun _ => t.checkLimits 0 (.double (.zero s)) >>= fun _ => .ok 0 := by
    rw [integer_of_truncate t (Double.truncate_zero s)]
    simp only [Double.less_zero, Bool.and_false, Bool.false_eq_true, if_false]
  cases hunsigned : t.isUnsigned with
  | error f => exact .inl ⟨.error (.number f), fun s => by rw [hinteger, hunsigned]; rfl⟩
  | ok u =>
      cases hbreach : t.breach 0 with
      | error f => exact .inl ⟨.error f, fun s => by rw [hinteger, hunsigned, checkLimits_eq, hbreach]; rfl⟩
      | ok r? =>
          cases r? with
          | none => exact .inl ⟨.ok 0, fun s => by rw [hinteger, hunsigned, checkLimits_eq, hbreach]; rfl⟩
          | some r =>
              have hrefused (s : Bool) : t.integer (.zero s) = .error (Fault.refused r (.double (.zero s))).worded := by
                rw [hinteger, hunsigned, checkLimits_eq, hbreach]
                rfl
              -- Both zeros can be written, so that it depends on the limits alone if their refusal can.
              cases hlimits : r.limits.all Value.isWritable with
              | true =>
                  exact .inr ⟨r, fun s => (hrefused s).trans (congrArg _ (Fault.worded_of_writable hlimits))⟩
              | false =>
                  exact .inl ⟨_, fun s => (hrefused s).trans (congrArg _ (Fault.worded_of_not_writable hlimits))⟩

/-- A type takes both zeros, or it does not take either for one reason. -/
theorem ofDouble_zeros (t : StorageType) (s s' : Bool) :
    AlikeOutcomes (t.ofDouble (.zero s)) (t.ofDouble (.zero s')) := by
  unfold ofDouble
  cases t.isInteger with
  | true =>
      rcases t.integer_zeros with ⟨outcome, hinteger⟩ | ⟨r, hinteger⟩
      · rw [hinteger, hinteger]
        exact .refl (outcome.map .int)
      · rw [hinteger, hinteger]
        exact .refused r s s'
  | false =>
      cases t.singlePrecision with
      | false => exact .zeros s s'
      | true =>
          unfold single
          rw [Double.toSingle_zero, Double.toSingle_zero]
          exact .zeros s s'

end StorageType

theorem Double.Alike.store {v w : Double} (h : v.Alike w) (output : TypeRequest) :
    AlikeOutcomes (v.store output) (w.store output) := by
  rcases h.eq_or_zeros with rfl | ⟨s, t, rfl, rfl⟩
  · exact .refl _
  · unfold Double.store
    cases output.resolve with
    | error f => exact .refl (.error f)
    | ok type => exact type.ofDouble_zeros s t

namespace Formula

/-- Two texts that are read as formulas that are the same have like outcomes, whatever the value and the types, unless
the formulas part at the double that the value stands for. -/
theorem same_interchangeable {a b : String} {m n : Int} {f g : Formula} (hf : read a m = .ok f) (hg : read b n = .ok g)
    (h : f.same g) (value : Value) (output : TypeRequest) (input : Option TypeRequest) :
    AlikeOutcomes (do (← read a m).evaluate value output input) (do (← read b n).evaluate value output input) ∨
      ∃ x, value.toDouble input = .ok x ∧ f.Parts x g := by
  rw [hf, hg]
  change AlikeOutcomes (f.evaluate value output input) (g.evaluate value output input) ∨ _
  unfold evaluate
  cases hx : value.toDouble input with
  | error fault => exact .inl (.refl _)
  | ok x =>
      by_cases hparts : f.Parts x g
      · exact .inr ⟨x, rfl, hparts⟩
      · exact .inl ((eval_alike h x hparts).store output)

/-- The unknown times a zero; for a positive number that is the zero itself. -/
def timesZero (s : Bool) : Formula := .apply .mul .unknown (.literal (.zero s))

theorem same_interchangeable_products :
    (∀ s, read (timesZero s).toText 1 = .ok (timesZero s)) ∧ (timesZero false).same (timesZero true) ∧
      ∀ value output input, AlikeOutcomes (do (← read (timesZero false).toText 1).evaluate value output input)
        (do (← read (timesZero true).toText 1).evaluate value output input) := by
  have hread (s : Bool) : read (timesZero s).toText 1 = .ok (timesZero s) :=
    read_toText_of_finite ⟨trivial, rfl⟩ (Int.le_refl 1) (Int.le_refl 1)
  have hsame : (timesZero false).same (timesZero true) := by decide +kernel
  refine ⟨hread, hsame, fun value output input => ?_⟩
  rcases same_interchangeable (hread false) (hread true) hsame value output input with h | ⟨x, -, h | h | h⟩
  · exact h
  · cases h
  · cases h
  · cases h

/-- One divided by a zero. -/
def reciprocalOfZero (s : Bool) : Formula := .apply .div (.literal 1) (.literal (.zero s))

/-- The sign of a zero that divides is the sign of an infinity in the result. -/
theorem same_reciprocals_differ :
    ofText (String.ofList ['(', '1', ' ', '/', ' ', '0', '.', '0', ')']) = .ok (reciprocalOfZero false) ∧
      ofText (String.ofList ['(', '1', ' ', '/', ' ', '-', '0', '.', '0', ')']) = .ok (reciprocalOfZero true) ∧
      (reciprocalOfZero false).same (reciprocalOfZero true) ∧
      ∀ s, (reciprocalOfZero s).evaluate (.int 1) (.builtin .double) none = .ok (.double (.infinite s)) := by
  refine ⟨?_, ?_, by decide +kernel, by decide +kernel⟩
  · rw [ofText, read_of_pos _ (by decide), String.toList_ofList]
    decide +kernel
  · rw [ofText, read_of_pos _ (by decide), String.toList_ofList]
    decide +kernel

end Formula

end Progression
