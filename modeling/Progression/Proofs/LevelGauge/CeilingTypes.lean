import Progression.Proofs.LevelGauge.Saving
import Progression.Proofs.LevelGauge.UnsignedCeilings

/-! # Saving ceiling types

A ceiling type is saved by its name alone, and restored as the named type of that name. So a level gauge with a type of
a caller's own is restored only if there is a named integer type of the same name, which then stands in its place. At a
level the two have the same ceiling, or are refused alike, if their types take the double of the level alike, as types
with the same limits do. -/

namespace Progression

/-- The outcomes are one integer or one fault, or they are both the refusal of a value. -/
inductive SameOutcome : Except Fault Int → Except Fault Int → Prop
  | refl (outcome : Except Fault Int) : SameOutcome outcome outcome
  | refused (r r' : Refusal) (value value' : Value) :
    SameOutcome (.error (.refused r value)) (.error (.refused r' value'))

/-- The same outcomes have the same integer, or none. -/
theorem SameOutcome.toOption_eq {a b : Except Fault Int} (h : SameOutcome a b) : a.toOption = b.toOption := by
  cases h with
  | refl => rfl
  | refused => rfl

/-- Refusals of a value that quote the same limits can be put into words together. -/
theorem SameOutcome.worded {r r' : Refusal} (h : r.limits = r'.limits) (value : Value) :
    SameOutcome (.error (Fault.refused r value).worded) (.error (Fault.refused r' value).worded) := by
  have hvalues : (Fault.refused r value).values = (Fault.refused r' value).values := congrArg (value :: ·) h
  rw [Fault.worded, Fault.worded, hvalues]
  split
  · exact .refused _ _ _ _
  · exact .refl _

namespace StorageType

/-- A type is found by a name exactly if it is a named type of that name. -/
theorem find?_eq_some_iff {name : String} {u : StorageType} : find? name = some u ↔ u ∈ named ∧ u.name = name := by
  have hfind : ∀ t ∈ named, find? t.name = some t := by decide
  constructor
  · intro h
    exact ⟨List.mem_of_find?_eq_some h, by simpa using List.find?_some h⟩
  · rintro ⟨hnamed, rfl⟩
    exact hfind u hnamed

theorem ofName_eq_ok_iff {name : String} {u : StorageType} :
    ofName (.text name) = .ok u ↔ u ∈ named ∧ u.name = name := by
  rw [← find?_eq_some_iff, ofName]
  cases find? name with
  | none => exact iff_of_false (fun h => by cases h) fun h => by cases h
  | some t => rw [Except.ok.injEq, Option.some.injEq]

section SameLimits

variable {t u : StorageType} (hleast : u.least = t.least) (hgreatest : u.greatest = t.greatest)
include hleast hgreatest

/-- Types with the same limits let the same integers pass, and quote the same limit for any other. -/
theorem breach_of_same_limits (n : Int) :
    (∃ f, u.breach n = .error f ∧ t.breach n = .error f) ∨ (u.breach n = .ok none ∧ t.breach n = .ok none) ∨
      ∃ r r', r.limits = r'.limits ∧ u.breach n = .ok (some r) ∧ t.breach n = .ok (some r') := by
  have hbreachOf (limit : Option Value) (past : Value → Except Fault Bool) (refusal refusal' : Value → Refusal)
      (hquoted : ∀ limit, (refusal limit).limits = (refusal' limit).limits) :
      (∃ f, breachOf limit past refusal = .error f ∧ breachOf limit past refusal' = .error f) ∨
        (breachOf limit past refusal = .ok none ∧ breachOf limit past refusal' = .ok none) ∨
        ∃ r r', r.limits = r'.limits ∧ breachOf limit past refusal = .ok (some r) ∧
          breachOf limit past refusal' = .ok (some r') := by
    cases limit with
    | none => exact .inr (.inl ⟨rfl, rfl⟩)
    | some limit =>
        rw [breachOf, breachOf]
        rcases past limit with f | _ | _
        · exact .inl ⟨f, rfl, rfl⟩
        · exact .inr (.inl ⟨rfl, rfl⟩)
        · exact .inr (.inr ⟨_, _, hquoted limit, rfl, rfl⟩)
  unfold breach
  rw [hleast, hgreatest]
  rcases hbreachOf t.least (Value.int n).less (.below u) (.below t) fun _ => rfl with
    ⟨f, hu, ht⟩ | ⟨hu, ht⟩ | ⟨r, r', hlimits, hu, ht⟩
  · rw [hu, ht]
    exact .inl ⟨f, rfl, rfl⟩
  · rw [hu, ht]
    exact hbreachOf t.greatest (Value.int n).greater (.above u) (.above t) fun _ => rfl
  · rw [hu, ht]
    exact .inr (.inr ⟨r, r', hlimits, rfl, rfl⟩)

/-- Types with the same limits take a double alike. -/
theorem sameOutcome_of_same_limits (v : Double) : SameOutcome (u.integer v) (t.integer v) := by
  cases hn : v.truncate? with
  | none =>
      rw [integer, integer, hn]
      exact .refused _ _ _ _
  | some n =>
      have hunsigned : u.isUnsigned = t.isUnsigned := by rw [isUnsigned, isUnsigned, hleast]
      rw [integer_of_truncate u hn, integer_of_truncate t hn, hunsigned, checkLimits_eq, checkLimits_eq]
      cases t.isUnsigned with
      | error f => exact .refl _
      | ok unsigned =>
          change SameOutcome (if (unsigned && v.less 0) = true then _ else _)
            (if (unsigned && v.less 0) = true then _ else _)
          split
          · exact .refused _ _ _ _
          · rcases breach_of_same_limits hleast hgreatest n with
              ⟨f, hu, ht⟩ | ⟨hu, ht⟩ | ⟨r, r', hlimits, hu, ht⟩
            · rw [hu, ht]
              exact .refl _
            · rw [hu, ht]
              exact .refl _
            · rw [hu, ht]
              exact .worded hlimits (.double v)

end SameLimits

end StorageType

namespace Gauge

variable {g : Gauge} {current ceiling : Value}

theorem eq_of_ofParts (h : ofParts current ceiling = .ok g) : g = ⟨current, ceiling⟩ := by
  unfold ofParts at h
  rcases hcurrent : current.less (.int 0) with f | _ | _ <;> rw [hcurrent] at h
  · cases h
  · rcases hceiling : ceiling.less (.int 0) with f | _ | _ <;> rw [hceiling] at h
    · cases h
    · rcases hgreater : current.greater ceiling with f | _ | _ <;> rw [hgreater] at h
      · cases h
      · cases h
        rfl
      · cases h
    · cases h
  · cases h

/-- A gauge that was built is restored from what was saved of it. -/
theorem restore_save_of_ofParts (h : ofParts current ceiling = .ok g) : restore g.save = .ok g := by
  obtain rfl := eq_of_ofParts h
  exact h

end Gauge

namespace LevelGauge

section Formula

variable {f : Formula} {gauge : Gauge} {t u : StorageType}

/-- The ceiling of a level by a formula is the integer that the type takes its double for. -/
theorem ceilingOf_formula (ht : t.isInteger) (level : Value) :
    ceilingOf ⟨.formula f, gauge, t⟩ level = level.toDouble none >>= fun x => t.integer (f.eval x) := by
  show ((level.toDouble none >>= fun x => (f.eval x).store (.exactly t)).map Value.number >>= Value.integerPart) = _
  cases level.toDouble none with
  | error fault => rfl
  | ok x =>
      show ((f.eval x).store (.exactly t)).map Value.number >>= Value.integerPart = t.integer (f.eval x)
      rw [StorageType.store_of_isInteger ht rfl]
      cases t.integer (f.eval x) <;> rfl

/-- By one formula two types have the same ceiling at a level exactly if they take its double alike. -/
theorem sameOutcome_ceilingOf_iff (ht : t.isInteger) (hu : u.isInteger) (level : Value) :
    SameOutcome (ceilingOf ⟨.formula f, gauge, u⟩ level) (ceilingOf ⟨.formula f, gauge, t⟩ level) ↔
      ∀ x, level.toDouble none = .ok x → SameOutcome (u.integer (f.eval x)) (t.integer (f.eval x)) := by
  rw [ceilingOf_formula hu, ceilingOf_formula ht]
  cases level.toDouble none with
  | error fault => exact iff_of_true (.refl _) fun x hx => by cases hx
  | ok x =>
      refine ⟨fun h y hy => ?_, fun h => h x rfl⟩
      cases hy
      exact h

/-- A level gauge by a formula is restored with the integer type that has the name of its own. -/
theorem restore_eq_ok_iff {text : String} (hf : Formula.ofText text = .ok f) {current ceiling : Value}
    (hgauge : Gauge.ofParts current ceiling = .ok gauge) (h : LevelGauge) :
    restore ⟨some ⟨some (.text f.toText), none⟩, some gauge.save, some (.text t.name)⟩ = .ok h ↔
      ∃ u ∈ StorageType.named, u.name = t.name ∧ u.isInteger ∧ h = ⟨.formula f, gauge, u⟩ := by
  obtain ⟨_, hsave, hrule⟩ := @CeilingRule.restore_save (.formula f) ⟨text, hf⟩
  cases hsave
  change CeilingRule.restore ⟨some (.text f.toText), none⟩ = _ at hrule
  have hrestore : restore ⟨some ⟨some (.text f.toText), none⟩, some gauge.save, some (.text t.name)⟩ =
      StorageType.ofName (.text t.name) >>= fun u => ofParts (.formula f) gauge (.exactly u) := by
    simp only [restore, hrule, Gauge.restore_save_of_ofParts hgauge, Option.getD_some]
    rfl
  rw [hrestore]
  constructor
  · intro hok
    obtain ⟨u, hname, hparts⟩ := exists_of_bind_eq_ok hok
    obtain ⟨u', hu', hinteger, rfl⟩ := ofParts_eq_ok_iff.mp hparts
    cases hu'
    obtain ⟨hnamed, hname⟩ := StorageType.ofName_eq_ok_iff.mp hname
    exact ⟨u, hnamed, hname, hinteger, rfl⟩
  · rintro ⟨u, hnamed, hname, hinteger, rfl⟩
    rw [StorageType.ofName_eq_ok_iff.mpr ⟨hnamed, hname⟩]
    show ofParts (.formula f) gauge (.exactly u) = _
    exact ofParts_eq_ok_iff.mpr ⟨u, rfl, hinteger, rfl⟩

end Formula

/-- A level gauge by a formula that a text writes is saved, whatever its ceiling type. It is restored exactly if there
is a named integer type of the same name, with that type in place of its own and all else as it was. At a level the two
then have the same ceiling, or are refused alike, exactly if the two types take the double of the formula alike there,
and so at every level if the types have the same limits. -/
theorem restored_with_named_type {text : String} {f : Formula} {gauge : Gauge} {request : TypeRequest} {g : LevelGauge}
    {current ceiling : Value} (hf : Formula.ofText text = .ok f) (hgauge : Gauge.ofParts current ceiling = .ok gauge)
    (hg : ofParts (.formula f) gauge request = .ok g) :
    ∃ saved, g.save = .ok saved ∧
      (∀ h, restore saved = .ok h ↔
        ∃ u ∈ StorageType.named, u.name = g.ceilingType.name ∧ u.isInteger ∧ h = { g with ceilingType := u }) ∧
      ∀ h, restore saved = .ok h →
        (∀ level, SameOutcome (h.ceilingOf level) (g.ceilingOf level) ↔
          ∀ x, level.toDouble none = .ok x →
            SameOutcome (h.ceilingType.integer (f.eval x)) (g.ceilingType.integer (f.eval x))) ∧
        (h.ceilingType.least = g.ceilingType.least → h.ceilingType.greatest = g.ceilingType.greatest →
          ∀ level, SameOutcome (h.ceilingOf level) (g.ceilingOf level)) := by
  obtain ⟨t, -, ht, rfl⟩ := ofParts_eq_ok_iff.mp hg
  have hrestore := @restore_eq_ok_iff f gauge t text hf current ceiling hgauge
  refine ⟨_, rfl, hrestore, fun h hh => ?_⟩
  obtain ⟨u, -, -, hu, rfl⟩ := (hrestore h).mp hh
  have hsame := @sameOutcome_ceilingOf_iff f gauge t u ht hu
  refine ⟨hsame, fun hleast hgreatest level => (hsame level).mpr fun x _ => ?_⟩
  exact StorageType.sameOutcome_of_same_limits hleast hgreatest (f.eval x)

/-- A byte that ends at 99, under the name of the named byte. -/
def narrowByte : StorageType := ⟨"u8", true, some (.int 0), some (.int 99), false⟩

/-- A byte with the limits of the named byte, under its name, that is not that type. -/
def roundedByte : StorageType := ⟨"u8", true, some (.int 0), some (.int 255), true⟩

/-- The double of the level, between 30 and 150 at first, in a type. -/
def doublingIn (t : StorageType) : LevelGauge := ⟨.formula doubling, .ofInts 30 150, t⟩

/-- The narrow byte comes back as the named byte: level 40 has its ceiling 80 as before, level 60 has the ceiling 120
that was refused before. The other byte comes back with the same ceilings throughout. -/
theorem restored_with_named_type_bytes :
    Formula.ofText (String.ofList ['(', ' ', 'x', '+', 'x', ')']) = .ok doubling ∧
      Gauge.ofParts (.int 30) (.int 150) = .ok (.ofInts 30 150) ∧
      ofParts (.formula doubling) (.ofInts 30 150) (.exactly narrowByte) = .ok (doublingIn narrowByte) ∧
      ofParts (.formula doubling) (.ofInts 30 150) (.exactly roundedByte) = .ok (doublingIn roundedByte) ∧
      (∃ saved, (doublingIn narrowByte).save = .ok saved ∧ restore saved = .ok (doublingIn .u8) ∧
        SameOutcome ((doublingIn .u8).ceilingOf (.int 40)) ((doublingIn narrowByte).ceilingOf (.int 40)) ∧
        ¬SameOutcome ((doublingIn .u8).ceilingOf (.int 60)) ((doublingIn narrowByte).ceilingOf (.int 60))) ∧
      ∃ saved, (doublingIn roundedByte).save = .ok saved ∧ restore saved = .ok (doublingIn .u8) ∧
        ∀ level, SameOutcome ((doublingIn .u8).ceilingOf level) ((doublingIn roundedByte).ceilingOf level) := by
  have hf : Formula.ofText (String.ofList ['(', ' ', 'x', '+', 'x', ')']) = .ok doubling := by decide +kernel
  have hgauge : Gauge.ofParts (.int 30) (.int 150) = .ok (.ofInts 30 150) := Gauge.ofParts_int 30 150
  have hnarrow : ofParts (.formula doubling) (.ofInts 30 150) (.exactly narrowByte) = .ok (doublingIn narrowByte) := rfl
  have hrounded : ofParts (.formula doubling) (.ofInts 30 150) (.exactly roundedByte) = .ok (doublingIn roundedByte) :=
    rfl
  refine ⟨hf, hgauge, hnarrow, hrounded, ?_, ?_⟩
  · obtain ⟨saved, hsave, hrestore, hsame⟩ := restored_with_named_type hf hgauge hnarrow
    have hback : restore saved = .ok (doublingIn .u8) := (hrestore _).mpr ⟨.u8, by decide, rfl, rfl, rfl⟩
    have hsame := (hsame _ hback).1
    have h40 : StorageType.u8.integer (doubling.eval 40) = narrowByte.integer (doubling.eval 40) := by decide +kernel
    have h60 : (StorageType.u8.integer (doubling.eval 60)).toOption ≠
        (narrowByte.integer (doubling.eval 60)).toOption := by
      decide +kernel
    have hlevel (n : Int) (v : Double) (h : (Value.int n).toDouble none = .ok v) (x : Double)
        (hx : (Value.int n).toDouble none = .ok x) : x = v := Except.ok.inj (hx.symm.trans h)
    refine ⟨saved, hsave, hback, (hsame _).mpr fun x hx => ?_, fun h => ?_⟩
    · rw [hlevel 40 40 (by decide +kernel) x hx]
      exact h40 ▸ .refl _
    · exact h60 ((hsame _).mp h 60 (by decide +kernel)).toOption_eq
  · obtain ⟨saved, hsave, hrestore, hsame⟩ := restored_with_named_type hf hgauge hrounded
    have hback : restore saved = .ok (doublingIn .u8) := (hrestore _).mpr ⟨.u8, by decide, rfl, rfl, rfl⟩
    exact ⟨saved, hsave, hback, (hsame _ hback).2 rfl rfl⟩

/-- A type whose name no named type has is lost: the level gauge is saved, and cannot be restored. -/
theorem unnamed_type_lost :
    ¬∀ (text : String) (f : Formula) (gauge : Gauge) (request : TypeRequest) (g : LevelGauge) (current ceiling : Value)
        (saved : Saved),
      Formula.ofText text = .ok f → Gauge.ofParts current ceiling = .ok gauge →
        ofParts (.formula f) gauge request = .ok g → g.save = .ok saved →
          ∃ h, restore saved = .ok h ∧ ∀ level, SameOutcome (h.ceilingOf level) (g.ceilingOf level) := by
  intro h
  obtain ⟨h, hrestore, -⟩ := h (String.ofList ['(', ' ', 'x', '+', 'x', ')']) doubling (.ofInts 30 150)
    (.exactly { narrowByte with name := "level" }) (doublingIn { narrowByte with name := "level" }) (.int 30) (.int 150)
    ⟨some ⟨some (.text doubling.toText), none⟩, some (Gauge.ofInts 30 150).save, some (.text "level")⟩
    (by decide +kernel) (Gauge.ofParts_int 30 150) rfl rfl
  have hnamedAlike := @restore_eq_ok_iff doubling (.ofInts 30 150) { narrowByte with name := "level" }
    (String.ofList ['(', ' ', 'x', '+', 'x', ')']) (by decide +kernel) (.int 30) (.int 150) (Gauge.ofParts_int 30 150) h
  obtain ⟨u, hnamed, hname, -⟩ := hnamedAlike.mp hrestore
  have hnone : ∀ u ∈ StorageType.named, u.name ≠ "level" := by decide
  exact hnone u hnamed hname

end LevelGauge
end Progression
