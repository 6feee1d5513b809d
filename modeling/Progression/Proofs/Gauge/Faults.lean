import Mathlib.Control.Monad.Basic
import Progression.Proofs.Decimal.Range
import Progression.Proofs.Gauge.Kinds

/-! # Steps that fail

A step of a gauge is a transaction, but for one case: where a sum is past the ceiling, the counter goes up to the
ceiling before what is handed back is computed, and that may fail. It takes a sum and a ceiling of different families of
numbers. Among integers and fractions, among doubles and among decimals, a step that fails changes nothing. -/

namespace Progression

/-- The kinds of numbers, of which integers and fractions are one family. -/
inductive Number.Family where
  | exact
  | double
  | decimal
  deriving DecidableEq

namespace Number

def family : Number → Family
  | .int _ => .exact
  | .fraction _ => .exact
  | .double _ => .double
  | .decimal _ => .decimal

variable {m n r s : Number}

/-- A family is closed under the operations. -/
theorem family_apply {op : Operation} (h : op.apply m n = .ok r) (hfamily : m.family = n.family) :
    r.family = m.family := by
  cases m with
  | int =>
      cases n with
      | int | fraction =>
          cases h
          rfl
      | double | decimal => cases hfamily
  | fraction =>
      cases n with
      | int | fraction =>
          cases h
          rfl
      | double | decimal => cases hfamily
  | double =>
      cases n with
      | double =>
          cases h
          rfl
      | int | fraction | decimal => cases hfamily
  | decimal d =>
      cases n with
      | decimal e =>
          rw [apply_decimals] at h
          obtain ⟨result, -, rfl⟩ := exists_of_map_mapError h
          rfl
      | int | fraction | double => cases hfamily

theorem family_of_doubles {x y : Except Fault Double} {f : Double → Double → Double}
    (h : (do return .double (f (← x) (← y))) = Except.ok r) : r.family = .double := by
  cases x with
  | error fault => cases h
  | ok v =>
      cases y with
      | error fault => cases h
      | ok w =>
          cases h
          rfl

/-- A sum that is a decimal is one of decimals. -/
theorem exists_add_of_apply {d : Decimal} (h : Operation.plus.apply m n = .ok (.decimal d)) :
    ∃ a b : Decimal, a.add b = .ok d := by
  have hdecimals {a b : Decimal} (h : Operation.plus.apply (.decimal a) (.decimal b) = .ok (.decimal d)) :
      ∃ a b : Decimal, a.add b = .ok d := by
    rw [apply_decimals] at h
    obtain ⟨result, hresult, hd⟩ := exists_of_map_mapError h
    cases hd
    exact ⟨a, b, hresult⟩
  cases m with
  | int i =>
      cases n with
      | decimal e => exact hdecimals h
      | double w => cases family_of_doubles h
      | int | fraction => cases h
  | fraction q =>
      cases n with
      | double w => cases family_of_doubles h
      | int | fraction | decimal => cases h
  | double v =>
      cases n with
      | int | double | fraction => cases family_of_doubles h
      | decimal => cases h
  | decimal e =>
      cases n with
      | decimal e' => exact hdecimals h
      | int j => exact hdecimals h
      | double | fraction => cases h

/-- Where a sum is past a number from zero on, the two have a difference if they are of one family. -/
theorem exists_minus_of_plus {k : Number} (hs : Operation.plus.apply m n = .ok s) (hfamily : s.family = k.family)
    (hk : k.less (.int 0) = .ok false) (hlt : k.less s = .ok true) : ∃ r, Operation.minus.apply s k = .ok r := by
  cases s with
  | int =>
      cases k with
      | int | fraction => exact ⟨_, rfl⟩
      | double | decimal => cases hfamily
  | fraction =>
      cases k with
      | int | fraction => exact ⟨_, rfl⟩
      | double | decimal => cases hfamily
  | double =>
      cases k with
      | double => exact ⟨_, rfl⟩
      | int | fraction | decimal => cases hfamily
  | decimal d =>
      cases k with
      | decimal e =>
          obtain ⟨a, b, hadd⟩ := exists_add_of_apply hs
          obtain ⟨r, hr⟩ := Decimal.exists_sub_of_add hadd hk hlt
          refine ⟨.decimal r, ?_⟩
          rw [apply_decimals, Operation.onDecimals, hr]
          rfl
      | int | fraction | double => cases hfamily

end Number

namespace Value

variable {a b c : Value}

/-- The family of the number that a value counts as. -/
def family? (v : Value) : Option Number.Family := v.asNumber?.map Number.family

theorem exists_of_operate {op : Number.Operation} (h : operate op a b = .ok c) :
    ∃ m n r, a.asNumber? = some m ∧ b.asNumber? = some n ∧ op.apply m n = .ok r ∧ c = .number r := by
  unfold operate at h
  cases ha : a.asNumber? with
  | none =>
      rw [ha] at h
      cases h
  | some m =>
      cases hb : b.asNumber? with
      | none =>
          rw [ha, hb] at h
          cases h
      | some n =>
          rw [ha, hb] at h
          obtain ⟨r, hr, rfl⟩ := exists_of_map_mapError h
          exact ⟨m, n, r, rfl, rfl, hr, rfl⟩

theorem family?_operate {op : Number.Operation} (h : operate op a b = .ok c) (hfamily : a.family? = b.family?) :
    c.family? = a.family? := by
  obtain ⟨m, n, r, ha, hb, hr, rfl⟩ := exists_of_operate h
  unfold family? at hfamily ⊢
  rw [ha, hb] at hfamily
  rw [ha]
  exact congrArg some (Number.family_apply hr (Option.some.inj hfamily))

theorem number_greater_eq (s : Number) (v : Value) : (number s).greater v =
    match v.asNumber? with
    | some k => (k.less s).mapError .number
    | none => .error (.unordered ">" s.kind v.kind) := by
  cases v <;> rfl

end Value

namespace Gauge

variable {g : Gauge} {a : Action} {n : Value} {f : Fault}

/-! ## Transactions -/

/-- What an action comes to if all is computed before the gauge changes: the result, and the gauge afterwards. -/
def Action.transaction : Action → Value → Gauge → Except Fault (Value × Gauge)
  | setCurrent, n, g => do
    checkAmount n
    return (.null, { g with current := ← lesser n g.ceiling })
  | setCeiling, n, g => do
    checkAmount n
    return (.null, ⟨← lesser g.current n, n⟩)
  | add, n, g => do
    checkAmount n
    let sum ← Value.operate .plus g.current n
    if ← sum.greater g.ceiling then
      return (← Value.operate .minus sum g.ceiling, { g with current := g.ceiling })
    else return (.int 0, { g with current := sum })
  | sub, n, g => do
    checkAmount n
    if ← g.current.less n then return (← Value.operate .minus n g.current, { g with current := .int 0 })
    else return (.int 0, { g with current := ← Value.operate .inPlace g.current n })

/-- The outcome of a transaction, which changes nothing if it fails. -/
def commit (g : Gauge) : Except Fault (Value × Gauge) → Except Fault Value × Gauge
  | .ok (result, after) => (.ok result, after)
  | .error f => (.error f, g)

/-- The sum of the counter and the amount is past the ceiling, but the two have no difference to hand back. -/
def RefusedLate (g : Gauge) (n : Value) (f : Fault) : Prop :=
  checkAmount n = .ok () ∧ ∃ sum, Value.operate .plus g.current n = .ok sum ∧ sum.greater g.ceiling = .ok true ∧
    Value.operate .minus sum g.ceiling = .error f

/-- The counter has gone up by the time the difference is refused. -/
theorem run_add_of_refusedLate (h : RefusedLate g n f) :
    (Action.add.step n).run.run g = (.error f, { g with current := g.ceiling }) := by
  obtain ⟨hn, sum, hsum, hgreater, hdifference⟩ := h
  simp only [Action.step, add, run_bind, run_ofExcept, run_get, hn, hsum, hgreater, hdifference]
  rfl

section Checked

variable (hn : checkAmount n = .ok ()) (g : Gauge)
include hn

theorem run_setCurrent_of_checked :
    (Action.setCurrent.step n).run.run g = commit g (Action.setCurrent.transaction n g) := by
  simp only [Action.step, Action.transaction, run_map, setCurrent, run_bind, run_ofExcept, run_get, run_set, hn]
  cases lesser n g.ceiling <;> rfl

theorem run_setCeiling_of_checked :
    (Action.setCeiling.step n).run.run g = commit g (Action.setCeiling.transaction n g) := by
  simp only [Action.step, Action.transaction, run_map, run_setCeiling_eq, hn, bind, Except.bind]
  cases lesser g.current n <;> rfl

/-- Either way, what is handed back is computed before the counter changes. -/
theorem run_sub_of_checked : (Action.sub.step n).run.run g = commit g (Action.sub.transaction n g) := by
  simp only [Action.step, Action.transaction, sub, run_bind, run_ofExcept, run_get, hn]
  simp only [bind, Except.bind]
  rcases g.current.less n with f | _ | _
  · rfl
  · cases Value.operate .inPlace g.current n <;> rfl
  · cases Value.operate .minus n g.current <;> rfl

theorem run_add_of_checked :
    (Action.add.step n).run.run g = commit g (Action.add.transaction n g) ∨ ∃ f, RefusedLate g n f := by
  simp only [Action.step, Action.transaction, add, run_bind, run_ofExcept, run_get, hn]
  simp only [bind, Except.bind]
  cases hsum : Value.operate .plus g.current n with
  | error f => exact .inl rfl
  | ok sum =>
      dsimp only
      rcases hgreater : sum.greater g.ceiling with f | _ | _
      · exact .inl rfl
      · exact .inl rfl
      · cases hdifference : Value.operate .minus sum g.ceiling with
        | error f => exact .inr ⟨f, hn, sum, hsum, hgreater, hdifference⟩
        | ok difference => exact .inl rfl

end Checked

/-- Every step is a transaction, unless a sum past the ceiling is refused late. -/
theorem run_step_cases (a : Action) (n : Value) (g : Gauge) :
    (a.step n).run.run g = commit g (a.transaction n g) ∨ a = .add ∧ ∃ f, RefusedLate g n f := by
  cases hn : checkAmount n with
  | error f =>
      left
      rw [run_step_of_refused hn]
      cases a <;> (simp only [Action.transaction, hn]; rfl)
  | ok _ =>
      cases a with
      | setCurrent => exact .inl (run_setCurrent_of_checked hn g)
      | setCeiling => exact .inl (run_setCeiling_of_checked hn g)
      | add => exact (run_add_of_checked hn g).imp_right fun hlate => ⟨rfl, hlate⟩
      | sub => exact .inl (run_sub_of_checked hn g)

/-- Only a checked amount becomes the ceiling. -/
theorem ceiling_transaction {result : Value} {after : Gauge} (h : a.transaction n g = .ok (result, after)) :
    after.ceiling = g.ceiling ∨ after.ceiling = n ∧ checkAmount n = .ok () := by
  cases a with
  | setCurrent =>
      obtain ⟨_, -, h⟩ := exists_of_bind_eq_ok h
      obtain ⟨current, -, h⟩ := exists_of_bind_eq_ok h
      cases h
      exact .inl rfl
  | setCeiling =>
      obtain ⟨_, hn, h⟩ := exists_of_bind_eq_ok h
      obtain ⟨current, -, h⟩ := exists_of_bind_eq_ok h
      cases h
      exact .inr ⟨rfl, hn⟩
  | add =>
      obtain ⟨_, -, h⟩ := exists_of_bind_eq_ok h
      obtain ⟨sum, -, h⟩ := exists_of_bind_eq_ok h
      obtain ⟨past, -, h⟩ := exists_of_bind_eq_ok h
      cases past with
      | false =>
          cases h
          exact .inl rfl
      | true =>
          obtain ⟨difference, -, h⟩ := exists_of_bind_eq_ok h
          cases h
          exact .inl rfl
  | sub =>
      obtain ⟨_, -, h⟩ := exists_of_bind_eq_ok h
      obtain ⟨past, -, h⟩ := exists_of_bind_eq_ok h
      cases past with
      | false =>
          obtain ⟨current, -, h⟩ := exists_of_bind_eq_ok h
          cases h
          exact .inl rfl
      | true =>
          obtain ⟨rest, -, h⟩ := exists_of_bind_eq_ok h
          cases h
          exact .inl rfl

/-- Every step leaves a ceiling that could be set. -/
theorem checkAmount_ceiling_step (hg : checkAmount g.ceiling = .ok ()) (a : Action) (n : Value) :
    checkAmount ((a.step n).run.run g).2.ceiling = .ok () := by
  rcases run_step_cases a n g with hrun | ⟨rfl, f, hlate⟩
  · rw [hrun]
    cases htransaction : a.transaction n g with
    | error f => exact hg
    | ok outcome =>
        rcases ceiling_transaction htransaction with hkept | ⟨hset, hn⟩
        · exact hkept ▸ hg
        · exact hset ▸ hn
  · rw [run_add_of_refusedLate hlate]
    exact hg

theorem checkAmount_ceiling_of_ofParts {current ceiling : Value} (h : ofParts current ceiling = .ok g) :
    checkAmount g.ceiling = .ok () := by
  obtain ⟨-, hceiling, -, rfl⟩ := checked_of_ofParts h
  rw [checkAmount, hceiling]
  rfl

/-- The gauges that can be built, and those that steps lead to from there, whether they fail or not. -/
inductive Reachable : Gauge → Prop
  | built {current ceiling : Value} {g : Gauge} : ofParts current ceiling = .ok g → Reachable g
  | step {g : Gauge} (a : Action) (n : Value) : Reachable g → Reachable ((a.step n).run.run g).2

theorem Reachable.checkAmount_ceiling (hg : g.Reachable) : checkAmount g.ceiling = .ok () := by
  induction hg with
  | built h => exact checkAmount_ceiling_of_ofParts h
  | step a n _ ih => exact checkAmount_ceiling_step ih a n

/-- A step that fails changes nothing, unless a sum past the ceiling is refused late. -/
theorem after_of_error {after : Gauge} (h : (a.step n).run.run g = (.error f, after)) :
    after = g ∨ a = .add ∧ RefusedLate g n f := by
  rcases run_step_cases a n g with hrun | ⟨rfl, f', hlate⟩
  · left
    rw [hrun] at h
    cases htransaction : a.transaction n g with
    | error f =>
        rw [htransaction] at h
        cases h
        rfl
    | ok outcome =>
        rw [htransaction] at h
        cases h
  · right
    rw [run_add_of_refusedLate hlate] at h
    cases h
    exact ⟨rfl, hlate⟩

theorem less_zero_of_checkAmount (h : checkAmount n = .ok ()) : n.less (.int 0) = .ok false := by
  unfold checkAmount at h
  rcases hless : n.less (.int 0) with f | _ | _
  · rw [hless] at h
    cases h
  · rfl
  · rw [hless] at h
    cases h

/-- It takes a sum and a ceiling of different families for the sum to be refused late. -/
theorem family_ne_of_refusedLate (hg : checkAmount g.ceiling = .ok ()) (h : RefusedLate g n f) :
    ∃ sum, Value.operate .plus g.current n = .ok sum ∧ sum.family? ≠ g.ceiling.family? := by
  obtain ⟨-, sum, hsum, hgreater, hdifference⟩ := h
  refine ⟨sum, hsum, fun hfamily => ?_⟩
  obtain ⟨p, q, s, -, -, hs, rfl⟩ := Value.exists_of_operate hsum
  obtain ⟨k, hk, hfamily⟩ := Option.map_eq_some_iff.mp hfamily.symm
  have hnonneg := less_zero_of_checkAmount hg
  rw [Value.less_int_eq, hk, mapError_eq_ok_iff] at hnonneg
  rw [Value.number_greater_eq, hk, mapError_eq_ok_iff] at hgreater
  obtain ⟨r, hr⟩ := Number.exists_minus_of_plus hs hfamily.symm hnonneg hgreater
  rw [Value.operate, hk, Value.asNumber?] at hdifference
  dsimp only at hdifference
  rw [hr] at hdifference
  cases hdifference

/-- A step that fails changes nothing, unless it adds an amount and the sum is past the ceiling but has no difference from
it; the counter is then at the ceiling. It takes a sum and a ceiling of different families for that. So where the counter,
the amount and the ceiling are of one family, a step that fails changes nothing. -/
theorem fault_changes_only_across_families (hg : g.Reachable) {after : Gauge}
    (h : (a.step n).run.run g = (.error f, after)) :
    (after = g ∨ a = .add ∧ RefusedLate g n f) ∧
      (a = .add → RefusedLate g n f → after = { g with current := g.ceiling }) ∧
      (RefusedLate g n f → ∃ sum, Value.operate .plus g.current n = .ok sum ∧ sum.family? ≠ g.ceiling.family?) ∧
      (g.current.family? = n.family? → n.family? = g.ceiling.family? → after = g) := by
  have hafter := after_of_error h
  have hfamily := @family_ne_of_refusedLate g n f hg.checkAmount_ceiling
  refine ⟨hafter, ?_, hfamily, fun hcurrent hamount => ?_⟩
  · rintro rfl hlate
    rw [run_add_of_refusedLate hlate] at h
    exact (congrArg Prod.snd h).symm
  · rcases hafter with hkept | ⟨-, hlate⟩
    · exact hkept
    · obtain ⟨sum, hsum, hne⟩ := hfamily hlate
      exact absurd ((Value.family?_operate hsum hcurrent).trans (hcurrent.trans hamount)) hne

/-- A gauge that starts at an integer below a ceiling that is a double. -/
def mixed : Gauge := ⟨.int 1, .double (.ofDecimal false 25 (-1))⟩

theorem ofParts_mixed : ofParts mixed.current mixed.ceiling = .ok mixed := by decide +kernel

/-- The sum with a decimal is past the double, and has no difference from it. -/
theorem counter_moved_by_fault :
    ¬∀ (current ceiling : Value) (g : Gauge) (a : Action) (n : Value) (f : Fault) (after : Gauge),
      ofParts current ceiling = .ok g → (a.step n).run.run g = (.error f, after) → after = g := by
  intro hall
  have hkept := hall _ _ _ .add (.decimal (.finite false 5 0)) _ _ ofParts_mixed rfl
  cases congrArg Gauge.current hkept

/-- A full gauge near the greatest decimal. -/
def full : Gauge := ⟨.decimal (.finite false 9 999999), .decimal (.finite false 9 999999)⟩

/-- A sum of decimals that is too large leaves the gauge full. A decimal that is added to the mixed gauge is refused late,
and the counter is then the double. -/
theorem fault_changes_only_across_families_decimal :
    full.Reachable ∧
      (Action.add.step full.current).run.run full = (.error (.number (.decimal .overflow)), full) ∧
      mixed.Reachable ∧
      RefusedLate mixed (.decimal (.finite false 5 0)) (.number (.mixedKinds "-" "decimal.Decimal" "float")) ∧
      (Action.add.step (.decimal (.finite false 5 0))).run.run mixed =
        (.error (.number (.mixedKinds "-" "decimal.Decimal" "float")), ⟨mixed.ceiling, mixed.ceiling⟩) := by
  have hfull : full.Reachable := .built (show ofParts full.current full.ceiling = .ok full by decide +kernel)
  have hoverflow : ((Action.add.step full.current).run.run full).1 = .error (.number (.decimal .overflow)) := by
    decide +kernel
  have hmixed : mixed.Reachable := .built ofParts_mixed
  have hclash : ((Action.add.step (.decimal (.finite false 5 0))).run.run mixed).1 =
      .error (.number (.mixedKinds "-" "decimal.Decimal" "float")) := by decide +kernel
  have hlate : RefusedLate mixed (.decimal (.finite false 5 0))
      (.number (.mixedKinds "-" "decimal.Decimal" "float")) :=
    ⟨by decide +kernel, .decimal (.finite false 6 0), by decide +kernel, by decide +kernel, by decide +kernel⟩
  obtain ⟨-, -, -, hkept⟩ := fault_changes_only_across_families hfull (Prod.ext hoverflow rfl)
  obtain ⟨-, hmoved, -⟩ := fault_changes_only_across_families hmixed (Prod.ext hclash rfl)
  exact ⟨hfull, Prod.ext hoverflow (hkept rfl rfl), hmixed, hlate, Prod.ext hclash (hmoved rfl hlate)⟩

end Gauge

end Progression
