import Progression.Proofs.Gauge.Steps

/-! # Gauges of numbers of any kind

A gauge may hold numbers of all kinds, also several at once. What it is built of can be compared with the integers,
and a decimal that is not a number cannot. Whatever amounts the steps are asked with, and whether they fail or not,
nothing that cannot be compared gets into the gauge later. So no integer from zero on is refused as a ceiling. -/

namespace Progression

/-- The number can be compared: it has a place, or is a double that has none. -/
def Number.Ordered (n : Number) : Prop := n.place?.isSome ∨ n.isDecimal = false

/-- The value counts as a number that can be compared. -/
def Value.Ordered (v : Value) : Prop := ∃ n, v.asNumber? = some n ∧ n.Ordered

section Outcomes

variable {α β γ δ : Type} {x : Except α β} {f : α → γ}

theorem mapError_eq_ok_iff {r : β} : x.mapError f = .ok r ↔ x = .ok r := by
  cases x <;> simp [Except.mapError]

theorem exists_of_map_eq_ok {g : β → δ} {c : δ} (h : x.map g = .ok c) : ∃ r, x = .ok r ∧ g r = c := by
  cases x with
  | error fault => cases h
  | ok r => exact ⟨r, rfl, Except.ok.inj h⟩

theorem exists_of_bind_eq_ok {g : β → Except α δ} {c : δ} (h : (x >>= g) = .ok c) : ∃ r, x = .ok r ∧ g r = .ok c := by
  cases x with
  | error fault => cases h
  | ok r => exact ⟨r, rfl, h⟩

theorem exists_of_map_mapError {g : β → δ} {c : δ} (h : (x.mapError f).map g = .ok c) : ∃ r, x = .ok r ∧ g r = c := by
  cases x with
  | error fault => cases h
  | ok r => exact ⟨r, rfl, Except.ok.inj h⟩

end Outcomes

namespace Number

theorem less_int_iff (n : Number) (m : Int) : (∃ r, n.less (.int m) = .ok r) ↔ n.Ordered := by
  unfold less Ordered
  cases hplace : n.place? with
  | some p => simp [place?]
  | none => cases n.isDecimal <;> simp [isDecimal]

theorem int_less_iff (n : Number) (m : Int) : (∃ r, (Number.int m).less n = .ok r) ↔ n.Ordered := by
  unfold less Ordered
  cases hplace : n.place? with
  | some p => simp [place?]
  | none => cases hdecimal : n.isDecimal <;> simp [isDecimal]

theorem ordered_decimal_iff (d : Decimal) : (decimal d).Ordered ↔ d.isNaN = false := by
  cases d <;> simp [Ordered, place?, isDecimal, Decimal.isNaN]

end Number

namespace Decimal

theorem isNaN_round {s : Bool} {c : Nat} {e : Int} {d : Decimal} (h : round s c e = .ok d) : d.isNaN = false := by
  unfold round at h
  split at h
  · cases h
    rfl
  · dsimp only at h
    generalize (if dropDigits c _ = Nat.pow 10 precision then _ else _ : Nat × Int) = kept at h
    obtain ⟨kept, unit⟩ := kept
    dsimp only at h
    split at h
    · cases h
    · cases h
      rfl

/-- A sum is not a number only if an operand is none. -/
theorem isNaN_add {a b d : Decimal} (ha : a.isNaN = false) (hb : b.isNaN = false) (h : a.add b = .ok d) :
    d.isNaN = false := by
  cases a with
  | nan s signaling payload => cases ha
  | infinite s =>
      cases b with
      | nan t signaling payload => cases hb
      | infinite t =>
          unfold add at h
          dsimp only at h
          split at h
          · cases h
            rfl
          · cases h
      | finite t d f =>
          cases h
          rfl
  | finite s c e =>
      cases b with
      | nan t signaling payload => cases hb
      | infinite t =>
          cases h
          rfl
      | finite t d f =>
          unfold add at h
          dsimp only at h
          split at h
          · exact isNaN_round h
          · exact isNaN_round h

theorem isNaN_sub {a b d : Decimal} (ha : a.isNaN = false) (hb : b.isNaN = false) (h : a.sub b = .ok d) :
    d.isNaN = false := by
  refine isNaN_add ha ?_ h
  cases b with
  | nan s signaling payload => cases hb
  | infinite s => rfl
  | finite s c e => rfl

end Decimal

namespace Number

/-- Doubles are compared, and so is every result that is one. -/
theorem ordered_of_doubles {x y : Except Fault Double} {f : Double → Double → Double} {c : Number}
    (h : (do return .double (f (← x) (← y))) = Except.ok c) : c.Ordered := by
  cases x with
  | error fault => cases h
  | ok v =>
      cases y with
      | error fault => cases h
      | ok w =>
          cases h
          exact .inr rfl

theorem apply_decimals (op : Operation) (d e : Decimal) :
    op.apply (.decimal d) (.decimal e) = ((op.onDecimals d e).mapError Fault.decimal).map .decimal := by
  unfold Operation.apply
  dsimp only
  cases op.onDecimals d e <;> rfl

theorem ordered_of_decimals {op : Operation} (hop : op ≠ .modulo) {d e : Decimal} {c : Number}
    (hd : (decimal d).Ordered) (he : (decimal e).Ordered) (h : op.apply (.decimal d) (.decimal e) = .ok c) :
    c.Ordered := by
  rw [ordered_decimal_iff] at hd he
  rw [apply_decimals] at h
  obtain ⟨result, hresult, rfl⟩ := exists_of_map_mapError h
  rw [ordered_decimal_iff]
  cases op with
  | plus => exact Decimal.isNaN_add hd he hresult
  | minus => exact Decimal.isNaN_sub hd he hresult
  | inPlace => exact Decimal.isNaN_sub hd he hresult
  | modulo => exact absurd rfl hop

/-- Sums and differences of numbers that can be compared can be compared. -/
theorem ordered_apply {op : Operation} (hop : op ≠ .modulo) {a b c : Number} (ha : a.Ordered) (hb : b.Ordered)
    (h : op.apply a b = .ok c) : c.Ordered := by
  have hint (n : Int) : (decimal (.ofInt n)).Ordered := (ordered_decimal_iff _).mpr rfl
  cases a with
  | int m =>
      cases b with
      | int n =>
          cases h
          exact .inr rfl
      | double w => exact ordered_of_doubles h
      | decimal e => exact ordered_of_decimals hop (hint m) hb h
      | fraction s =>
          cases h
          exact .inr rfl
  | double v =>
      cases b with
      | int n => exact ordered_of_doubles h
      | double w => exact ordered_of_doubles h
      | decimal e => cases h
      | fraction s => exact ordered_of_doubles h
  | decimal d =>
      cases b with
      | int n => exact ordered_of_decimals hop ha (hint n) h
      | double w => cases h
      | decimal e => exact ordered_of_decimals hop ha hb h
      | fraction s => cases h
  | fraction r =>
      cases b with
      | int n =>
          cases h
          exact .inr rfl
      | double w => exact ordered_of_doubles h
      | decimal e => cases h
      | fraction s =>
          cases h
          exact .inr rfl

end Number

namespace Value

variable {a b c v : Value}

theorem ordered_int (n : Int) : (int n).Ordered := ⟨.int n, rfl, .inl rfl⟩

theorem less_int_eq (v : Value) (m : Int) : v.less (.int m) =
    match v.asNumber? with
    | some n => (n.less (.int m)).mapError .number
    | none => .error (.unordered "<" v.kind "int") := by
  cases v <;> rfl

theorem int_less_eq (v : Value) (m : Int) : (int m).less v =
    match v.asNumber? with
    | some n => ((Number.int m).less n).mapError .number
    | none => .error (.unordered "<" "int" v.kind) := by
  cases v <;> rfl

/-- What can be compared with an integer is exactly what counts as a number that can be compared. -/
theorem less_int_iff (v : Value) (m : Int) : (∃ r, v.less (.int m) = .ok r) ↔ v.Ordered := by
  rw [less_int_eq]
  unfold Ordered
  cases v.asNumber? with
  | none => simp
  | some n => simp only [mapError_eq_ok_iff, Number.less_int_iff, Option.some.injEq, exists_eq_left']

theorem int_less_iff (v : Value) (m : Int) : (∃ r, (int m).less v = .ok r) ↔ v.Ordered := by
  rw [int_less_eq]
  unfold Ordered
  cases v.asNumber? with
  | none => simp
  | some n => simp only [mapError_eq_ok_iff, Number.int_less_iff, Option.some.injEq, exists_eq_left']

theorem ordered_operate {op : Number.Operation} (hop : op ≠ .modulo) (ha : a.Ordered) (hb : b.Ordered)
    (h : operate op a b = .ok c) : c.Ordered := by
  obtain ⟨m, hm, hordered⟩ := ha
  obtain ⟨n, hn, hordered'⟩ := hb
  unfold operate at h
  rw [hm, hn] at h
  obtain ⟨result, hresult, rfl⟩ := exists_of_map_mapError h
  exact ⟨result, rfl, Number.ordered_apply hop hordered hordered' hresult⟩

end Value

namespace Gauge

variable {g : Gauge} {n : Value}

/-! ## What gets into a gauge -/

theorem ordered_of_checkAmount (h : checkAmount n = .ok ()) : n.Ordered := by
  unfold checkAmount at h
  cases hless : n.less (.int 0) with
  | error f =>
      rw [hless] at h
      cases h
  | ok r => exact (Value.less_int_iff n 0).mp ⟨r, hless⟩

theorem lesser_cases {a b c : Value} (h : lesser a b = .ok c) : c = a ∨ c = b := by
  unfold lesser at h
  rcases hless : b.less a with f | _ | _ <;> rw [hless] at h
  · cases h
  · cases h
    exact .inl rfl
  · cases h
    exact .inr rfl

/-- What a step with the amount `n` may put into the gauge. -/
inductive Offers (g : Gauge) (n : Value) : Value → Prop
  | current : Offers g n g.current
  | ceiling : Offers g n g.ceiling
  | amount : Offers g n n
  | zero : Offers g n (.int 0)
  | sum {v : Value} : Value.operate .plus g.current n = .ok v → Offers g n v
  | difference {v : Value} : Value.operate .inPlace g.current n = .ok v → Offers g n v

/-- A step leaves the gauge as it is, whether it fails or not, or it puts into it what the amount offers. -/
theorem after_step_cases (a : Action) (n : Value) (g : Gauge) :
    ((a.step n).run.run g).2 = g ∨
      n.Ordered ∧ ∃ current ceiling, ((a.step n).run.run g).2 = ⟨current, ceiling⟩ ∧
        g.Offers n current ∧ g.Offers n ceiling := by
  cases hn : checkAmount n with
  | error f =>
      rw [run_step_of_refused hn]
      exact .inl rfl
  | ok _ =>
      have hordered := ordered_of_checkAmount hn
      cases a with
      | setCurrent =>
          simp only [Action.step, run_map, setCurrent, run_bind, run_ofExcept, run_get, run_set, hn]
          cases hlesser : lesser n g.ceiling with
          | error f => exact .inl rfl
          | ok c =>
              refine .inr ⟨hordered, c, g.ceiling, rfl, ?_, .ceiling⟩
              rcases lesser_cases hlesser with rfl | rfl
              · exact .amount
              · exact .ceiling
      | setCeiling =>
          rw [Action.step, run_map, run_setCeiling_eq, hn]
          cases hlesser : lesser g.current n with
          | error f => exact .inl (by simp only [bind, Except.bind])
          | ok c =>
              refine .inr ⟨hordered, c, n, rfl, ?_, .amount⟩
              rcases lesser_cases hlesser with rfl | rfl
              · exact .current
              · exact .amount
      | add =>
          simp only [Action.step, add, run_bind, run_ofExcept, run_get, hn]
          cases hsum : Value.operate .plus g.current n with
          | error f => exact .inl rfl
          | ok sum =>
              dsimp only
              rcases sum.greater g.ceiling with f | _ | _
              · exact .inl rfl
              · exact .inr ⟨hordered, sum, g.ceiling, rfl, .sum hsum, .ceiling⟩
              · refine .inr ⟨hordered, g.ceiling, g.ceiling, ?_, .ceiling, .ceiling⟩
                cases Value.operate .minus sum g.ceiling <;> rfl
      | sub =>
          simp only [Action.step, sub, run_bind, run_ofExcept, run_get, hn]
          rcases g.current.less n with f | _ | _
          · exact .inl rfl
          · cases hdifference : Value.operate .inPlace g.current n with
            | error f => exact .inl rfl
            | ok difference => exact .inr ⟨hordered, difference, g.ceiling, rfl, .difference hdifference, .ceiling⟩
          · cases Value.operate .minus n g.current with
            | error f => exact .inl rfl
            | ok rest => exact .inr ⟨hordered, .int 0, g.ceiling, rfl, .zero, .ceiling⟩

/-- The counter and the ceiling can be compared with the integers. -/
structure Ordered (g : Gauge) : Prop where
  current : g.current.Ordered
  ceiling : g.ceiling.Ordered

/-- What a gauge is built of: the parts are not negative, nor the counter above the ceiling. -/
theorem checked_of_ofParts {current ceiling : Value} (h : ofParts current ceiling = .ok g) :
    current.less (.int 0) = .ok false ∧ ceiling.less (.int 0) = .ok false ∧ current.greater ceiling = .ok false ∧
      g = ⟨current, ceiling⟩ := by
  rw [ofParts] at h
  obtain ⟨below, hcurrent, h⟩ := exists_of_bind_eq_ok h
  cases below with
  | true => cases h
  | false =>
      obtain ⟨below, hceiling, h⟩ := exists_of_bind_eq_ok h
      cases below with
      | true => cases h
      | false =>
          obtain ⟨above, hgreater, h⟩ := exists_of_bind_eq_ok h
          cases above with
          | true => cases h
          | false =>
              cases h
              exact ⟨hcurrent, hceiling, hgreater, rfl⟩

/-- Every gauge that can be built is one. -/
theorem ordered_of_ofParts {current ceiling : Value} (h : ofParts current ceiling = .ok g) : g.Ordered := by
  obtain ⟨hcurrent, hceiling, -, rfl⟩ := checked_of_ofParts h
  exact ⟨(Value.less_int_iff _ 0).mp ⟨_, hcurrent⟩, (Value.less_int_iff _ 0).mp ⟨_, hceiling⟩⟩

theorem Ordered.of_offers {v : Value} (hg : g.Ordered) (hn : n.Ordered) (h : g.Offers n v) : v.Ordered := by
  cases h with
  | current => exact hg.current
  | ceiling => exact hg.ceiling
  | amount => exact hn
  | zero => exact Value.ordered_int 0
  | sum h => exact Value.ordered_operate (by decide) hg.current hn h
  | difference h => exact Value.ordered_operate (by decide) hg.current hn h

/-- Every action with any amount keeps a gauge one that can be compared. -/
theorem Ordered.step (hg : g.Ordered) (a : Action) (n : Value) : ((a.step n).run.run g).2.Ordered := by
  rcases after_step_cases a n g with hafter | ⟨hn, current, ceiling, hafter, hcurrent, hceiling⟩
  · rwa [hafter]
  · rw [hafter]
    exact ⟨hg.of_offers hn hcurrent, hg.of_offers hn hceiling⟩

/-- A ceiling that is an integer from zero on is never refused. -/
theorem Ordered.run_setCeiling (hg : g.Ordered) {m : Int} (hm : 0 ≤ m) :
    ∃ current, lesser g.current (.int m) = .ok current ∧
      (setCeiling (.int m)).run.run g = (.ok (), ⟨current, .int m⟩) := by
  obtain ⟨r, hless⟩ := (Value.int_less_iff g.current m).mpr hg.current
  have hlesser : ∃ current, lesser g.current (.int m) = .ok current := by
    unfold lesser
    rw [hless]
    cases r with
    | false => exact ⟨_, rfl⟩
    | true => exact ⟨_, rfl⟩
  obtain ⟨current, hlesser⟩ := hlesser
  refine ⟨current, hlesser, ?_⟩
  rw [run_setCeiling_eq, checkAmount_of_nonneg hm, hlesser]
  rfl

end Gauge

end Progression
