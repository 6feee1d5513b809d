import Progression.Proofs.Formula.ErrorReports

/-! # A higher limit

Two recognizers that differ in the limit only go side by side until one of them meets a bracket too many. What the
one with the higher limit finds from there on lies behind that bracket. So a higher limit changes nothing but
nesting errors, and what it puts in their place lies further on in the text. -/

namespace Progression

namespace Recognizer

variable {α β ι : Type}

/-- From every trace the two runs end alike, unless a bracket too many stops the first one. -/
def UpToLimit (limit : Nat) (run run' : Run α) : Prop :=
  ∀ s, run.run s = run'.run s ∨ ∃ place, run.run s = .error ⟨.tooDeep limit, place⟩

section Runs

variable {limit : Nat}

theorem upToLimit_refl (run : Run α) : UpToLimit limit run run := fun _ => .inl rfl

theorem upToLimit_throw (place : Nat) (run : Run α) : UpToLimit limit (throw ⟨.tooDeep limit, place⟩) run :=
  fun _ => .inr ⟨place, rfl⟩

theorem UpToLimit.bind {run run' : Run α} {f f' : α → Run β} (h : UpToLimit limit run run')
    (hf : ∀ a, UpToLimit limit (f a) (f' a)) : UpToLimit limit (run >>= f) (run' >>= f') := by
  intro s
  rw [StateT.run_bind, StateT.run_bind]
  rcases h s with heq | ⟨place, herror⟩
  · rw [heq]
    cases run'.run s with
    | error e => exact .inl rfl
    | ok found => exact hf found.1 found.2
  · rw [herror]
    exact .inr ⟨place, rfl⟩

theorem UpToLimit.andThen {run run' : Run (Option α)} {f f' : α → Run (Option β)} (h : UpToLimit limit run run')
    (hf : ∀ a, UpToLimit limit (f a) (f' a)) :
    UpToLimit limit (Recognizer.andThen run f) (Recognizer.andThen run' f') := by
  refine h.bind fun found => ?_
  cases found with
  | none => exact upToLimit_refl _
  | some a => exact hf a

theorem UpToLimit.firstOf {runs runs' : ι → Run (Option α)} (h : ∀ i, UpToLimit limit (runs i) (runs' i))
    (l : List ι) : UpToLimit limit (Recognizer.firstOf (l.map runs)) (Recognizer.firstOf (l.map runs')) := by
  induction l with
  | nil => exact upToLimit_refl _
  | cons i l ih =>
      refine (h i).bind fun found => ?_
      cases found with
      | none => exact ih
      | some a => exact upToLimit_refl _

section Expression

variable {expression expression' : Cursor → Run (Option Match)}
  (h : ∀ c, UpToLimit limit (expression c) (expression' c))
include h

theorem upToLimit_operand (c : Cursor) (shape : Shape) :
    UpToLimit limit (operand expression c shape) (operand expression' c shape) := by
  cases shape with
  | number => exact upToLimit_refl _
  | unknown => exact upToLimit_refl _
  | subexpression => exact (h c).bind fun found => upToLimit_refl _

theorem upToLimit_route (c : Cursor) (i : Shape × Operator × Shape ⊕ LeafShape) :
    UpToLimit limit (route expression c i) (route expression' c i) := by
  rcases i with ⟨left, op, right⟩ | shape
  · refine (upToLimit_operand h c.skipSpaces left).andThen fun left => ?_
    refine (upToLimit_refl _).andThen fun op => ?_
    exact (upToLimit_operand h op.2.skipSpaces right).andThen fun right => upToLimit_refl _
  · show UpToLimit limit (bare expression c shape.1) (bare expression' c shape.1)
    rw [bare_eq, bare_eq]
    exact (upToLimit_operand h c shape.1).andThen fun found => upToLimit_refl _

end Expression

/-- With brackets to spare, an expression is looked for in the same way, up to the first bracket too many. -/
theorem upToLimit_expression (limit' spare : Nat) (allowance : Nat) (c : Cursor) :
    UpToLimit limit (expression forgetful limit allowance c) (expression forgetful limit' (allowance + spare) c) := by
  induction allowance generalizing c with
  | zero =>
      have hinside : ∃ inside, expression forgetful limit' (0 + spare) c = bracketed c inside := by
        rw [Nat.zero_add]
        cases spare <;> exact ⟨_, rfl⟩
      obtain ⟨inside, heq⟩ := hinside
      rw [expression, forgetful, heq, bracketed_eq, bracketed_eq]
      exact (upToLimit_refl _).andThen fun next => upToLimit_throw c.offset _
  | succ allowance ih =>
      rw [Nat.succ_add, expression, expression, forgetful, forgetful, bracketed_eq, bracketed_eq]
      refine (upToLimit_refl _).andThen fun next => ?_
      rw [alternatives_eq, alternatives_eq]
      exact UpToLimit.firstOf (upToLimit_route ih next) routes

end Runs

theorem reading_upToLimit {limit limit' : Nat} (h : limit ≤ limit') (text : List Char) :
    reading remembering limit text = reading remembering limit' text ∨
      ∃ place, reading remembering limit text = .error ⟨.tooDeep limit, place⟩ := by
  obtain ⟨spare, rfl⟩ := Nat.exists_eq_add_of_le h
  rw [reading_remembering, reading_remembering, reading, reading]
  have hlockstep : UpToLimit limit (expression forgetful limit limit (.start text))
      (expression forgetful (limit + spare) (limit + spare) (.start text)) :=
    upToLimit_expression (limit + spare) spare limit (.start text)
  rcases hlockstep .start with heq | ⟨place, herror⟩
  · rw [heq]
    exact .inl rfl
  · rw [herror]
    exact .inr ⟨place, rfl⟩

/-! ## Findings -/

namespace Finding

/-- Whatever is found, and an error as well, is at the place or behind it. -/
def NotBefore (n : Nat) : Finding α → Prop
  | found _ next => n ≤ next.offset
  | stuck place _ => n ≤ place
  | refused e => n ≤ e.offset

theorem NotBefore.mono {m n : Nat} {o : Finding α} (h : o.NotBefore n) (hmn : m ≤ n) : o.NotBefore m := by
  cases o with
  | found value next => exact Nat.le_trans hmn h
  | stuck place kinds => exact Nat.le_trans hmn h
  | refused e => exact Nat.le_trans hmn h

theorem NotBefore.bind {n : Nat} {o : Finding α} {f : α → Cursor → Finding β} (h : o.NotBefore n)
    (hf : ∀ value next, (f value next).NotBefore next.offset) : (o.bind f).NotBefore n := by
  cases o with
  | found value next => exact (hf value next).mono h
  | stuck place kinds => exact h
  | refused e => exact h

theorem NotBefore.map {n : Nat} {o : Finding α} (h : o.NotBefore n) (f : α → β) : (o.map f).NotBefore n := by
  cases o <;> exact h

theorem NotBefore.orClose {n : Nat} {o : Finding α} (h : o.NotBefore n) (place : Nat) :
    (o.orClose place).NotBefore n := by
  cases o with
  | found value next => exact h
  | refused e => exact h
  | stuck p kinds =>
      rw [Finding.orClose]
      split <;> exact h

/-- The findings are the same, unless a bracket too many stops the first one; then the second one lies behind
that bracket. -/
def UpToLimit (limit : Nat) (o o' : Finding α) : Prop :=
  o = o' ∨ ∃ place, o = .refused ⟨.tooDeep limit, place⟩ ∧ o'.NotBefore (place + 1)

section UpToLimit

variable {limit : Nat} {o o' : Finding α}

theorem upToLimit_refl (o : Finding α) : UpToLimit limit o o := .inl rfl

theorem UpToLimit.bind {f f' : α → Cursor → Finding β} (h : UpToLimit limit o o')
    (hf : ∀ value next, UpToLimit limit (f value next) (f' value next))
    (hbehind : ∀ value next, (f' value next).NotBefore next.offset) :
    UpToLimit limit (o.bind f) (o'.bind f') := by
  rcases h with rfl | ⟨place, rfl, ho'⟩
  · cases o with
    | found value next => exact hf value next
    | stuck place kinds => exact .inl rfl
    | refused e => exact .inl rfl
  · exact .inr ⟨place, rfl, ho'.bind hbehind⟩

theorem UpToLimit.map (h : UpToLimit limit o o') (f : α → β) : UpToLimit limit (o.map f) (o'.map f) := by
  rcases h with rfl | ⟨place, rfl, ho'⟩
  · exact .inl rfl
  · exact .inr ⟨place, rfl, ho'.map f⟩

theorem UpToLimit.orClose (h : UpToLimit limit o o') (place : Nat) :
    UpToLimit limit (o.orClose place) (o'.orClose place) := by
  rcases h with rfl | ⟨stop, rfl, ho'⟩
  · exact .inl rfl
  · exact .inr ⟨stop, rfl, ho'.orClose place⟩

end UpToLimit

end Finding

theorem notBefore_readClose (reading : Reading) (c : Cursor) : (readClose reading c).NotBefore c.offset := by
  rw [readClose]
  split
  · exact Nat.le_succ _
  · exact Nat.le_refl _

theorem notBefore_readOperator (c : Cursor) : (readOperator c).NotBefore c.offset := by
  rw [readOperator]
  split
  · exact Nat.le_add_right _ _
  · exact Nat.le_refl _

theorem notBefore_readOperand (limit allowance : Nat) (c : Cursor) :
    (readOperand (predict limit allowance) c).NotBefore c.offset := by
  have hexplained := explained_predict limit allowance c
  cases hfinding : readOperand (predict limit allowance) c with
  | found reading next =>
      rw [hfinding] at hexplained
      obtain ⟨p, -, hpasses, -⟩ := hexplained
      exact hpasses.le
  | stuck place kinds =>
      rw [hfinding] at hexplained
      obtain ⟨u, d, hpasses, rfl, -⟩ := hexplained
      exact hpasses.le
  | refused e =>
      rw [hfinding] at hexplained
      obtain ⟨u, d, hpasses, hplace, -⟩ := hexplained
      exact Nat.le_trans hpasses.le (Nat.le_of_eq hplace.symm)

section Expression

variable {expression expression' : Cursor → Finding Reading}

section NotBefore

variable (hbehind : ∀ c, (readOperand expression c).NotBefore c.offset)
include hbehind

theorem notBefore_readRight (op : Operator) (left : Reading) (c : Cursor) :
    ((readOperand expression c.skipSpaces).bind fun right next =>
      readClose (.application op left right) next.skipSpaces).NotBefore c.offset := by
  refine Finding.NotBefore.mono ?_ c.le_skipSpaces
  exact (hbehind _).bind fun right next => (notBefore_readClose _ _).mono next.le_skipSpaces

theorem notBefore_readRest (left : Reading) (c : Cursor) : (readRest expression left c).NotBefore c.offset := by
  refine Finding.NotBefore.mono ?_ c.le_skipSpaces
  exact (notBefore_readOperator _).bind fun op next => notBefore_readRight hbehind op left next

/-- What follows a left operand, which may be a leaf that is closed at once. -/
theorem notBefore_behindLeft {atOnce : Prop} [Decidable atOnce] (left : Reading) (c : Cursor) :
    (if atOnce then
      if c.rest.head? = some ')' then .found left (c.advance 1)
      else (readRest expression left c).orClose c.offset
    else readRest expression left c : Finding Reading).NotBefore c.offset := by
  have hrest := notBefore_readRest hbehind left c
  split
  · split
    · exact Nat.le_succ _
    · exact hrest.orClose _
  · exact hrest

theorem notBefore_readInside (c : Cursor) : (readInside expression c).NotBefore c.offset := by
  rw [readInside]
  refine Finding.NotBefore.mono ?_ c.le_skipSpaces
  exact (hbehind _).bind fun left next => notBefore_behindLeft hbehind left next

end NotBefore

variable {limit : Nat} (h : ∀ c, Finding.UpToLimit limit (expression c) (expression' c))
  (hbehind : ∀ c, (readOperand expression' c).NotBefore c.offset)

include h in
theorem upToLimit_readOperand (c : Cursor) :
    Finding.UpToLimit limit (readOperand expression c) (readOperand expression' c) := by
  rw [readOperand, readOperand]
  split
  · exact Finding.upToLimit_refl _
  · split
    · exact Finding.upToLimit_refl _
    · split
      · exact (h c).map _
      · exact Finding.upToLimit_refl _

include h hbehind

theorem upToLimit_readRest (left : Reading) (c : Cursor) :
    Finding.UpToLimit limit (readRest expression left c) (readRest expression' left c) := by
  refine (Finding.upToLimit_refl _).bind (fun op next => ?_) fun op next => notBefore_readRight hbehind op left next
  refine (upToLimit_readOperand h _).bind (fun right afterRight => Finding.upToLimit_refl _) fun right afterRight => ?_
  exact (notBefore_readClose _ _).mono afterRight.le_skipSpaces

theorem upToLimit_readInside (c : Cursor) :
    Finding.UpToLimit limit (readInside expression c) (readInside expression' c) := by
  rw [readInside, readInside]
  refine (upToLimit_readOperand h _).bind (fun left next => ?_) fun left next =>
    notBefore_behindLeft hbehind left next
  have hrest := upToLimit_readRest h hbehind left next
  split
  · split
    · exact Finding.upToLimit_refl _
    · exact hrest.orClose _
  · exact hrest

end Expression

/-- With brackets to spare, the same is found, or what lies behind the first bracket too many. -/
theorem upToLimit_predict (limit limit' spare allowance : Nat) (c : Cursor) :
    Finding.UpToLimit limit (predict limit allowance c) (predict limit' (allowance + (spare + 1)) c) := by
  induction allowance generalizing c with
  | zero =>
      rw [Nat.zero_add, predict, predict, readOpen, readOpen]
      split
      · exact .inr ⟨c.offset, rfl, notBefore_readInside (notBefore_readOperand limit' spare) (c.advance 1)⟩
      · exact Finding.upToLimit_refl _
  | succ allowance ih =>
      rw [Nat.succ_add, predict, predict, readOpen, readOpen]
      split
      · exact upToLimit_readInside ih (notBefore_readOperand limit' _) (c.advance 1)
      · exact Finding.upToLimit_refl _

/-- A run that is stopped by a bracket too many is one in which the predictive reader is stopped by it. -/
theorem predict_of_reading_tooDeep {limit place : Nat} {text : List Char}
    (h : reading remembering limit text = .error ⟨.tooDeep limit, place⟩) :
    predict limit limit (.start text) = .refused ⟨.tooDeep limit, place⟩ := by
  cases hpredict : predict limit limit (.start text) with
  | found r c =>
      rw [reading_of_found hpredict] at h
      split at h <;> cases h
  | stuck p kinds =>
      obtain ⟨expected, hreading, -⟩ := reading_of_stuck hpredict (kinds_ne_nil_of_predict hpredict)
      cases hreading.symm.trans h
  | refused e =>
      cases (reading_of_refused hpredict).symm.trans h
      rfl

end Recognizer

namespace Formula

open Recognizer (predict reading remembering)

/-- What is found at a place or behind it is a formula, or an error no further in front. -/
theorem parse_of_notBefore {limit n : Nat} {cs : List Char} (h : (predict limit limit (.start cs)).NotBefore n) :
    (∃ f, parse cs limit = .ok f) ∨ ∃ e, parse cs limit = .error (.syntaxError cs e) ∧ n ≤ e.offset := by
  cases hpredict : predict limit limit (.start cs) with
  | found r c =>
      rw [hpredict] at h
      have hreading := Recognizer.reading_of_found hpredict
      split at hreading
      · obtain ⟨p, hp, rfl, -, -⟩ := Recognizer.exists_of_predict hpredict
        exact .inl ⟨p.formula, parse_eq_ok_iff.mpr ⟨_, hreading, Phrase.toFormula_inner hp⟩⟩
      · exact .inr ⟨_, parse_of_error hreading, h⟩
  | stuck place kinds =>
      rw [hpredict] at h
      obtain ⟨expected, hreading, -⟩ :=
        Recognizer.reading_of_stuck hpredict (Recognizer.kinds_ne_nil_of_predict hpredict)
      exact .inr ⟨_, parse_of_error hreading, h⟩
  | refused e =>
      rw [hpredict] at h
      exact .inr ⟨e, parse_of_error (Recognizer.reading_of_refused hpredict), h⟩

theorem parse_higher_limit {limit limit' : Nat} (h : limit ≤ limit') (cs : List Char) :
    parse cs limit = parse cs limit' ∨ ∃ place, parse cs limit = .error (.syntaxError cs ⟨.tooDeep limit, place⟩) ∧
      ((∃ f, parse cs limit' = .ok f) ∨
        ∃ e, parse cs limit' = .error (.syntaxError cs e) ∧ place + 1 ≤ e.offset) := by
  rcases Recognizer.reading_upToLimit h cs with heq | ⟨place, herror⟩
  · left
    rw [parse, parse, heq]
  · rcases Nat.eq_or_lt_of_le h with rfl | hlt
    · exact .inl rfl
    · obtain ⟨spare, rfl⟩ := Nat.exists_eq_add_of_lt hlt
      have hpredict := Recognizer.upToLimit_predict limit (limit + spare + 1) spare limit (.start cs)
      rw [Recognizer.predict_of_reading_tooDeep herror] at hpredict
      rcases hpredict with hsame | ⟨stop, hstop, hbehind⟩
      · left
        rw [parse_of_error herror, parse_of_error (Recognizer.reading_of_refused hsame.symm)]
      · cases hstop
        exact .inr ⟨place, parse_of_error herror, parse_of_notBefore hbehind⟩

/-- Under a higher limit a text is read with the same outcome, unless the lower one ends the reading at a bracket
too many. Then the text is a formula under the higher limit, or its error lies behind that bracket. -/
theorem read_higher_limit (text : String) {limit limit' : Int} (hlimit : 1 ≤ limit) (h : limit ≤ limit') :
    read text limit = read text limit' ∨
      ∃ place, read text limit = .error (.syntaxError text.toList ⟨.tooDeep limit.toNat, place⟩) ∧
        ((∃ f, read text limit' = .ok f) ∨
          ∃ e, read text limit' = .error (.syntaxError text.toList e) ∧ place < e.offset) := by
  have hle : limit.toNat ≤ limit'.toNat := by omega
  rw [read_of_pos text hlimit, read_of_pos text (Int.le_trans hlimit h)]
  exact parse_higher_limit hle text.toList

/-- With one bracket allowed, `((x)` ends at the second one; with two, the operator behind `(x)` is missing. -/
theorem read_higher_limit_unclosed : (1 : Int) ≤ 1 ∧ (1 : Int) ≤ 2 ∧
    ∃ e, read (String.ofList ['(', '(', 'x', ')']) 2 =
      .error (.syntaxError ['(', '(', 'x', ')'] e) ∧ 1 < e.offset := by
  have htext : (String.ofList ['(', '(', 'x', ')']).toList = ['(', '(', 'x', ')'] := String.toList_ofList
  have hlow : read (String.ofList ['(', '(', 'x', ')']) 1 =
      .error (.syntaxError ['(', '(', 'x', ')'] ⟨.tooDeep 1, 1⟩) := by
    rw [read_of_pos _ (Int.le_refl 1), htext]
    rfl
  have hhigh : read (String.ofList ['(', '(', 'x', ')']) 2 =
      .error (.syntaxError ['(', '(', 'x', ')']
        ⟨.expected [.log, .caret, .percent, .slash, .star, .minus, .plus], 4⟩) := by
    rw [read_of_pos _ (by decide), htext]
    rfl
  have h := read_higher_limit (String.ofList ['(', '(', 'x', ')']) (Int.le_refl 1) (by decide : (1 : Int) ≤ 2)
  rw [htext, hlow, hhigh] at h
  rcases h with heq | ⟨place, hplace, ⟨f, hf⟩ | ⟨e, he, hbehind⟩⟩
  · cases heq
  · cases hf
  · cases hplace
    exact ⟨Int.le_refl 1, by decide, e, hhigh.trans he, hbehind⟩

end Formula

end Progression
