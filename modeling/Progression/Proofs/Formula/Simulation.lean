import Progression.Proofs.Formula.Recognition

/-! # Runs side by side

Two recognizers that differ in their memory only are run side by side. Both go through the same places,
and at each place as many brackets are open as the text in front of it has left open. So whatever relates
the traces of the two memories step by step relates the whole runs. -/

namespace Progression.Recognizer

variable {α β ι : Type}

/-- The place is one of the text, and `n` brackets are open in front of it. -/
structure Behind (text : List Char) (n : Nat) (c : Cursor) : Prop where
  rest : c.rest = text.drop c.offset
  unclosed : unclosed (text.take c.offset) = n

theorem behind_start (text : List Char) : Behind text 0 (.start text) := ⟨rfl, rfl⟩

theorem Behind.advance {text : List Char} {n : Nat} {c : Cursor} (h : Behind text n c) (k : Nat) :
    Behind text (unclosedFrom n (c.rest.take k)) (c.advance k) := by
  constructor
  · show c.rest.drop k = text.drop (c.offset + k)
    rw [h.rest, List.drop_drop]
  · show Progression.unclosed (text.take (c.offset + k)) = _
    rw [List.take_add, Progression.unclosed, unclosedFrom_append, ← Progression.unclosed, h.unclosed, h.rest]

theorem Behind.skipSpaces {text : List Char} {n : Nat} {c : Cursor} (h : Behind text n c) :
    Behind text n c.skipSpaces := by
  obtain ⟨b, rest, hrest, hunspaced⟩ := exists_blanks c.rest
  have htake : c.rest.takeWhile TokenKind.isSpace = b.chars := by rw [hrest, b.takeWhile_append hunspaced]
  have hskip := h.advance b.chars.length
  rw [hrest, List.take_left, b.unbracketed.unclosedFrom] at hskip
  rw [Cursor.skipSpaces, htake]
  exact hskip

theorem Behind.unique {text : List Char} {n n' : Nat} {c c' : Cursor} (h : Behind text n c)
    (h' : Behind text n' c') (hoffset : c.offset = c'.offset) : n = n' ∧ c = c' := by
  obtain ⟨offset, rest⟩ := c
  obtain ⟨offset', rest'⟩ := c'
  obtain rfl : offset = offset' := hoffset
  obtain rfl : rest = rest' := h.rest.trans h'.rest.symm
  exact ⟨h.unclosed.symm.trans h'.unclosed, rfl⟩

/-- How many brackets are open behind a token, if there are `n` in front of it. -/
def openBehind (n : Nat) : TokenKind → Nat
  | .bracketOpen => n + 1
  | .bracketClose => n - 1
  | _ => n

theorem openBehind_operator (n : Nat) (op : Operator) : openBehind n op.token = n := by
  cases op <;> rfl

theorem prefix_of_lexeme? {kind : TokenKind} {cs lexeme : List Char} (h : kind.lexeme? cs = some lexeme) :
    lexeme <+: cs := by
  rw [TokenKind.lexeme?] at h
  split at h
  · split at h
    · rename_i hbegins
      obtain rfl := Option.some.inj h
      exact List.isPrefixOf_iff_prefix.mp hbegins
    · cases h
  · split at h
    · obtain ⟨⟨literal, rest⟩, hscan, rfl⟩ := Option.map_eq_some_iff.mp h
      exact ⟨rest, Text.Literal.spelling_append_of_scan? hscan⟩
    · split at h
      · cases h
      · obtain rfl := Option.some.inj h
        exact List.takeWhile_prefix _

theorem unclosedFrom_lexeme {kind : TokenKind} {cs lexeme : List Char} (h : kind.lexeme? cs = some lexeme)
    (n : Nat) : unclosedFrom n lexeme = openBehind n kind := by
  rw [TokenKind.lexeme?] at h
  split at h
  · rename_i spelling hspelling
    split at h
    · obtain rfl := Option.some.inj h
      cases kind <;> cases hspelling <;> rfl
    · cases h
  · rename_i hspelling
    split at h
    · rename_i hnumber
      subst hnumber
      obtain ⟨⟨literal, rest⟩, hscan, rfl⟩ := Option.map_eq_some_iff.mp h
      exact (Text.Literal.wellFormed_of_scan? hscan).unbracketed.unclosedFrom n
    · rename_i hnumber
      have hkind : openBehind n kind = n := by
        cases kind <;> first | rfl | cases hspelling
      split at h
      · cases h
      · obtain rfl := Option.some.inj h
        rw [hkind]
        exact (Blanks.mk _ fun c hc => List.all_eq_true.mp List.all_takeWhile c hc).unbracketed.unclosedFrom n

/-- Whatever is found has the property. -/
def Holds (P : α → Prop) (found : Option α) : Prop := ∀ a ∈ found, P a

/-- From related traces the runs end with the same error, or with the same value and related traces again.
The value has the property. -/
def Simulates (R : Trace → Trace → Prop) (P : α → Prop) (run run' : Run α) : Prop :=
  ∀ s s', R s s' → (∃ e, run.run s = .error e ∧ run'.run s' = .error e) ∨
    ∃ a t t', run.run s = .ok (a, t) ∧ run'.run s' = .ok (a, t') ∧ R t t' ∧ P a

section Simulation

variable {R : Trace → Trace → Prop}

theorem simulates_pure {P : α → Prop} {a : α} (h : P a) : Simulates R P (pure a) (pure a) :=
  fun s s' hs => .inr ⟨a, s, s', rfl, rfl, hs, h⟩

theorem simulates_throw (P : α → Prop) (e : SyntaxError) : Simulates R P (throw e) (throw e) :=
  fun _ _ _ => .inl ⟨e, rfl, rfl⟩

theorem Simulates.bind {P : α → Prop} {Q : β → Prop} {run run' : Run α} {f f' : α → Run β}
    (h : Simulates R P run run') (hf : ∀ a, P a → Simulates R Q (f a) (f' a)) :
    Simulates R Q (run >>= f) (run' >>= f') := by
  intro s s' hs
  rw [StateT.run_bind, StateT.run_bind]
  rcases h s s' hs with ⟨e, hrun, hrun'⟩ | ⟨a, t, t', hrun, hrun', ht, ha⟩
  · rw [hrun, hrun']
    exact .inl ⟨e, rfl, rfl⟩
  · rw [hrun, hrun']
    exact hf a ha t t' ht

theorem Simulates.map {P : α → Prop} {Q : β → Prop} {run run' : Run α} {f : α → β}
    (h : Simulates R P run run') (hf : ∀ a, P a → Q (f a)) : Simulates R Q (f <$> run) (f <$> run') := by
  rw [map_eq_pure_bind, map_eq_pure_bind]
  exact h.bind fun a ha => simulates_pure (hf a ha)

theorem Simulates.andThen {P : α → Prop} {Q : β → Prop} {run run' : Run (Option α)}
    {f f' : α → Run (Option β)} (h : Simulates R (Holds P) run run')
    (hf : ∀ a, P a → Simulates R (Holds Q) (f a) (f' a)) :
    Simulates R (Holds Q) (Recognizer.andThen run f) (Recognizer.andThen run' f') := by
  refine h.bind fun found hfound => ?_
  cases found with
  | none => exact simulates_pure fun _ hb => nomatch hb
  | some a => exact hf a (hfound a rfl)

theorem Simulates.firstOf {P : α → Prop} {runs runs' : ι → Run (Option α)} {l : List ι}
    (h : ∀ i, Simulates R (Holds P) (runs i) (runs' i)) :
    Simulates R (Holds P) (Recognizer.firstOf (l.map runs)) (Recognizer.firstOf (l.map runs')) := by
  induction l with
  | nil => exact simulates_pure fun _ hb => nomatch hb
  | cons i l ih =>
      refine (h i).bind fun found hfound => ?_
      cases found with
      | none => exact ih
      | some a => exact simulates_pure hfound

variable (hmiss : ∀ s s' kind n, R s s' → R (s.miss kind n) (s'.miss kind n))
include hmiss

theorem simulates_attempt {P : α → Prop} (kind : TokenKind) (c : Cursor) {found : Option α} (h : Holds P found) :
    Simulates R (Holds P) (attempt kind c found) (attempt kind c found) := by
  intro s s' hs
  cases found with
  | none => exact .inr ⟨none, _, _, rfl, rfl, hmiss s s' kind c.offset hs, h⟩
  | some a => exact .inr ⟨some a, s, s', rfl, rfl, hs, h⟩

variable {text : List Char} {n : Nat} {c : Cursor}

theorem simulates_token (h : Behind text n c) (kind : TokenKind) :
    Simulates R (Holds (Behind text (openBehind n kind))) (token kind c) (token kind c) := by
  refine simulates_attempt hmiss kind c fun next hnext => ?_
  obtain ⟨lexeme, hlexeme, rfl⟩ := Option.map_eq_some_iff.mp hnext
  obtain ⟨rest, hrest⟩ := prefix_of_lexeme? hlexeme
  have hadvance := h.advance lexeme.length
  rwa [← hrest, List.take_left, unclosedFrom_lexeme hlexeme] at hadvance

/-- A match whose place is one of the text, with `n` brackets open in front of it. -/
def Ends (text : List Char) (n : Nat) (m : Match) : Prop := Behind text n m.2

theorem simulates_number (h : Behind text n c) :
    Simulates R (Holds (Ends text n)) (number c) (number c) := by
  have hscan : Holds (fun found => Text.Literal.scan? c.rest = some found) (Text.Literal.scan? c.rest) :=
    fun found hfound => hfound
  refine (simulates_attempt hmiss .number c hscan).bind fun found hfound => ?_
  cases found with
  | none => exact simulates_pure fun _ hb => nomatch hb
  | some found =>
      obtain ⟨literal, rest⟩ := found
      have hliteral : Text.Literal.scan? c.rest = some (literal, rest) := hfound _ rfl
      show Simulates R _ (if _ then _ else _) (if _ then _ else _)
      split
      · exact simulates_throw _ _
      · refine simulates_pure fun m hm => ?_
        obtain rfl := Option.some.inj hm
        have hadvance := h.advance literal.spelling.length
        rw [← Text.Literal.spelling_append_of_scan? hliteral, List.take_left,
          (Text.Literal.wellFormed_of_scan? hliteral).unbracketed.unclosedFrom] at hadvance
        exact hadvance

theorem simulates_closed (h : Behind text (n + 1) c) (reading : Reading) :
    Simulates R (Holds (Ends text n)) (closed reading c) (closed reading c) := by
  refine (simulates_token hmiss h .bracketClose).bind fun found hfound => simulates_pure fun m hm => ?_
  obtain ⟨next, hnext, rfl⟩ := Option.map_eq_some_iff.mp hm
  exact hfound next hnext

section Expression

variable {expression expression' : Cursor → Run (Option Match)}
  (hexpression : ∀ c, Behind text n c → Simulates R (Holds (Ends text n)) (expression c) (expression' c))
include hexpression

theorem simulates_operand (h : Behind text n c) (shape : Shape) :
    Simulates R (Holds (Ends text n)) (operand expression c shape) (operand expression' c shape) := by
  cases shape with
  | number => exact simulates_number hmiss h
  | unknown =>
      refine (simulates_token hmiss h .unknown).bind fun found hfound => simulates_pure fun m hm => ?_
      obtain ⟨next, hnext, rfl⟩ := Option.map_eq_some_iff.mp hm
      exact hfound next hnext
  | subexpression =>
      refine (hexpression c h).bind fun found hfound => simulates_pure fun m hm => ?_
      obtain ⟨inner, hinner, rfl⟩ := Option.map_eq_some_iff.mp hm
      exact hfound inner hinner

end Expression

variable {expression expression' : Cursor → Run (Option Match)}
  (hexpression : ∀ c, Behind text (n + 1) c →
    Simulates R (Holds (Ends text (n + 1))) (expression c) (expression' c))
include hexpression

theorem simulates_route (h : Behind text (n + 1) c) (i : Shape × Operator × Shape ⊕ LeafShape) :
    Simulates R (Holds (Ends text n)) (route expression c i) (route expression' c i) := by
  rcases i with ⟨left, op, right⟩ | shape
  · refine (simulates_operand hmiss hexpression h.skipSpaces left).andThen fun left hleft => ?_
    have htoken := simulates_token hmiss (Behind.skipSpaces hleft) op.token
    rw [openBehind_operator] at htoken
    refine Simulates.andThen (P := fun found => Behind text (n + 1) found.2) (htoken.map ?_) fun found hfound => ?_
    · intro next hnext found hfound
      obtain ⟨c, hc, rfl⟩ := Option.map_eq_some_iff.mp hfound
      exact hnext c hc
    · refine (simulates_operand hmiss hexpression (Behind.skipSpaces hfound) right).andThen fun right hright => ?_
      exact simulates_closed hmiss (Behind.skipSpaces hright) _
  · show Simulates R _ (bare expression c shape.1) (bare expression' c shape.1)
    rw [bare_eq, bare_eq]
    refine (simulates_operand hmiss hexpression h shape.1).andThen fun found hfound => ?_
    exact simulates_closed hmiss hfound found.1

end Simulation

/-- What an expression does if it is not remembered. -/
def afresh (memory : Memory) (limit : Nat) : Nat → Cursor → Run (Option Match)
  | 0, c => bracketed c fun _ => throw ⟨.tooDeep limit, c.offset⟩
  | allowance + 1, c =>
    bracketed c fun next => firstOf (alternatives (expression memory limit allowance) next)

theorem expression_eq (memory : Memory) (limit allowance : Nat) (c : Cursor) :
    expression memory limit allowance c = memory allowance c (afresh memory limit allowance c) := by
  cases allowance <;> rfl

/-- If two memories keep related traces related, whole expressions do. -/
theorem simulates_expression {R : Trace → Trace → Prop} {text : List Char} {limit : Nat} {memory memory' : Memory}
    (hmiss : ∀ s s' kind n, R s s' → R (s.miss kind n) (s'.miss kind n))
    (hmemory : ∀ allowance n c, Behind text n c → allowance + n = limit →
      Simulates R (Holds (Ends text n)) (afresh memory limit allowance c) (afresh memory' limit allowance c) →
      Simulates R (Holds (Ends text n)) (memory allowance c (afresh memory limit allowance c))
        (memory' allowance c (afresh memory' limit allowance c)))
    {allowance n : Nat} {c : Cursor} (h : Behind text n c) (hlimit : allowance + n = limit) :
    Simulates R (Holds (Ends text n)) (expression memory limit allowance c) (expression memory' limit allowance c) := by
  induction allowance generalizing n c with
  | zero =>
      rw [expression_eq, expression_eq]
      refine hmemory 0 n c h hlimit ?_
      rw [afresh, afresh, bracketed_eq]
      exact (simulates_token hmiss h .bracketOpen).andThen fun _ _ => simulates_throw _ _
  | succ allowance ih =>
      rw [expression_eq, expression_eq]
      refine hmemory (allowance + 1) n c h hlimit ?_
      rw [afresh, afresh, bracketed_eq, bracketed_eq]
      refine (simulates_token hmiss h .bracketOpen).andThen fun next hnext => ?_
      rw [alternatives_eq, alternatives_eq]
      exact Simulates.firstOf fun i =>
        simulates_route hmiss (fun c hc => ih hc (by omega)) hnext i

end Progression.Recognizer
