import Progression.Proofs.Formula.Prediction

/-! # Derivations that are broken off

A derivation may be broken off in front of any of its tokens but the blanks. What stands in front of the
break can always be filled up to a whole derivation, and it tells which kinds of tokens may follow. -/

namespace Progression

open Recognizer (operandKinds operatorKinds)

/-- A derivation of an operand, broken off where a token is due. -/
inductive Unfinished where
  | start
  | inLeft (a : Blanks) (inner : Unfinished)
  | behindLeft (a : Blanks) (left : Phrase) (b : Blanks)
  | inRight (a : Blanks) (left : Phrase) (b : Blanks) (op : Operator) (c : Blanks) (inner : Unfinished)
  | behindRight (a : Blanks) (left : Phrase) (b : Blanks) (op : Operator) (c : Blanks) (right : Phrase)
      (d : Blanks)

namespace Blanks

def none : Blanks := ⟨[], fun _ hc => absurd hc List.not_mem_nil⟩

theorem eq_none_iff {b : Blanks} : b = none ↔ b.chars = [] := Blanks.ext_iff

end Blanks

namespace Phrase

/-- The leaf that the operand is, if it stands between blanks and its bracket at once. -/
def closable (a : Blanks) (left : Phrase) (b : Blanks) : Bool :=
  a.chars.isEmpty && b.chars.isEmpty && (match left with | leaf _ => true | _ => false)

end Phrase

namespace Unfinished

/-- The text in front of the break. -/
def chars : Unfinished → List Char
  | start => []
  | inLeft a inner => '(' :: (a.chars ++ inner.chars)
  | behindLeft a left b => '(' :: (a.chars ++ (left.chars ++ b.chars))
  | inRight a left b op c inner =>
    '(' :: (a.chars ++ (left.chars ++ (b.chars ++ (op.symbol ++ (c.chars ++ inner.chars)))))
  | behindRight a left b op c right d =>
    '(' :: (a.chars ++ (left.chars ++ (b.chars ++ (op.symbol ++ (c.chars ++ (right.chars ++ d.chars))))))

/-- The kinds of tokens that may follow. A leaf right behind its bracket may be closed. -/
def due : Unfinished → List TokenKind
  | start => operandKinds
  | inLeft _ inner => inner.due
  | behindLeft a left b => if Phrase.closable a left b then operatorKinds ++ [.bracketClose] else operatorKinds
  | inRight _ _ _ _ _ inner => inner.due
  | behindRight _ _ _ _ _ _ _ => [.bracketClose]

/-- How many brackets are open at the break. -/
def level : Unfinished → Nat
  | start => 0
  | inLeft _ inner => inner.level + 1
  | behindLeft _ _ _ => 1
  | inRight _ _ _ _ _ inner => inner.level + 1
  | behindRight _ _ _ _ _ _ _ => 1

/-- How deep the brackets in front of the break are nested. -/
def brackets : Unfinished → Nat
  | start => 0
  | inLeft _ inner => inner.brackets + 1
  | behindLeft _ left _ => left.brackets + 1
  | inRight _ left _ _ _ inner => max left.brackets inner.brackets + 1
  | behindRight _ left _ _ _ right _ => max left.brackets right.brackets + 1

/-- No number in front of the break is out of range. -/
def InRange : Unfinished → Prop
  | start => True
  | inLeft _ inner => inner.InRange
  | behindLeft _ left _ => left.InRange
  | inRight _ left _ _ _ inner => left.InRange ∧ inner.InRange
  | behindRight _ left _ _ _ right _ => left.InRange ∧ right.InRange

def Fits (allowance : Nat) (u : Unfinished) : Prop := u.brackets ≤ allowance ∧ u.InRange

theorem due_ne_nil (u : Unfinished) : u.due ≠ [] := by
  induction u with
  | start => exact List.cons_ne_nil _ _
  | inLeft a inner ih => exact ih
  | behindLeft a left b =>
      rw [due]
      split <;> exact List.cons_ne_nil _ _
  | inRight a left b op c inner ih => exact ih
  | behindRight a left b op c right d => exact List.cons_ne_nil _ _

theorem space_not_mem_due (u : Unfinished) : TokenKind.space ∉ u.due := by
  induction u with
  | start => decide
  | inLeft a inner ih => exact ih
  | behindLeft a left b =>
      rw [due]
      split <;> decide
  | inRight a left b op c inner ih => exact ih
  | behindRight a left b op c right d => exact fun h => nomatch List.mem_singleton.mp h

/-- Something is always due that opens no bracket. -/
theorem exists_mem_due (u : Unfinished) : ∃ kind ∈ u.due, kind ≠ .bracketOpen := by
  induction u with
  | start => exact ⟨.unknown, by decide, by decide⟩
  | inLeft a inner ih => exact ih
  | behindLeft a left b =>
      refine ⟨.plus, ?_, by decide⟩
      rw [due]
      split <;> decide
  | inRight a left b op c inner ih => exact ih
  | behindRight a left b op c right d => exact ⟨.bracketClose, List.mem_singleton_self _, by decide⟩

section Fits

variable {allowance : Nat} {a b c d : Blanks} {left right : Phrase} {op : Operator} {inner : Unfinished}

theorem fits_start : start.Fits allowance := ⟨Nat.zero_le _, trivial⟩

theorem fits_inLeft : (inLeft a inner).Fits (allowance + 1) ↔ inner.Fits allowance := by
  rw [Fits, brackets, Nat.add_le_add_iff_right]
  rfl

theorem fits_behindLeft : (behindLeft a left b).Fits (allowance + 1) ↔ left.Fits allowance := by
  rw [Fits, brackets, Nat.add_le_add_iff_right]
  rfl

theorem fits_inRight :
    (inRight a left b op c inner).Fits (allowance + 1) ↔ left.Fits allowance ∧ inner.Fits allowance := by
  rw [Fits, brackets, InRange, Nat.add_le_add_iff_right, Nat.max_le, and_and_and_comm]
  rfl

theorem fits_behindRight :
    (behindRight a left b op c right d).Fits (allowance + 1) ↔ left.Fits allowance ∧ right.Fits allowance := by
  rw [Fits, brackets, InRange, Nat.add_le_add_iff_right, Nat.max_le, and_and_and_comm]
  rfl

theorem not_fits_zero {u : Unfinished} (h : u ≠ start) : ¬u.Fits 0 := by
  intro hfits
  cases u with
  | start => exact h rfl
  | inLeft a inner => exact absurd hfits.1 (Nat.not_succ_le_zero _)
  | behindLeft a left b => exact absurd hfits.1 (Nat.not_succ_le_zero _)
  | inRight a left b op c inner => exact absurd hfits.1 (Nat.not_succ_le_zero _)
  | behindRight a left b op c right d => exact absurd hfits.1 (Nat.not_succ_le_zero _)

end Fits

theorem unclosedFrom_chars (u : Unfinished) (n : Nat) : unclosedFrom n u.chars = n + u.level := by
  induction u generalizing n with
  | start => rfl
  | inLeft a inner ih =>
      simp only [chars, level, unclosedFrom_open, unclosedFrom_append, a.unbracketed.unclosedFrom, ih]
      omega
  | behindLeft a left b =>
      simp only [chars, level, unclosedFrom_open, unclosedFrom_append, a.unbracketed.unclosedFrom,
        b.unbracketed.unclosedFrom, left.unclosedFrom_chars]
  | inRight a left b op c inner ih =>
      simp only [chars, level, unclosedFrom_open, unclosedFrom_append, a.unbracketed.unclosedFrom,
        b.unbracketed.unclosedFrom, c.unbracketed.unclosedFrom, op.unbracketed.unclosedFrom,
        left.unclosedFrom_chars, ih]
      omega
  | behindRight a left b op c right d =>
      simp only [chars, level, unclosedFrom_open, unclosedFrom_append, a.unbracketed.unclosedFrom,
        b.unbracketed.unclosedFrom, c.unbracketed.unclosedFrom, d.unbracketed.unclosedFrom,
        op.unbracketed.unclosedFrom, left.unclosedFrom_chars, right.unclosedFrom_chars]

/-- The number zero. -/
def zero : Numeral where
  literal := ⟨.absent, ['0'], none, none⟩
  wellFormed :=
    { whole := fun c hc => by rw [List.mem_singleton.mp hc]; decide
      fraction := fun _ hc => absurd hc List.not_mem_nil
      nonempty := .inl (List.cons_ne_nil _ _)
      exponent := fun _ he => nomatch he }

theorem zero_inRange : (Leaf.number zero).InRange := by
  show ¬zero.value.isInfinite = true
  decide

/-- The derivation goes on from the break with a token of the kind. -/
def GoesOn (u : Unfinished) (kind : TokenKind) (p : Phrase) : Prop :=
  ∃ before lexeme after, p.tokens = before ++ (kind, lexeme) :: after ∧ written before = u.chars

section GoesOn

variable {kind : TokenKind} {inner : Unfinished} {p : Phrase}

theorem GoesOn.inLeft (h : inner.GoesOn kind p) (a b : Blanks) (op : Operator) (c : Blanks) (right : Phrase)
    (d : Blanks) : (inLeft a inner).GoesOn kind (.application a p b op c right d) := by
  obtain ⟨before, lexeme, after, htokens, hwritten⟩ := h
  refine ⟨(.bracketOpen, ['(']) :: (.space, a.chars) :: before, lexeme,
    after ++ (.space, b.chars) :: (op.token, op.symbol) :: (.space, c.chars) ::
      (right.tokens ++ [(.space, d.chars), (.bracketClose, [')'])]), ?_, ?_⟩
  · simp [Phrase.tokens, htokens]
  · simp [chars, hwritten]

theorem GoesOn.inRight (h : inner.GoesOn kind p) (a : Blanks) (left : Phrase) (b : Blanks) (op : Operator)
    (c d : Blanks) : (inRight a left b op c inner).GoesOn kind (.application a left b op c p d) := by
  obtain ⟨before, lexeme, after, htokens, hwritten⟩ := h
  refine ⟨(.bracketOpen, ['(']) :: (.space, a.chars) ::
      (left.tokens ++ (.space, b.chars) :: (op.token, op.symbol) :: (.space, c.chars) :: before), lexeme,
    after ++ [(.space, d.chars), (.bracketClose, [')'])], ?_, ?_⟩
  · simp [Phrase.tokens, htokens]
  · simp [chars, hwritten]

theorem goesOn_operator (a : Blanks) (left : Phrase) (b : Blanks) (op : Operator) (c : Blanks) (right : Phrase)
    (d : Blanks) : (behindLeft a left b).GoesOn op.token (.application a left b op c right d) := by
  refine ⟨(.bracketOpen, ['(']) :: (.space, a.chars) :: (left.tokens ++ [(.space, b.chars)]), op.symbol,
    (.space, c.chars) :: (right.tokens ++ [(.space, d.chars), (.bracketClose, [')'])]), ?_, ?_⟩
  · simp [Phrase.tokens]
  · simp [chars]

theorem goesOn_close (a : Blanks) (left : Phrase) (b : Blanks) (op : Operator) (c : Blanks) (right : Phrase)
    (d : Blanks) : (behindRight a left b op c right d).GoesOn .bracketClose (.application a left b op c right d) := by
  refine ⟨(.bracketOpen, ['(']) :: (.space, a.chars) :: (left.tokens ++ (.space, b.chars) :: (op.token, op.symbol) ::
    (.space, c.chars) :: (right.tokens ++ [(.space, d.chars)])), [')'], [], ?_, ?_⟩
  · simp [Phrase.tokens]
  · simp [chars]

theorem goesOn_bracketed (l : Leaf) : (behindLeft .none (.leaf l) .none).GoesOn .bracketClose (.bracketed l) := by
  refine ⟨[(.bracketOpen, ['(']), (l.kind, l.chars)], [')'], [], rfl, ?_⟩
  simp [chars, Blanks.none, Phrase.chars]

end GoesOn

theorem closable_iff {a b : Blanks} {left : Phrase} :
    Phrase.closable a left b = true ↔ a = .none ∧ b = .none ∧ ∃ l, left = .leaf l := by
  obtain ⟨a, ha⟩ := a
  obtain ⟨b, hb⟩ := b
  cases left <;> simp [Phrase.closable, Blanks.none]

theorem mem_due_behindLeft {a b : Blanks} {left : Phrase} {kind : TokenKind} :
    kind ∈ (behindLeft a left b).due ↔
      (∃ op : Operator, op.token = kind) ∨ kind = .bracketClose ∧ a = .none ∧ b = .none ∧ ∃ l, left = .leaf l := by
  have hoperator : kind ∈ operatorKinds ↔ ∃ op : Operator, op.token = kind := by
    rw [operatorKinds, List.mem_map]
    exact exists_congr fun op => and_iff_right op.mem_all
  rw [due, ← closable_iff]
  split <;> rename_i hclosable <;> simp [hoperator, hclosable]

/-- Every kind that is due can follow. Unless that opens a bracket, it takes no deeper nesting. -/
theorem exists_goesOn (u : Unfinished) {kind : TokenKind} (hkind : kind ∈ u.due) :
    ∃ p : Phrase, u.GoesOn kind p ∧ (u ≠ start → p.IsExpression) ∧
      ∀ allowance, kind ≠ .bracketOpen → u.Fits allowance → p.Fits allowance := by
  have hunknown (allowance : Nat) : (Phrase.leaf .unknown).Fits allowance := ⟨Nat.zero_le _, trivial⟩
  induction u with
  | start =>
      simp only [due, operandKinds, List.mem_cons, List.not_mem_nil, or_false] at hkind
      rcases hkind with rfl | rfl | rfl
      · refine ⟨.leaf (.number zero), ⟨[], _, [], rfl, rfl⟩, fun h => absurd rfl h, fun allowance _ _ => ?_⟩
        exact ⟨Nat.zero_le _, zero_inRange⟩
      · exact ⟨.leaf .unknown, ⟨[], _, [], rfl, rfl⟩, fun h => absurd rfl h, fun allowance _ _ => hunknown allowance⟩
      · exact ⟨.bracketed .unknown, ⟨[], _, _, rfl, rfl⟩, fun h => absurd rfl h, fun _ hopen _ => absurd rfl hopen⟩
  | inLeft a inner ih =>
      obtain ⟨p, hp, -, hfits⟩ := ih hkind
      refine ⟨_, hp.inLeft a .none .add .none (.leaf .unknown) .none, fun _ => trivial, fun allowance hopen hu => ?_⟩
      obtain _ | allowance := allowance
      · exact absurd hu (not_fits_zero nofun)
      · exact Phrase.fits_application.mpr ⟨hfits allowance hopen (fits_inLeft.mp hu), hunknown allowance⟩
  | behindLeft a left b =>
      rcases mem_due_behindLeft.mp hkind with ⟨op, rfl⟩ | ⟨rfl, rfl, rfl, l, rfl⟩
      · refine ⟨_, goesOn_operator a left b op .none (.leaf .unknown) .none, fun _ => trivial, fun allowance _ hu => ?_⟩
        obtain _ | allowance := allowance
        · exact absurd hu (not_fits_zero nofun)
        · exact Phrase.fits_application.mpr ⟨fits_behindLeft.mp hu, hunknown allowance⟩
      · exact ⟨_, goesOn_bracketed l, fun _ => trivial, fun allowance _ hu => hu⟩
  | inRight a left b op c inner ih =>
      obtain ⟨p, hp, -, hfits⟩ := ih hkind
      refine ⟨_, hp.inRight a left b op c .none, fun _ => trivial, fun allowance hopen hu => ?_⟩
      obtain _ | allowance := allowance
      · exact absurd hu (not_fits_zero nofun)
      · obtain ⟨hleft, hinner⟩ := fits_inRight.mp hu
        exact Phrase.fits_application.mpr ⟨hleft, hfits allowance hopen hinner⟩
  | behindRight a left b op c right d =>
      obtain rfl := List.mem_singleton.mp hkind
      refine ⟨_, goesOn_close a left b op c right d, fun _ => trivial, fun allowance _ hu => ?_⟩
      obtain _ | allowance := allowance
      · exact absurd hu (not_fits_zero nofun)
      · exact Phrase.fits_application.mpr (fits_behindRight.mp hu)

/-! ## Breaking off -/

theorem append_eq_append_cons {α : Type} {l r before after : List α} {x : α} (h : l ++ r = before ++ x :: after) :
    (∃ after', l = before ++ x :: after') ∨ ∃ before', before = l ++ before' ∧ r = before' ++ x :: after := by
  rcases List.append_eq_append_iff.mp h with ⟨before', hbefore, hr⟩ | ⟨more, hl, hmore⟩
  · exact .inr ⟨before', hbefore, hr⟩
  · cases more with
    | nil => exact .inr ⟨[], by rw [hl, List.append_nil, List.append_nil], hmore.symm⟩
    | cons y more =>
        obtain ⟨rfl, -⟩ := List.cons.inj hmore
        exact .inl ⟨more, hl⟩

theorem cons_eq_append_cons {α : Type} {t x : α} {rest before after : List α} (h : t :: rest = before ++ x :: after) :
    before = [] ∧ x = t ∨ ∃ before', before = t :: before' ∧ rest = before' ++ x :: after := by
  cases before with
  | nil => exact .inl ⟨rfl, (List.cons.inj h).1.symm⟩
  | cons token before =>
      obtain ⟨rfl, hrest⟩ := List.cons.inj h
      exact .inr ⟨before, rfl, hrest⟩

/-- A token that is no blank stands behind the blanks in front of it. -/
theorem space_cons_eq_append {kind : TokenKind} {blanks lexeme : List Char}
    {rest before after : List (TokenKind × List Char)} (hkind : kind ≠ .space)
    (h : (TokenKind.space, blanks) :: rest = before ++ (kind, lexeme) :: after) :
    ∃ before', before = (.space, blanks) :: before' ∧ rest = before' ++ (kind, lexeme) :: after :=
  (cons_eq_append_cons h).resolve_left fun ⟨_, heq⟩ => hkind (congrArg Prod.fst heq)

theorem kind_mem_operandKinds (l : Leaf) : l.kind ∈ operandKinds := by
  cases l with
  | number n => exact List.mem_cons_self
  | unknown => exact List.mem_cons_of_mem _ List.mem_cons_self

theorem bracketOpen_mem_operandKinds : TokenKind.bracketOpen ∈ operandKinds := by decide

/-- A derivation can be broken off in front of each of its tokens but the blanks. -/
theorem exists_of_tokens {p : Phrase} {before after : List (TokenKind × List Char)} {kind : TokenKind}
    {lexeme : List Char} (htokens : p.tokens = before ++ (kind, lexeme) :: after) (hkind : kind ≠ .space) :
    ∃ u : Unfinished, u.chars = written before ∧ kind ∈ u.due := by
  induction p generalizing before after with
  | leaf l =>
      rcases cons_eq_append_cons htokens with ⟨rfl, heq⟩ | ⟨before, rfl, hrest⟩
      · exact ⟨start, rfl, by cases heq; exact kind_mem_operandKinds l⟩
      · exact absurd hrest.symm (by simp)
  | bracketed l =>
      rcases cons_eq_append_cons htokens with ⟨rfl, heq⟩ | ⟨before, rfl, hleaf⟩
      · exact ⟨start, rfl, by cases heq; exact bracketOpen_mem_operandKinds⟩
      rcases cons_eq_append_cons hleaf with ⟨rfl, heq⟩ | ⟨before, rfl, hclose⟩
      · exact ⟨inLeft .none start, rfl, by cases heq; exact kind_mem_operandKinds l⟩
      rcases cons_eq_append_cons hclose with ⟨rfl, heq⟩ | ⟨before, rfl, hrest⟩
      · refine ⟨behindLeft .none (.leaf l) .none, by simp [chars, Blanks.none, Phrase.chars], ?_⟩
        exact mem_due_behindLeft.mpr (.inr ⟨congrArg Prod.fst heq, rfl, rfl, l, rfl⟩)
      · exact absurd hrest.symm (by simp)
  | application a left b op c right d ihleft ihright =>
      rcases cons_eq_append_cons htokens with ⟨rfl, heq⟩ | ⟨before, rfl, ha⟩
      · exact ⟨start, rfl, by cases heq; exact bracketOpen_mem_operandKinds⟩
      obtain ⟨before, rfl, hleft⟩ := space_cons_eq_append hkind ha
      rcases append_eq_append_cons hleft with ⟨after', hinner⟩ | ⟨before, rfl, hb⟩
      · obtain ⟨u, hchars, hdue⟩ := ihleft hinner
        exact ⟨inLeft a u, by simp [chars, hchars], hdue⟩
      obtain ⟨before, rfl, hop⟩ := space_cons_eq_append hkind hb
      rcases cons_eq_append_cons hop with ⟨rfl, heq⟩ | ⟨before, rfl, hc⟩
      · refine ⟨behindLeft a left b, by simp [chars], ?_⟩
        exact mem_due_behindLeft.mpr (.inl ⟨op, (congrArg Prod.fst heq).symm⟩)
      obtain ⟨before, rfl, hright⟩ := space_cons_eq_append hkind hc
      rcases append_eq_append_cons hright with ⟨after', hinner⟩ | ⟨before, rfl, hd⟩
      · obtain ⟨u, hchars, hdue⟩ := ihright hinner
        exact ⟨inRight a left b op c u, by simp [chars, hchars], hdue⟩
      obtain ⟨before, rfl, hclose⟩ := space_cons_eq_append hkind hd
      rcases cons_eq_append_cons hclose with ⟨rfl, heq⟩ | ⟨before, rfl, hrest⟩
      · refine ⟨behindRight a left b op c right d, by simp [chars], ?_⟩
        exact List.mem_singleton.mpr (congrArg Prod.fst heq)
      · exact absurd hrest.symm (by simp)

end Unfinished
end Progression
