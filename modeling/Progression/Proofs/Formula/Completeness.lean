import Progression.Proofs.Formula.Unfinished

/-! # What the predictive reader finds in a derivation

In front of a barrier, the predictive reader finds a derivation if the derivation fits, and is stopped by an
error if not. Where a derivation is broken off at the end of a text, the reader is stuck there, and what
it looked for is what is due. -/

namespace Progression.Recognizer

open Text.Literal (Barrier)

variable {α β : Type}

/-- The finding is `o'` if the condition holds; else an error ends the search. -/
def Yields (condition : Prop) (o o' : Finding α) : Prop :=
  (condition → o = o') ∧ (¬condition → ∃ e, o = .refused e)

theorem yields_of {condition : Prop} {o o' : Finding α} (h : condition) (heq : o = o') : Yields condition o o' :=
  ⟨fun _ => heq, fun hnot => absurd h hnot⟩

theorem yields_of_not {condition : Prop} {e : SyntaxError} (h : ¬condition) (o' : Finding α) :
    Yields condition (.refused e) o' :=
  ⟨fun hcondition => absurd hcondition h, fun _ => ⟨e, rfl⟩⟩

namespace Yields

variable {p q : Prop} {o : Finding α} {a : α} {c : Cursor} {f : α → Cursor → Finding β}

theorem congr {o' : Finding α} (h : Yields p o o') (hpq : p ↔ q) : Yields q o o' :=
  ⟨fun hq => h.1 (hpq.mpr hq), fun hq => h.2 fun hp => hq (hpq.mp hp)⟩

theorem bind {o' : Finding β} (h : Yields p o (.found a c)) (hf : Yields q (f a c) o') :
    Yields (p ∧ q) (o.bind f) o' := by
  by_cases hp : p
  · rw [h.1 hp]
    exact hf.congr (and_iff_right hp).symm
  · obtain ⟨e, he⟩ := h.2 hp
    rw [he]
    exact yields_of_not (fun hpq => hp hpq.1) o'

theorem bind_stuck {place : Nat} {kinds : List TokenKind} (h : Yields p o (.stuck place kinds)) :
    Yields p (o.bind f) (.stuck place kinds) := by
  refine ⟨fun hp => by rw [h.1 hp]; rfl, fun hp => ?_⟩
  obtain ⟨e, he⟩ := h.2 hp
  exact ⟨e, by rw [he]; rfl⟩

theorem map {o' : Finding α} (h : Yields p o o') (g : α → β) : Yields p (o.map g) (o'.map g) := by
  refine ⟨fun hp => by rw [h.1 hp], fun hp => ?_⟩
  obtain ⟨e, he⟩ := h.2 hp
  exact ⟨e, by rw [he]; rfl⟩

/-- What is looked for where nothing was found does not matter further on. -/
theorem orClose {o' : Finding α} {place : Nat} (h : Yields p o o') (ho' : o'.orClose place = o') :
    Yields p (o.orClose place) o' := by
  refine ⟨fun hp => by rw [h.1 hp, ho'], fun hp => ?_⟩
  obtain ⟨e, he⟩ := h.2 hp
  exact ⟨e, by rw [he]; rfl⟩

end Yields

section Steps

variable (expression : Cursor → Finding Reading)

theorem readOperand_open (offset : Nat) (cs : List Char) :
    readOperand expression ⟨offset, '(' :: cs⟩ = (expression ⟨offset, '(' :: cs⟩).map (.nested .subexpression) := by
  have hscan : Text.Literal.scan? ('(' :: cs) = none := scan?_eq_none_of_head (d := '(') (by decide) rfl
  rw [readOperand, hscan]
  rfl

theorem readOperator_append (offset : Nat) (op : Operator) (rest : List Char) :
    readOperator ⟨offset, op.symbol ++ rest⟩ = .found op ⟨offset + op.symbol.length, rest⟩ := by
  cases op <;> rfl

theorem readRest_append (left : Reading) (offset : Nat) (b : Blanks) (op : Operator) (c : Blanks) {rest : List Char}
    (hrest : Unspaced rest) :
    readRest expression left ⟨offset, b.chars ++ (op.symbol ++ (c.chars ++ rest))⟩ =
      (readOperand expression ⟨offset + b.chars.length + op.symbol.length + c.chars.length, rest⟩).bind
        fun right next => readClose (.application op left right) next.skipSpaces := by
  rw [readRest, Cursor.skipSpaces_blanks offset b (op.unspaced _), readOperator_append, Finding.bind,
    Cursor.skipSpaces_blanks _ c hrest]

theorem readRest_blanks (left : Reading) (offset : Nat) (b : Blanks) :
    readRest expression left ⟨offset, b.chars⟩ = .stuck (offset + b.chars.length) operatorKinds := by
  have hskip := @Cursor.skipSpaces_blanks offset b [] fun _ h => nomatch h
  rw [List.append_nil] at hskip
  rw [readRest, hskip]
  rfl

theorem readClose_append (reading : Reading) (offset : Nat) (d : Blanks) (rest : List Char) :
    readClose reading (Cursor.skipSpaces ⟨offset, d.chars ++ ')' :: rest⟩) =
      .found reading ⟨offset + d.chars.length + 1, rest⟩ := by
  rw [Cursor.skipSpaces_blanks offset d (unspaced_cons (by decide))]
  rfl

theorem readClose_blanks (reading : Reading) (offset : Nat) (d : Blanks) :
    readClose reading (Cursor.skipSpaces ⟨offset, d.chars⟩) = .stuck (offset + d.chars.length) [.bracketClose] := by
  have hskip := @Cursor.skipSpaces_blanks offset d [] fun _ h => nomatch h
  rw [List.append_nil] at hskip
  rw [hskip]
  rfl

/-- What follows a left operand, behind a bracket and blanks. -/
def readBehindLeft (a : Blanks) (left : Reading) (c : Cursor) : Finding Reading :=
  if a.chars = [] ∧ isPlain left then
    if c.rest.head? = some ')' then .found left (c.advance 1)
    else (readRest expression left c).orClose c.offset
  else readRest expression left c

theorem readInside_append (offset : Nat) (a : Blanks) {rest : List Char} (hrest : Unspaced rest) :
    readInside expression ⟨offset, a.chars ++ rest⟩ =
      (readOperand expression ⟨offset + a.chars.length, rest⟩).bind (readBehindLeft expression a) := by
  have hskip := Cursor.skipSpaces_blanks offset a hrest
  have hspaces : Cursor.mk (offset + a.chars.length) rest = ⟨offset, a.chars ++ rest⟩ ↔ a.chars = [] := by
    simp [Cursor.mk.injEq]
  rw [readInside, hskip]
  simp only [hspaces]
  rfl

end Steps

theorem readOperand_zero_open (limit offset : Nat) (cs : List Char) :
    readOperand (predict limit 0) ⟨offset, '(' :: cs⟩ = .refused ⟨.tooDeep limit, offset⟩ := by
  rw [readOperand_open]
  rfl

theorem readOperand_succ_open (limit allowance offset : Nat) (cs : List Char) :
    readOperand (predict limit (allowance + 1)) ⟨offset, '(' :: cs⟩ =
      (readInside (predict limit allowance) ⟨offset + 1, cs⟩).map (.nested .subexpression) := by
  rw [readOperand_open]
  rfl

/-- An opening bracket must be one that may still be opened. -/
theorem yields_open (limit : Nat) {p : Nat → Prop} {offset : Nat} {cs : List Char} {o : Finding Reading} (hzero : ¬p 0)
    (hsucc : ∀ allowance, Yields (p (allowance + 1))
      ((readInside (predict limit allowance) ⟨offset + 1, cs⟩).map (.nested .subexpression)) o) (allowance : Nat) :
    Yields (p allowance) (readOperand (predict limit allowance) ⟨offset, '(' :: cs⟩) o := by
  cases allowance with
  | zero =>
      rw [readOperand_zero_open]
      exact yields_of_not hzero o
  | succ allowance =>
      rw [readOperand_succ_open]
      exact hsucc allowance

theorem isPlain_reading (p : Phrase) : isPlain p.reading = true ↔ ∃ l, p = .leaf l := by
  cases p with
  | leaf l => cases l <;> exact iff_of_true rfl ⟨_, rfl⟩
  | bracketed l => exact iff_of_false Bool.false_ne_true nofun
  | application a left b op c right d => exact iff_of_false Bool.false_ne_true nofun

theorem yields_leaf (limit allowance offset : Nat) (l : Leaf) {rest : List Char} (h : Barrier rest) :
    Yields l.InRange (readOperand (predict limit allowance) ⟨offset, l.chars ++ rest⟩)
      (.found l.reading ⟨offset + l.chars.length, rest⟩) := by
  cases l with
  | number n =>
      have hscan := Text.Literal.scan?_spelling_append n.wellFormed h
      rw [readOperand, Leaf.chars, hscan]
      by_cases hinfinite : n.literal.toDouble.isInfinite = true
      · simp only [hinfinite, if_true]
        exact yields_of_not (fun hrange => hrange hinfinite) _
      · simp only [hinfinite]
        refine yields_of hinfinite ?_
        simp [Cursor.advance, Leaf.reading, Numeral.value]
  | unknown => exact yields_of trivial rfl

section Steps

variable {expression : Cursor → Finding Reading} {p q : Prop} {offset : Nat}

theorem leaf_closed (l : Leaf) (offset : Nat) (rest : List Char) :
    readBehindLeft expression .none l.reading ⟨offset, ')' :: rest⟩ = .found l.reading ⟨offset + 1, rest⟩ := by
  rw [readBehindLeft, if_pos ⟨rfl, (isPlain_reading (.leaf l)).mpr ⟨l, rfl⟩⟩]
  rfl

theorem yields_inside {left : Reading} {c : Cursor} {o' : Finding Reading} (a : Blanks) {cs : List Char}
    (hcs : Unspaced cs) (h : Yields p (readOperand expression ⟨offset + a.chars.length, cs⟩) (.found left c))
    (hbehind : Yields q (readBehindLeft expression a left c) o') :
    Yields (p ∧ q) (readInside expression ⟨offset, a.chars ++ cs⟩) o' := by
  rw [readInside_append expression offset a hcs]
  exact h.bind hbehind

/-- Where an operator follows a left operand, no closing bracket does. -/
theorem yields_behindLeft {left : Reading} {o' : Finding Reading} {rest : List Char} (a b : Blanks) (op : Operator)
    (h : Yields q (readRest expression left ⟨offset, b.chars ++ (op.symbol ++ rest)⟩) o')
    (ho' : o'.orClose offset = o') :
    Yields q (readBehindLeft expression a left ⟨offset, b.chars ++ (op.symbol ++ rest)⟩) o' := by
  have hhead : (b.chars ++ (op.symbol ++ rest)).head? ≠ some ')' := by
    intro hhead
    obtain ⟨more, hmore⟩ := List.head?_eq_some_iff.mp hhead
    exact b.operator_ne_close op rest more hmore
  rw [readBehindLeft, if_neg hhead]
  split
  · exact h.orClose ho'
  · exact h

theorem yields_rest {left reading : Reading} {next : Cursor} {o' : Finding Reading} {cs : List Char} (b : Blanks)
    (op : Operator) (c : Blanks) (hcs : Unspaced cs)
    (h : Yields q (readOperand expression ⟨offset + b.chars.length + op.symbol.length + c.chars.length, cs⟩)
      (.found reading next))
    (hclose : readClose (.application op left reading) next.skipSpaces = o') :
    Yields q (readRest expression left ⟨offset, b.chars ++ (op.symbol ++ (c.chars ++ cs))⟩) o' := by
  rw [readRest_append expression left offset b op c hcs]
  exact (h.bind (yields_of trivial hclose)).congr (and_iff_left trivial)

end Steps

/-- A derivation in front of a barrier is found if it fits. -/
theorem yields_phrase (limit : Nat) (p : Phrase) {allowance offset stop : Nat} {rest : List Char} (h : Barrier rest)
    (hstop : stop = offset + p.chars.length) :
    Yields (p.Fits allowance) (readOperand (predict limit allowance) ⟨offset, p.chars ++ rest⟩)
      (.found p.reading ⟨stop, rest⟩) := by
  induction p generalizing allowance offset stop rest with
  | leaf l =>
      subst hstop
      refine (yields_leaf limit allowance offset l h).congr ?_
      exact (and_iff_right (Nat.zero_le allowance)).symm
  | bracketed l =>
      obtain rfl : stop = offset + 1 + l.chars.length + 1 := by
        rw [hstop, Phrase.chars, List.length_cons, List.length_append]
        simp only [List.length_cons, List.length_nil]
        omega
      simp only [Phrase.chars, List.cons_append, List.append_assoc, List.nil_append]
      refine @yields_open limit (fun n => (Phrase.bracketed l).Fits n) _ _ _ (Phrase.not_fits_zero trivial)
        (fun allowance => ?_) allowance
      have hleaf := yields_leaf limit allowance (offset + 1) l (barrier_close rest)
      have hinside := yields_inside .none (l.unspaced (')' :: rest)) hleaf
        (yields_of trivial (leaf_closed l (offset + 1 + l.chars.length) rest))
      refine (hinside.map (Reading.nested .subexpression)).congr ⟨fun hrange => ?_, fun hfits => ⟨hfits.2, trivial⟩⟩
      exact ⟨Nat.succ_le_succ (Nat.zero_le allowance), hrange.1⟩
  | application a left b op c right d ihleft ihright =>
      obtain rfl : stop = offset + 1 + a.chars.length + left.chars.length + b.chars.length + op.symbol.length +
          c.chars.length + right.chars.length + d.chars.length + 1 := by
        rw [hstop]
        simp only [Phrase.chars, List.length_cons, List.length_append, List.length_nil]
        omega
      simp only [Phrase.chars, List.cons_append, List.append_assoc, List.nil_append]
      refine @yields_open limit (fun n => (Phrase.application a left b op c right d).Fits n) _ _ _
        (Phrase.not_fits_zero trivial) (fun allowance => ?_) allowance
      have hright := @ihright allowance (offset + 1 + a.chars.length + left.chars.length + b.chars.length +
        op.symbol.length + c.chars.length) _ _ (d.barrier (barrier_close rest)) rfl
      have hrest := yields_rest b op c (right.unspaced _) hright
        (readClose_append (.application op left.reading right.reading) _ d rest)
      have hleft := @ihleft allowance (offset + 1 + a.chars.length) _ _
        (b.barrier (op.barrier (c.chars ++ (right.chars ++ (d.chars ++ ')' :: rest))))) rfl
      have hinside := yields_inside a (left.unspaced _) hleft (yields_behindLeft a b op hrest rfl)
      exact (hinside.map _).congr Phrase.fits_application.symm

/-! ## Broken derivations -/

theorem unspaced_unfinished (u : Unfinished) : Unspaced u.chars := by
  cases u with
  | start => exact fun _ hc => nomatch hc
  | inLeft a inner => exact unspaced_cons (by decide)
  | behindLeft a left b => exact unspaced_cons (by decide)
  | inRight a left b op c inner => exact unspaced_cons (by decide)
  | behindRight a left b op c right d => exact unspaced_cons (by decide)

theorem Blanks.barrier_chars (b : Blanks) : Barrier b.chars := by
  have h := b.barrier barrier_nil
  rwa [List.append_nil] at h

theorem readBehindLeft_blanks (expression : Cursor → Finding Reading) (a : Blanks) (left : Phrase) (b : Blanks)
    (offset : Nat) : readBehindLeft expression a left.reading ⟨offset, b.chars⟩ =
      .stuck (offset + b.chars.length) (Unfinished.behindLeft a left b).due := by
  have hhead : b.chars.head? ≠ some ')' := by
    intro hhead
    have hspace := b.blank ')' (List.mem_of_mem_head? hhead)
    exact absurd hspace (by decide)
  have hclosable : Phrase.closable a left b = true ↔ (a.chars = [] ∧ isPlain left.reading = true) ∧ b.chars.length = 0 := by
    rw [Unfinished.closable_iff, isPlain_reading, Blanks.eq_none_iff, Blanks.eq_none_iff, List.length_eq_zero_iff,
      and_assoc, and_comm (a := b.chars = [])]
  rw [readBehindLeft, if_neg hhead, readRest_blanks, Unfinished.due]
  split <;> rename_i hplain
  · rw [Finding.orClose]
    by_cases hb : b.chars.length = 0
    · rw [if_pos (show offset + b.chars.length = offset by omega), if_pos (hclosable.mpr ⟨hplain, hb⟩)]
    · rw [if_neg (show ¬offset + b.chars.length = offset by omega), if_neg fun h => hb (hclosable.mp h).2]
  · rw [if_neg fun h => hplain (hclosable.mp h).1]

/-- A break behind the operator is one of the application, since the closing bracket that was looked for before
stands in front of it. -/
theorem yields_behindOperator {limit allowance offset place : Nat} {q : Prop} {kinds : List TokenKind} (a : Blanks)
    (left : Phrase) (b : Blanks) (op : Operator) (more : List Char)
    (hrest : Yields q (readRest (predict limit allowance) left.reading
      ⟨offset + a.chars.length + left.chars.length, b.chars ++ (op.symbol ++ more)⟩) (.stuck place kinds))
    (hplace : offset + a.chars.length + left.chars.length < place) :
    Yields (left.Fits allowance ∧ q)
      (readInside (predict limit allowance) ⟨offset, a.chars ++ (left.chars ++ (b.chars ++ (op.symbol ++ more)))⟩)
      (.stuck place kinds) := by
  have hleft := @yields_phrase limit left allowance (offset + a.chars.length) _ _ (b.barrier (op.barrier more)) rfl
  have hbehind := yields_behindLeft a b op hrest (if_neg (Nat.ne_of_gt hplace))
  exact yields_inside a (left.unspaced _) hleft hbehind

/-- Where a derivation is broken off, what is due is looked for in vain, if the derivation fits. -/
theorem yields_unfinished (limit : Nat) (u : Unfinished) {allowance offset stop : Nat}
    (hstop : stop = offset + u.chars.length) :
    Yields (u.Fits allowance) (readOperand (predict limit allowance) ⟨offset, u.chars⟩) (.stuck stop u.due) := by
  induction u generalizing allowance offset stop with
  | start =>
      subst hstop
      exact yields_of Unfinished.fits_start rfl
  | inLeft a inner ih =>
      obtain rfl : stop = offset + 1 + a.chars.length + inner.chars.length := by
        rw [hstop]
        simp only [Unfinished.chars, List.length_cons, List.length_append]
        omega
      refine @yields_open limit (fun n => (Unfinished.inLeft a inner).Fits n) _ _ _ (Unfinished.not_fits_zero (by rintro ⟨⟩))
        (fun allowance => ?_) allowance
      have hinner := @ih allowance (offset + 1 + a.chars.length) _ rfl
      rw [readInside_append _ _ a (unspaced_unfinished inner)]
      exact (hinner.bind_stuck.map _).congr Unfinished.fits_inLeft.symm
  | behindLeft a left b =>
      obtain rfl : stop = offset + 1 + a.chars.length + left.chars.length + b.chars.length := by
        rw [hstop]
        simp only [Unfinished.chars, List.length_cons, List.length_append]
        omega
      refine @yields_open limit (fun n => (Unfinished.behindLeft a left b).Fits n) _ _ _
        (Unfinished.not_fits_zero (by rintro ⟨⟩)) (fun allowance => ?_) allowance
      have hleft := @yields_phrase limit left allowance (offset + 1 + a.chars.length) _ _ (Blanks.barrier_chars b) rfl
      have hinside := yields_inside a (left.unspaced _) hleft
        (yields_of trivial (readBehindLeft_blanks _ a left b _))
      exact (hinside.map _).congr ((and_iff_left trivial).trans Unfinished.fits_behindLeft.symm)
  | inRight a left b op c inner ih =>
      obtain rfl : stop = offset + 1 + a.chars.length + left.chars.length + b.chars.length + op.symbol.length +
          c.chars.length + inner.chars.length := by
        rw [hstop]
        simp only [Unfinished.chars, List.length_cons, List.length_append]
        omega
      refine @yields_open limit (fun n => (Unfinished.inRight a left b op c inner).Fits n) _ _ _
        (Unfinished.not_fits_zero (by rintro ⟨⟩)) (fun allowance => ?_) allowance
      have hinner := @ih allowance (offset + 1 + a.chars.length + left.chars.length + b.chars.length +
        op.symbol.length + c.chars.length) _ rfl
      have hrest := hinner.bind_stuck (f := fun right next =>
        readClose (.application op left.reading right) next.skipSpaces)
      rw [← readRest_append _ _ _ b op c (unspaced_unfinished inner)] at hrest
      have hop := op.length_symbol_pos
      have hinside := yields_behindOperator a left b op (c.chars ++ inner.chars) hrest (by omega)
      exact (hinside.map _).congr Unfinished.fits_inRight.symm
  | behindRight a left b op c right d =>
      obtain rfl : stop = offset + 1 + a.chars.length + left.chars.length + b.chars.length + op.symbol.length +
          c.chars.length + right.chars.length + d.chars.length := by
        rw [hstop]
        simp only [Unfinished.chars, List.length_cons, List.length_append]
        omega
      refine @yields_open limit (fun n => (Unfinished.behindRight a left b op c right d).Fits n) _ _ _
        (Unfinished.not_fits_zero (by rintro ⟨⟩)) (fun allowance => ?_) allowance
      have hright := @yields_phrase limit right allowance (offset + 1 + a.chars.length + left.chars.length +
        b.chars.length + op.symbol.length + c.chars.length) _ _ (Blanks.barrier_chars d) rfl
      have hrest := yields_rest b op c (right.unspaced _) hright
        (readClose_blanks (.application op left.reading right.reading) _ d)
      have hop := op.length_symbol_pos
      have hinside := yields_behindOperator a left b op (c.chars ++ (right.chars ++ d.chars)) hrest (by omega)
      exact (hinside.map _).congr Unfinished.fits_behindRight.symm

end Progression.Recognizer
