import Progression.Proofs.Formula.Phrase

/-! # The grammar is unambiguous

Two phrases that write the same text are equal. More is true: where two texts agree that begin with
phrases and go on behind them with something that carries no literal on, the phrases are equal and so is
what follows them. The two phrases are read side by side from the left; at each place the next character
decides how both of them go on. -/

namespace Progression

open Text.Literal (Barrier)

theorem barrier_cons {c : Char} {cs : List Char} (h : ¬Text.isDigit c ∧ c ≠ '.' ∧ c ≠ 'e' ∧ c ≠ 'E') :
    Barrier (c :: cs) := by
  intro d hd
  obtain rfl := Option.some.inj hd
  exact h

theorem barrier_nil : Barrier [] := fun _ hc => by cases hc

theorem barrier_close (cs : List Char) : Barrier (')' :: cs) := barrier_cons (by decide)

theorem Operator.barrier (op : Operator) (cs : List Char) : Barrier (op.symbol ++ cs) := by
  cases op <;> exact barrier_cons (by decide)

theorem Blanks.barrier (b : Blanks) {cs : List Char} (h : Barrier cs) : Barrier (b.chars ++ cs) := by
  obtain ⟨chars, blank⟩ := b
  cases chars with
  | nil => exact h
  | cons c chars =>
      have hspace := blank c List.mem_cons_self
      rcases (by simpa [TokenKind.isSpace] using hspace : c = ' ' ∨ c = '\t') with rfl | rfl <;>
        exact barrier_cons (by decide)

theorem unspaced_cons {c : Char} {cs : List Char} (h : ¬TokenKind.isSpace c) : Unspaced (c :: cs) := by
  intro d hd
  obtain rfl := Option.some.inj hd
  exact h

theorem Operator.unspaced (op : Operator) (cs : List Char) : Unspaced (op.symbol ++ cs) := by
  cases op <;> exact unspaced_cons (by decide)

theorem Blanks.takeWhile_append (b : Blanks) {cs : List Char} (h : Unspaced cs) :
    (b.chars ++ cs).takeWhile TokenKind.isSpace = b.chars := by
  rw [List.takeWhile_append_of_pos b.blank]
  cases cs with
  | nil => simp
  | cons c cs => rw [List.takeWhile_cons_of_neg (h c rfl), List.append_nil]

theorem Blanks.append_inj {a b : Blanks} {cs ds : List Char} (hcs : Unspaced cs) (hds : Unspaced ds)
    (h : a.chars ++ cs = b.chars ++ ds) : a = b ∧ cs = ds := by
  have htake := congrArg (List.takeWhile TokenKind.isSpace) h
  rw [a.takeWhile_append hcs, b.takeWhile_append hds] at htake
  rw [htake] at h
  exact ⟨Blanks.ext htake, List.append_cancel_left h⟩

theorem Operator.append_inj {op op' : Operator} {cs ds : List Char}
    (h : op.symbol ++ cs = op'.symbol ++ ds) : op = op' ∧ cs = ds := by
  cases op <;> cases op' <;> simp_all [Operator.symbol]

theorem Operator.append_ne_close (op : Operator) (cs ds : List Char) : op.symbol ++ cs ≠ ')' :: ds := by
  cases op <;> simp [Operator.symbol]

/-- Behind blanks, an operator is no closing bracket. -/
theorem Blanks.operator_ne_close (b : Blanks) (op : Operator) (cs ds : List Char) :
    b.chars ++ (op.symbol ++ cs) ≠ ')' :: ds := by
  intro h
  obtain ⟨-, hcs⟩ := Blanks.append_inj (b := ⟨[], by simp⟩) (op.unspaced cs)
    (unspaced_cons (by decide)) h
  exact op.append_ne_close cs ds hcs

theorem Leaf.append_inj {l l' : Leaf} {cs ds : List Char} (hcs : Barrier cs) (hds : Barrier ds)
    (h : l.chars ++ cs = l'.chars ++ ds) : l = l' ∧ cs = ds := by
  cases l with
  | number n =>
      cases l' with
      | number n' =>
          have hscan := Text.Literal.scan?_spelling_append n.wellFormed hcs
          have hscan' := Text.Literal.scan?_spelling_append n'.wellFormed hds
          rw [Leaf.chars, Leaf.chars] at h
          rw [h, hscan'] at hscan
          obtain ⟨hliteral, hrest⟩ := Prod.mk.inj (Option.some.inj hscan)
          exact ⟨congrArg Leaf.number (Numeral.ext hliteral.symm), hrest.symm⟩
      | unknown =>
          obtain ⟨c, more, hspelling, hstart⟩ := n.wellFormed.head_spelling
          rw [Leaf.chars, hspelling] at h
          obtain rfl := (List.cons.inj h).1
          exact absurd hstart (by decide)
  | unknown =>
      cases l' with
      | number n' =>
          obtain ⟨c, more, hspelling, hstart⟩ := n'.wellFormed.head_spelling
          rw [Leaf.chars, Leaf.chars, hspelling] at h
          obtain rfl := (List.cons.inj h).1
          exact absurd hstart (by decide)
      | unknown => exact ⟨rfl, (List.cons.inj h).2⟩

theorem Leaf.append_ne_open (l : Leaf) (cs ds : List Char) : l.chars ++ cs ≠ '(' :: ds := by
  intro h
  obtain ⟨c, more, hchars, hc⟩ := l.head_chars
  rw [hchars] at h
  obtain rfl := (List.cons.inj h).1
  rcases hc with hc | hc <;> exact absurd hc (by decide)

namespace Phrase

/-- A leaf in front of a text is no other phrase. -/
theorem leaf_append_inj {l : Leaf} {p : Phrase} {cs ds : List Char} (hcs : Barrier cs) (hds : Barrier ds)
    (h : l.chars ++ cs = p.chars ++ ds) : p = leaf l ∧ cs = ds := by
  cases p with
  | leaf l' =>
      obtain ⟨rfl, hrest⟩ := Leaf.append_inj hcs hds h
      exact ⟨rfl, hrest⟩
  | bracketed l' => exact absurd h (l.append_ne_open _ _)
  | application a left b op c right d => exact absurd h (l.append_ne_open _ _)

/-- Brackets around a leaf are no application. -/
theorem bracketed_ne_application (l : Leaf) (a : Blanks) (left : Phrase) (b : Blanks) (op : Operator)
    (cs ds : List Char) :
    l.chars ++ ')' :: cs ≠ a.chars ++ (left.chars ++ (b.chars ++ (op.symbol ++ ds))) := by
  intro h
  obtain ⟨-, hrest⟩ := Blanks.append_inj (a := ⟨[], by simp⟩) (l.unspaced _) (left.unspaced _) h
  obtain ⟨-, hclose⟩ := leaf_append_inj (barrier_close cs) (b.barrier (op.barrier ds)) hrest
  exact b.operator_ne_close op ds cs hclose.symm

theorem append_inj {p q : Phrase} {cs ds : List Char} (hcs : Barrier cs) (hds : Barrier ds)
    (h : p.chars ++ cs = q.chars ++ ds) : p = q ∧ cs = ds := by
  induction p generalizing q cs ds with
  | leaf l =>
      obtain ⟨rfl, hrest⟩ := leaf_append_inj hcs hds h
      exact ⟨rfl, hrest⟩
  | bracketed l =>
      cases q with
      | leaf l' => exact absurd h.symm (l'.append_ne_open _ _)
      | bracketed l' =>
          simp only [chars, List.cons_append, List.append_assoc, List.cons.injEq, true_and] at h
          obtain ⟨rfl, hrest⟩ := Leaf.append_inj (barrier_close _) (barrier_close _) h
          exact ⟨rfl, (List.cons.inj hrest).2⟩
      | application a left b op c right d =>
          simp only [chars, List.cons_append, List.append_assoc, List.cons.injEq, true_and] at h
          exact absurd h (bracketed_ne_application l a left b op _ _)
  | application a left b op c right d ihleft ihright =>
      cases q with
      | leaf l' => exact absurd h.symm (l'.append_ne_open _ _)
      | bracketed l' =>
          simp only [chars, List.cons_append, List.append_assoc, List.cons.injEq, true_and] at h
          exact absurd h.symm (bracketed_ne_application l' a left b op _ _)
      | application a' left' b' op' c' right' d' =>
          simp only [chars, List.cons_append, List.append_assoc, List.cons.injEq, true_and] at h
          obtain ⟨rfl, hleft⟩ := Blanks.append_inj (left.unspaced _) (left'.unspaced _) h
          obtain ⟨rfl, hb⟩ := ihleft (b.barrier (op.barrier _)) (b'.barrier (op'.barrier _)) hleft
          obtain ⟨rfl, hop⟩ := Blanks.append_inj (op.unspaced _) (op'.unspaced _) hb
          obtain ⟨rfl, hc⟩ := Operator.append_inj hop
          obtain ⟨rfl, hright⟩ := Blanks.append_inj (right.unspaced _) (right'.unspaced _) hc
          obtain ⟨rfl, hd⟩ := ihright (d.barrier (barrier_close _)) (d'.barrier (barrier_close _)) hright
          obtain ⟨rfl, hclose⟩ := Blanks.append_inj (unspaced_cons (by decide)) (unspaced_cons (by decide)) hd
          exact ⟨rfl, (List.cons.inj hclose).2⟩

/-- A text has at most one derivation. -/
theorem chars_injective {p q : Phrase} (h : p.chars = q.chars) : p = q := by
  have happend : p.chars ++ [] = q.chars ++ [] := by rw [h]
  exact (append_inj barrier_nil barrier_nil happend).1

end Phrase
end Progression
