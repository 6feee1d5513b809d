/-! # Brackets

How many opening brackets of a text have no partner yet, and how many are open at the deepest place of
a text. A closing bracket without a partner closes nothing. -/

namespace Progression

/-- The number of open brackets behind a character, if there were `n` in front of it. -/
def bracketStep (n : Nat) (c : Char) : Nat :=
  if c = '(' then n + 1 else if c = ')' then n - 1 else n

/-- The number of open brackets behind a text, if there were `n` in front of it. -/
def unclosedFrom (n : Nat) (cs : List Char) : Nat := cs.foldl bracketStep n

/-- The number of open brackets at the deepest place of a text, if there are `n` in front of it. -/
def nestingFrom : Nat → List Char → Nat
  | n, [] => n
  | n, c :: cs => max n (nestingFrom (bracketStep n c) cs)

/-- The number of opening brackets that a text leaves open. -/
def unclosed (cs : List Char) : Nat := unclosedFrom 0 cs

/-- How deep the brackets of a text are nested. -/
def nesting (cs : List Char) : Nat := nestingFrom 0 cs

/-- A text without brackets. -/
def Unbracketed (cs : List Char) : Prop := ∀ c ∈ cs, c ≠ '(' ∧ c ≠ ')'

@[simp] theorem unclosedFrom_nil (n : Nat) : unclosedFrom n [] = n := rfl

@[simp] theorem unclosedFrom_open (n : Nat) (cs : List Char) :
    unclosedFrom n ('(' :: cs) = unclosedFrom (n + 1) cs := rfl

@[simp] theorem unclosedFrom_close (n : Nat) (cs : List Char) :
    unclosedFrom n (')' :: cs) = unclosedFrom (n - 1) cs := rfl

theorem unclosedFrom_append (n : Nat) (cs ds : List Char) :
    unclosedFrom n (cs ++ ds) = unclosedFrom (unclosedFrom n cs) ds :=
  List.foldl_append

@[simp] theorem nestingFrom_open (n : Nat) (cs : List Char) :
    nestingFrom n ('(' :: cs) = max n (nestingFrom (n + 1) cs) := rfl

theorem le_nestingFrom (n : Nat) (cs : List Char) : n ≤ nestingFrom n cs := by
  cases cs with
  | nil => exact Nat.le_refl n
  | cons c cs => exact Nat.le_max_left _ _

theorem nestingFrom_append (n : Nat) (cs ds : List Char) :
    nestingFrom n (cs ++ ds) = max (nestingFrom n cs) (nestingFrom (unclosedFrom n cs) ds) := by
  induction cs generalizing n with
  | nil => exact (Nat.max_eq_right (le_nestingFrom n ds)).symm
  | cons c cs ih =>
      have h := ih (bracketStep n c)
      simp only [List.cons_append, nestingFrom, h, Nat.max_assoc]
      rfl

namespace Unbracketed

variable {cs ds : List Char}

theorem cons {c : Char} (hopen : c ≠ '(') (hclose : c ≠ ')') (h : Unbracketed cs) : Unbracketed (c :: cs) := by
  intro d hd
  rcases List.mem_cons.mp hd with rfl | hd
  · exact ⟨hopen, hclose⟩
  · exact h d hd

theorem append (hcs : Unbracketed cs) (hds : Unbracketed ds) : Unbracketed (cs ++ ds) := by
  intro c hc
  exact (List.mem_append.mp hc).elim (hcs c) (hds c)

theorem unclosedFrom (h : Unbracketed cs) (n : Nat) : unclosedFrom n cs = n := by
  induction cs with
  | nil => rfl
  | cons c cs ih =>
      obtain ⟨hopen, hclose⟩ := h c List.mem_cons_self
      have hstep : bracketStep n c = n := by rw [bracketStep, if_neg hopen, if_neg hclose]
      rw [Progression.unclosedFrom, List.foldl_cons, hstep]
      exact ih fun d hd => h d (List.mem_cons_of_mem c hd)

theorem nestingFrom (h : Unbracketed cs) (n : Nat) : nestingFrom n cs = n := by
  induction cs with
  | nil => rfl
  | cons c cs ih =>
      obtain ⟨hopen, hclose⟩ := h c List.mem_cons_self
      have hstep : bracketStep n c = n := by rw [bracketStep, if_neg hopen, if_neg hclose]
      rw [Progression.nestingFrom, hstep, ih fun d hd => h d (List.mem_cons_of_mem c hd), Nat.max_self]

end Unbracketed
end Progression
