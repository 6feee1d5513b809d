import Progression.Generator
import Progression.Proofs.Double.Within

/-! # What a generator may produce

The texts that may be produced at a depth are closed off as a relation, which leaves open where the numbers between the
bounds come from. Whatever the draws are, a computation that follows the generator gives one of these texts: a property
that holds of every draw is carried through each of the steps. -/

namespace Progression.Generator

/-- The text of a number between the bounds of its form. -/
inductive NumberText : List Char → Prop where
  | whole {n : Int} (lo : -100 ≤ n) (hi : n ≤ 100) : NumberText (Text.intDigits n)
  | fixed {v : Double} (h : v.Within (-10) 10) : NumberText (v.fixed 3)
  | scientific {v : Double} (h : v.Within 0 10) : NumberText (v.scientificText 2)
  | hundredths {n : Int} (lo : 0 ≤ n) (hi : n ≤ 99) : NumberText ('.' :: Text.intDigits n)

/-- The text of a number or of the unknown, bare or in brackets. -/
inductive LeafText : List Char → Prop where
  | number {cs : List Char} (h : NumberText cs) : LeafText cs
  | unknown : LeafText ['x']
  | bracketedNumber {cs : List Char} (h : NumberText cs) : LeafText ('(' :: (cs ++ [')']))
  | bracketedUnknown : LeafText ['(', 'x', ')']

/-- What may stand between two tokens. -/
def spaces : List (List Char) := [[], [' '], [' ', ' '], ['\t']]

/-- A text with at most so many nested applications that a generator may produce. -/
inductive Produces : Nat → List Char → Prop where
  | leaf {depth : Nat} {cs : List Char} (h : LeafText cs) : Produces depth cs
  | application {depth : Nat} {s₁ left s₂ s₃ right s₄ : List Char} (op : Operator) (h₁ : s₁ ∈ spaces)
      (hleft : Produces depth left) (h₂ : s₂ ∈ spaces) (h₃ : s₃ ∈ spaces) (hright : Produces depth right)
      (h₄ : s₄ ∈ spaces) :
      Produces (depth + 1) ('(' :: (s₁ ++ left ++ s₂ ++ op.symbol ++ s₃ ++ right ++ s₄ ++ [')']))

section Always

variable {α β : Type} {P : α → Prop} {Q : β → Prop} {m : Draw α} {f : α → Draw β}

/-- What a computation gives on a stream of which some draws are taken. -/
def drawn (m : Draw α) (stream : Nat → Nat) (taken : Nat) : α := ((m.run stream).run taken).1

/-- The computation gives something with the property, whatever the draws are and from whichever on. -/
def Always (P : α → Prop) (m : Draw α) : Prop :=
  ∀ stream : Nat → Nat, (∀ i, stream i < drawBound) → ∀ taken, P (drawn m stream taken)

theorem always_true (m : Draw α) : Always (fun _ => True) m := fun _ _ _ => trivial

theorem Always.mono {P' : α → Prop} (hm : Always P m) (h : ∀ a, P a → P' a) : Always P' m :=
  fun stream hstream taken => h _ (hm stream hstream taken)

theorem always_pure {a : α} (h : P a) : Always P (pure a) := fun _ _ _ => h

theorem Always.bind (hm : Always P m) (hf : ∀ a, P a → Always Q (f a)) : Always Q (m >>= f) :=
  fun stream hstream taken => hf _ (hm stream hstream taken) stream hstream _

theorem always_next : Always (· < drawBound) next := fun _ hstream taken => hstream taken

theorem always_fraction : Always (Double.Within 0 1) fraction := by
  refine always_next.bind fun n hn => always_pure ?_
  have hpos : (0 : ℚ) < drawBound := by decide
  have hlt : (n : ℚ) ≤ drawBound := by exact_mod_cast hn.le
  rw [Rat.mkRat_eq_div, Int.cast_natCast]
  refine Double.within_ofRat (by decide) (by decide) ?_ ?_
  · rw [Int.cast_zero]
    exact div_nonneg (Nat.cast_nonneg n) hpos.le
  · rw [Int.cast_one]
    exact (div_le_one hpos).mpr hlt

theorem always_integer {lo hi : Int} (h : lo ≤ hi) : Always (fun n => lo ≤ n ∧ n ≤ hi) (integer lo hi) := by
  refine always_next.bind fun n _ => always_pure ?_
  have hnonneg := Int.emod_nonneg n (show hi - lo + 1 ≠ 0 by omega)
  have hlt := Int.emod_lt_of_pos n (show 0 < hi - lo + 1 by omega)
  omega

theorem always_uniform {lo hi : Int} (hlo : Double.Small lo) (hhi : Double.Small hi)
    (hdistance : Double.Small (hi - lo)) (h : lo ≤ hi) : Always (Double.Within lo hi) (uniform lo hi) :=
  always_fraction.bind fun _ hv => always_pure (Double.within_between hlo hhi hdistance h hv)

/-- Each of the texts may be chosen. -/
theorem always_choose {P : List Char → Prop} {first : List Char} {more : List (List Char)}
    (h : ∀ cs ∈ first :: more, P cs) : Always P (choose first more) := by
  refine always_next.bind fun n _ => always_pure (h _ ?_)
  have hlt : n % (first :: more).length < (first :: more).length := Nat.mod_lt n (Nat.succ_pos _)
  rw [List.getD_eq_getElem?_getD, List.getElem?_eq_getElem hlt, Option.getD_some]
  exact List.getElem_mem hlt

end Always

theorem always_number : Always NumberText number := by
  refine (always_integer (by decide)).bind fun n hn => ?_
  refine (always_uniform (by decide) (by decide) (by decide) (by decide)).bind fun v hv => ?_
  refine (always_uniform (by decide) (by decide) (by decide) (by decide)).bind fun w hw => ?_
  refine (always_integer (by decide)).bind fun k hk => always_choose ?_
  simp only [List.forall_mem_cons]
  exact ⟨.whole hn.1 hn.2, .fixed hv, .scientific hw, .hundredths hk.1 hk.2, List.forall_mem_nil _⟩

theorem always_leaf : Always LeafText leaf := by
  refine always_number.bind fun bare hbare => always_number.bind fun bracketed hbracketed => always_choose ?_
  simp only [List.forall_mem_cons]
  exact ⟨.number hbare, .unknown, .bracketedNumber hbracketed, .bracketedUnknown, List.forall_mem_nil _⟩

theorem always_space : Always (· ∈ spaces) space := always_choose fun _ h => h

/-- One level of a tree, over subtrees that are produced one level deeper down. -/
theorem always_grown {depth : Nat} {subtree : Draw (List Char)} (h : Always (Produces depth) subtree) :
    Always (Produces (depth + 1)) (grown subtree) := by
  refine always_fraction.bind fun v _ => ?_
  split
  · exact always_leaf.mono fun _ => .leaf
  · refine (always_true operator).bind fun op _ => ?_
    refine h.bind fun left hleft => h.bind fun right hright => ?_
    refine always_space.bind fun s₁ h₁ => always_space.bind fun s₂ h₂ => ?_
    refine always_space.bind fun s₃ h₃ => always_space.bind fun s₄ h₄ => always_pure ?_
    exact .application op h₁ hleft h₂ h₃ hright h₄

theorem always_formula (depth : Nat) : Always (Produces depth) (formula depth) := by
  induction depth with
  | zero => exact always_leaf.mono fun _ => .leaf
  | succ depth ih => exact always_grown ih

end Progression.Generator
