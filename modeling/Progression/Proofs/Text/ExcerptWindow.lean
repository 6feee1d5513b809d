import Progression.Text.Excerpt

/-! # What an excerpt shows

A text is cut around an index into what is left out in front, what is shown in front of the index and from it
on, and what is left out behind. An excerpt shows the two parts in the middle, with an ellipsis where something
is left out, and its caret stands below the index. -/

namespace Progression.Text

/-- The four parts of a text around an index. -/
structure Cut where
  skipped : List Char
  before : List Char
  behind : List Char
  rest : List Char

namespace Cut

/-- The parts are those of the text. On either side of the index at most `width` characters are shown, and fewer
only where the text ends. -/
structure Around (text : List Char) (index width : Nat) (cut : Cut) : Prop where
  whole : cut.skipped ++ (cut.before ++ (cut.behind ++ cut.rest)) = text
  place : cut.skipped.length + cut.before.length = index
  before_le : cut.before.length ≤ width
  behind_le : cut.behind.length ≤ width
  before_full : cut.skipped ≠ [] → cut.before.length = width
  behind_full : cut.rest ≠ [] → cut.behind.length = width

/-- What stands for a part that is left out. -/
def mark (part : List Char) : List Char := if part = [] then [] else ellipsis

@[simp] theorem mark_nil : mark [] = [] := rfl

/-- The parts that are shown, with the marks of those that are not. -/
def window (cut : Cut) : List Char := mark cut.skipped ++ (cut.before ++ (cut.behind ++ mark cut.rest))

/-- Where the index is in the window. -/
def column (cut : Cut) : Nat := (mark cut.skipped ++ cut.before).length

/-- The cut that leaves out as little as the width allows. -/
def ofText (text : List Char) (index width : Nat) : Cut where
  skipped := text.take (index - width)
  before := (text.take index).drop (index - width)
  behind := (text.drop index).take width
  rest := text.drop (index + width)

variable {text : List Char} {index width : Nat} {cut : Cut}

theorem around_ofText (h : index ≤ text.length) : Around text index width (ofText text index width) where
  whole := by
    have hbefore : text.take (index - width) ++ (text.take index).drop (index - width) = text.take index := by
      have htake : text.take (index - width) = (text.take index).take (index - width) := by
        rw [List.take_take, Nat.min_eq_left (Nat.sub_le index width)]
      rw [htake, List.take_append_drop]
    have hbehind : (text.drop index).take width ++ text.drop (index + width) = text.drop index := by
      rw [← List.drop_drop, List.take_append_drop]
    simp only [ofText]
    rw [← List.append_assoc, hbefore, hbehind, List.take_append_drop]
  place := by
    simp only [ofText, List.length_take, List.length_drop]
    omega
  before_le := by
    simp only [ofText, List.length_take, List.length_drop]
    omega
  behind_le := by
    simp only [ofText, List.length_take, List.length_drop]
    omega
  before_full := by
    intro hskipped
    have hpos := List.length_pos_iff.mpr hskipped
    simp only [ofText, List.length_take, List.length_drop] at hpos ⊢
    omega
  behind_full := by
    intro hrest
    have hpos := List.length_pos_iff.mpr hrest
    simp only [ofText, List.length_take, List.length_drop] at hpos ⊢
    omega

theorem Around.drop_index (h : Around text index width cut) : text.drop index = cut.behind ++ cut.rest := by
  rw [← h.whole, ← h.place, ← List.append_assoc, ← List.length_append, List.drop_left]

theorem Around.head?_behind (h : Around text index width cut) (hwidth : 1 ≤ width) :
    (cut.behind ++ mark cut.rest).head? = text[index]? := by
  rw [← List.head?_drop, h.drop_index]
  cases hbehind : cut.behind with
  | cons c more => rfl
  | nil =>
      -- Less than the width is shown, so the text ends here.
      have hrest : cut.rest = [] := Decidable.byContradiction fun hrest => by
        have hfull := h.behind_full hrest
        rw [hbehind, List.length_nil] at hfull
        omega
      rw [hrest, mark_nil]

/-- The caret stands below the character at the index. -/
theorem Around.getElem?_window (h : Around text index width cut) (hwidth : 1 ≤ width) :
    cut.window[cut.column]? = text[index]? := by
  rw [window, column, ← List.append_assoc, List.getElem?_append_right (Nat.le_refl _), Nat.sub_self,
    ← List.head?_eq_getElem?, h.head?_behind hwidth]

/-- At the end of the text the caret stands behind the window. -/
theorem Around.column_eq_length (h : Around text index width cut) (hindex : index = text.length) :
    cut.column = cut.window.length := by
  have hdrop := h.drop_index
  rw [hindex, List.drop_length] at hdrop
  obtain ⟨hbehind, hrest⟩ := List.append_eq_nil_iff.mp hdrop.symm
  rw [column, window, hbehind, hrest, mark_nil, List.append_nil, List.append_nil]

end Cut

variable {text : List Char} {index width : Nat}

theorem mark_take {n : Nat} (h : n ≤ text.length) : Cut.mark (text.take n) = if 0 < n then ellipsis else [] := by
  have hiff : text.take n = [] ↔ ¬0 < n := by
    rw [← List.length_eq_zero_iff, List.length_take]
    omega
  simp only [Cut.mark, hiff, ite_not]

theorem mark_drop (text : List Char) (n : Nat) :
    Cut.mark (text.drop n) = if n < text.length then ellipsis else [] := by
  have hiff : text.drop n = [] ↔ ¬n < text.length := by
    rw [List.drop_eq_nil_iff, Nat.not_lt]
  simp only [Cut.mark, hiff, ite_not]

theorem slice_natCast (text : List Char) (start stop : Nat) : slice text start stop = (text.take stop).drop start := by
  have hstop : ¬(stop : Int) < 0 := by omega
  simp only [slice, if_neg hstop, Int.toNat_natCast]

/-- The window between the ellipses. -/
theorem drop_take_eq (h : index ≤ text.length) :
    (text.take (min text.length (index + width))).drop (index - width) =
      (Cut.ofText text index width).before ++ (Cut.ofText text index width).behind := by
  have hlength : index - width ≤ (text.take index).length := by
    rw [List.length_take]
    omega
  rw [Nat.min_comm, ← List.take_eq_take_min, List.take_add, List.drop_append_of_le_length hlength]
  rfl

/-- An excerpt shows the cut around its index. -/
theorem excerpt_eq (h : index ≤ text.length) : excerpt text index width =
    { window := (Cut.ofText text index width).window
      caret := List.replicate (Cut.ofText text index width).column ' ' ++ ['^'] } := by
  have hstart : ((index : Int) - width).toNat = index - width := by omega
  have hstop : min (text.length : Int) (index + width) = (min text.length (index + width) : Nat) := by omega
  have hskipped := @mark_take text (index - width) (by omega)
  have hrest : Cut.mark (text.drop (index + width)) =
      if ((min text.length (index + width) : Nat) : Int) < text.length then ellipsis else [] := by
    have hiff : ((min text.length (index + width) : Nat) : Int) < text.length ↔ index + width < text.length := by omega
    rw [mark_drop]
    simp only [hiff]
  have hcolumn : ((index : Int) - (index - width : Nat) + (Cut.mark (text.take (index - width))).length).toNat =
      (Cut.ofText text index width).column := by
    simp only [Cut.column, Cut.ofText, List.length_append, List.length_drop, List.length_take]
    omega
  simp only [excerpt, hstart, hstop, ← hskipped, ← hrest, hcolumn, slice_natCast, drop_take_eq h]
  simp only [Cut.window, Cut.ofText, List.append_assoc]

/-- An excerpt shows one stretch of the text, as wide as asked for on either side of the index unless the text ends
before, with an ellipsis at exactly the sides where something is left out. The caret stands below the character at
the index, and behind the window at the end of the text. -/
theorem excerpt_faithful (text : List Char) (index width : Nat) (hindex : index ≤ text.length) (hwidth : 1 ≤ width) :
    ∃ cut : Cut, cut.Around text index width ∧
      (excerpt text index width).window = cut.window ∧
      (excerpt text index width).caret = List.replicate cut.column ' ' ++ ['^'] ∧
      (index < text.length → cut.window[cut.column]? = text[index]?) ∧
      (index = text.length → cut.column = cut.window.length) := by
  have haround := @Cut.around_ofText text index width hindex
  rw [excerpt_eq hindex]
  exact ⟨Cut.ofText text index width, haround, rfl, rfl, fun _ => haround.getElem?_window hwidth,
    haround.column_eq_length⟩

/-- Around the place 5, which holds the digit 1, two characters are shown on either side. -/
theorem excerpt_faithful_narrow : 5 ≤ "(x + 1) + 22".toList.length ∧ 1 ≤ 2 ∧
    excerpt "(x + 1) + 22".toList 5 2 = ⟨"...+ 1)...".toList, "     ^".toList⟩ ∧
    ∃ cut : Cut, cut.Around "(x + 1) + 22".toList 5 2 ∧ cut.window = "...+ 1)...".toList ∧ cut.column = 5 ∧
      cut.window[cut.column]? = some '1' := by
  have hindex : 5 ≤ "(x + 1) + 22".toList.length := by decide
  have hexcerpt : excerpt "(x + 1) + 22".toList 5 2 = ⟨"...+ 1)...".toList, "     ^".toList⟩ := by decide
  obtain ⟨cut, haround, hwindow, hcaret, hbelow, -⟩ := excerpt_faithful "(x + 1) + 22".toList 5 2 hindex (by decide)
  have hcolumn := congrArg List.length (hcaret.symm.trans (congrArg Excerpt.caret hexcerpt))
  rw [List.length_append, List.length_replicate] at hcolumn
  refine ⟨hindex, by decide, hexcerpt, cut, haround, ?_, Nat.succ.inj hcolumn, hbelow (by decide)⟩
  exact hwindow.symm.trans (congrArg Excerpt.window hexcerpt)

end Progression.Text
