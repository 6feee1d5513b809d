import Mathlib.Control.Monad.Basic
import Progression.Proofs.Formula.ErrorReports
import Progression.Proofs.Text.ExcerptWindow
import Progression.Proofs.Text.Lines
import Progression.Proofs.Text.LiteralLanguage

/-! # The lines of an error message

The message of a syntax error is a headline, an excerpt of the text and a caret line. In the headline texts are
quoted, so it is one line whatever they are. The excerpt shows the text as it is, and a line feed in it begins
another line. In front of the place of the error there is none, since a formula begins so; hence the caret has the
column of the character at that place, but stands directly below it only if no line feed is shown behind it. -/

namespace Progression

open Text (OneLine lines excerptWidth)

theorem Numeral.oneLine_spelling (n : Numeral) : OneLine n.literal.spelling :=
  n.wellFormed.not_mem_spelling (by decide) (by decide)

theorem Leaf.oneLine_chars (l : Leaf) : OneLine l.chars := by
  cases l with
  | number n => exact n.oneLine_spelling
  | unknown =>
      show OneLine ['x']
      decide

theorem Blanks.oneLine_chars (b : Blanks) : OneLine b.chars := fun h => absurd (b.blank '\n' h) (by decide)

theorem Operator.oneLine_symbol (op : Operator) : OneLine op.symbol := by
  cases op <;> decide

theorem Phrase.oneLine_chars (p : Phrase) : OneLine p.chars := by
  have hclose : OneLine [')'] := by decide
  induction p with
  | leaf l => exact l.oneLine_chars
  | bracketed l => exact .cons (by decide) (l.oneLine_chars.append hclose)
  | application a left b op c right d hleft hright =>
      refine .cons (by decide) (a.oneLine_chars.append (hleft.append (b.oneLine_chars.append ?_)))
      exact op.oneLine_symbol.append (c.oneLine_chars.append (hright.append (d.oneLine_chars.append hclose)))

namespace SyntaxError

theorem oneLine_description (kind : TokenKind) : OneLine kind.description := by
  rw [TokenKind.description]
  split
  · exact Text.oneLine_quoted _
  · split <;> decide

theorem oneLine_found (text : List Char) (offset : Nat) : OneLine (found text offset) := by
  rw [found]
  split
  · exact Text.oneLine_quoted _
  · decide

/-- A cause is told in one line. -/
theorem Cause.oneLine_chars (text : List Char) (offset : Nat) (cause : Cause) : OneLine (cause.chars text offset) := by
  cases cause with
  | expected kinds =>
      have hparts : OneLine (commaSeparated ((TokenKind.byDescription.filter (kinds.contains ·)).map
          TokenKind.description)) := by
        refine OneLine.intercalate (by decide) fun part hpart => ?_
        obtain ⟨kind, -, rfl⟩ := List.mem_map.mp hpart
        exact oneLine_description kind
      exact ((OneLine.append (by decide) hparts).append (by decide)).append (oneLine_found text offset)
  | trailing => exact OneLine.append (by decide) (Text.oneLine_quoted _)
  | outOfRange lexeme => exact (OneLine.append (by decide) (Text.oneLine_quoted lexeme)).append (by decide)
  | tooDeep limit => exact (OneLine.append (by decide) (Text.oneLine_decimalDigits limit)).append (by decide)

/-- The message with the place. -/
def headline (text : List Char) (e : SyntaxError) : List Char :=
  "[Parser error] ".toList ++ e.cause.chars text e.offset ++ " (offset ".toList ++ Text.decimalDigits e.offset ++ [')']

theorem oneLine_headline (text : List Char) (e : SyntaxError) : OneLine (e.headline text) := by
  have hcause : OneLine ("[Parser error] ".toList ++ e.cause.chars text e.offset) :=
    OneLine.append (by decide) (e.cause.oneLine_chars text e.offset)
  exact ((hcause.append (by decide)).append (Text.oneLine_decimalDigits e.offset)).append (by decide)

theorem oneLine_caret (column : Nat) : OneLine (List.replicate column ' ' ++ ['^']) := by
  refine OneLine.append (fun h => ?_) (by decide)
  exact absurd (List.eq_of_mem_replicate h) (by decide)

/-- What the excerpt of a message shows. -/
def cut (text : List Char) (e : SyntaxError) : Text.Cut := Text.Cut.ofText text e.offset excerptWidth

variable {text : List Char} {e : SyntaxError}

theorem message_eq (h : e.offset ≤ text.length) : (Fault.syntaxError text e).message.toList =
    e.headline text ++ '\n' :: ((e.cut text).window ++ '\n' :: (List.replicate (e.cut text).column ' ' ++ ['^'])) := by
  -- Stated of any front: a rewriting of the message itself would take its words apart into characters.
  have happend (front window caret : List Char) :
      front ++ [')', '\n'] ++ window ++ '\n' :: caret = front ++ [')'] ++ '\n' :: (window ++ '\n' :: caret) := by
    simp only [List.append_assoc, List.cons_append, List.nil_append]
  have hexcerpt := @Text.excerpt_eq text e.offset excerptWidth h
  have hwindow := congrArg Text.Excerpt.window hexcerpt
  have hcaret := congrArg Text.Excerpt.caret hexcerpt
  calc (Fault.syntaxError text e).message.toList
      = e.chars text := String.toList_ofList
    _ = e.headline text ++ '\n' :: ((Text.excerpt text e.offset excerptWidth).window ++
          '\n' :: (Text.excerpt text e.offset excerptWidth).caret) := happend _ _ _
    _ = _ := by
        rw [hwindow, hcaret]
        rfl

theorem lines_message (h : e.offset ≤ text.length) : lines (Fault.syntaxError text e).message.toList =
    e.headline text :: (lines (e.cut text).window ++ [List.replicate (e.cut text).column ' ' ++ ['^']]) := by
  rw [message_eq h, (oneLine_headline text e).lines_append, lines, List.splitOn_append_cons_self, ← lines, ← lines,
    (oneLine_caret _).lines_eq]

theorem oneLine_mark (part : List Char) : OneLine (Text.Cut.mark part) := by
  rw [Text.Cut.mark]
  split <;> decide

section Front

variable (hfront : OneLine (text.take e.offset))
include hfront

theorem oneLine_before : OneLine (Text.Cut.mark (e.cut text).skipped ++ (e.cut text).before) :=
  (oneLine_mark _).append fun h => hfront (List.mem_of_mem_drop h)

/-- The line feeds of the excerpt are those of the text from the place on. -/
theorem count_window :
    (e.cut text).window.count '\n' = ((text.drop e.offset).take excerptWidth).count '\n' := by
  have hbefore := List.count_eq_zero.mpr (oneLine_before hfront)
  have hrest := List.count_eq_zero.mpr (oneLine_mark (e.cut text).rest)
  rw [Text.Cut.window, ← List.append_assoc, List.count_append, hbefore, List.count_append, hrest, Nat.zero_add,
    Nat.add_zero]
  rfl

/-- The first line of the excerpt has the character at the place in the column of the caret, unless that is a line
feed or the text is at its end: there the line ends. -/
theorem exists_first_line (h : e.offset ≤ text.length) : ∃ top more,
    lines (e.cut text).window = top :: more ∧ top[(e.cut text).column]? = text[e.offset]?.filter (· != '\n') := by
  obtain ⟨more, hmore⟩ := Text.exists_lines_eq_cons (e.cut text).window
  refine ⟨_, more, hmore, ?_⟩
  have hbefore : ∀ c ∈ Text.Cut.mark (e.cut text).skipped ++ (e.cut text).before, (c != '\n') = true := by
    intro c hc
    rw [bne_iff_ne]
    rintro rfl
    exact oneLine_before hfront hc
  have hhead := (Text.Cut.around_ofText h).head?_behind (show 1 ≤ excerptWidth by decide)
  rw [Text.Cut.window, ← List.append_assoc, List.takeWhile_append_of_pos hbefore, Text.Cut.column,
    List.getElem?_append_right (Nat.le_refl _), Nat.sub_self, ← List.head?_eq_getElem?, List.head?_takeWhile]
  exact congrArg _ hhead

end Front

/-- The message is a headline, an excerpt and a caret line, and the caret stands below the character at the place of
the error. -/
def InThreeLines (text : List Char) (e : SyntaxError) : Prop :=
  ∃ top column, lines (Fault.syntaxError text e).message.toList =
      [e.headline text, top, List.replicate column ' ' ++ ['^']] ∧
    (e.offset < text.length → top[column]? = text[e.offset]?)

theorem inThreeLines_iff (h : e.offset ≤ text.length) (hfront : OneLine (text.take e.offset)) :
    e.InThreeLines text ↔ OneLine ((text.drop e.offset).take excerptWidth) := by
  constructor
  · rintro ⟨top, column, hlines, -⟩
    rw [lines_message h] at hlines
    have hlength := congrArg List.length hlines
    simp only [List.length_cons, List.length_append, List.length_nil, Text.length_lines, count_window hfront] at hlength
    exact List.count_eq_zero.mp (by omega)
  · intro hbehind
    have hwindow : OneLine (e.cut text).window :=
      List.count_eq_zero.mp ((count_window hfront).trans (List.count_eq_zero.mpr hbehind))
    refine ⟨(e.cut text).window, (e.cut text).column, ?_, fun _ => ?_⟩
    · rw [lines_message h, hwindow.lines_eq]
      rfl
    · exact (Text.Cut.around_ofText h).getElem?_window (by decide)

/-- In front of the place of an error there is no line feed. -/
theorem Precise.oneLine_take {limit : Nat} (h : e.Precise text limit) : OneLine (text.take e.offset) := by
  obtain ⟨more, f, hread⟩ := h.viable
  obtain ⟨p, -, hchars, -⟩ := Formula.read_eq_ok_iff_phrase.mp hread
  rw [String.toList_ofList] at hchars
  intro hmem
  exact p.oneLine_chars (hchars ▸ List.mem_append_left more hmem)

end SyntaxError

namespace Formula

/-- A text that is refused is refused with a precise report. -/
theorem precise_of_reading {cs : List Char} {limit : Nat} (hlimit : 1 ≤ limit) {e : SyntaxError}
    (h : Recognizer.reading Recognizer.remembering limit cs = .error e) : e.Precise cs limit := by
  cases hpredict : Recognizer.predict limit limit (.start cs) with
  | found r d =>
      rw [Recognizer.reading_of_found hpredict] at h
      split at h <;> rename_i hempty
      · cases h
      · cases h
        exact precise_of_found hlimit hpredict fun hrest => hempty (List.isEmpty_iff.mpr hrest)
  | stuck place kinds =>
      obtain ⟨expected, hreading, hexpected⟩ :=
        Recognizer.reading_of_stuck hpredict (Recognizer.kinds_ne_nil_of_predict hpredict)
      cases hreading.symm.trans h
      exact precise_of_stuck hlimit hpredict hexpected
  | refused e' =>
      cases (Recognizer.reading_of_refused hpredict).symm.trans h
      exact precise_of_refused hlimit hpredict

theorem precise_of_read {text : String} {limit : Int} {shown : List Char} {e : SyntaxError}
    (h : read text limit = .error (.syntaxError shown e)) :
    shown = text.toList ∧ e.Precise text.toList limit.toNat := by
  rw [read] at h
  split at h <;> rename_i hlimit
  · have hworded := Except.error.inj h
    unfold Fault.worded at hworded
    split at hworded <;> cases hworded
  rw [parse] at h
  cases hreading : Recognizer.reading Recognizer.remembering limit.toNat text.toList with
  | error e' =>
      rw [hreading] at h
      cases h
      exact ⟨rfl, precise_of_reading (by omega) hreading⟩
  | ok r =>
      rw [hreading] at h
      change ofReading r = _ at h
      unfold ofReading at h
      cases hformula : r.toFormula with
      | ok f =>
          rw [hformula] at h
          cases h
      | error m =>
          rw [hformula] at h
          have hworded : (Fault.malformed m).worded = .syntaxError shown e := Except.error.inj h
          unfold Fault.worded at hworded
          split at hworded <;> cases hworded

/-- The message of a text that is refused has a headline, the lines of an excerpt, and a caret line. The first line of
the excerpt has the character at the place of the error in the column of the caret. The message is three lines long
exactly if the ten characters from the place on have no line feed among them; each one that they have adds a line
between the character and the caret. -/
theorem read_error_layout (text : String) (limit : Int) {shown : List Char} {e : SyntaxError}
    (h : read text limit = .error (.syntaxError shown e)) :
    shown = text.toList ∧ e.offset ≤ shown.length ∧
      (∃ top more column,
        lines (Fault.syntaxError shown e).message.toList =
            e.headline shown :: top :: (more ++ [List.replicate column ' ' ++ ['^']]) ∧
          lines (Text.excerpt shown e.offset excerptWidth).window = top :: more ∧
          top[column]? = shown[e.offset]?.filter (· != '\n') ∧
          more.length = ((shown.drop e.offset).take excerptWidth).count '\n') ∧
      (e.InThreeLines shown ↔ OneLine ((shown.drop e.offset).take excerptWidth)) := by
  obtain ⟨rfl, hprecise⟩ := precise_of_read h
  have hoffset := hprecise.offset
  have hfront := hprecise.oneLine_take
  obtain ⟨top, more, hlines, hcolumn⟩ := SyntaxError.exists_first_line hfront hoffset
  have hmore := Text.length_lines (e.cut text.toList).window
  rw [hlines, SyntaxError.count_window hfront, List.length_cons] at hmore
  refine ⟨rfl, hoffset, ⟨top, more, (e.cut text.toList).column, ?_, ?_, hcolumn, Nat.succ.inj hmore⟩,
    SyntaxError.inThreeLines_iff hoffset hfront⟩
  · rw [SyntaxError.lines_message hoffset, hlines]
    rfl
  · rw [Text.excerpt_eq hoffset]
    exact hlines

/-- Two lines, of which the first is refused at its second character. -/
def twoLines : String := "(y)\n(x + 1)"

theorem read_twoLines : read twoLines defaultLimit =
    .error (.syntaxError twoLines.toList ⟨.expected [.bracketOpen, .unknown, .number], 1⟩) := by
  decide +kernel

/-- The message on two lines is four lines long. The caret has the column of the `y`, but the second line is between. -/
theorem read_error_layout_two_lines :
    let e : SyntaxError := ⟨.expected [.bracketOpen, .unknown, .number], 1⟩
    read twoLines defaultLimit = .error (.syntaxError twoLines.toList e) ∧
      ∃ column, lines (Fault.syntaxError twoLines.toList e).message.toList =
          [e.headline twoLines.toList, "(y)".toList, "(x + 1)".toList, List.replicate column ' ' ++ ['^']] ∧
        "(y)".toList[column]? = some 'y' := by
  obtain ⟨-, -, ⟨top, more, column, hlines, hwindow, hcolumn, -⟩, -⟩ :=
    read_error_layout twoLines defaultLimit read_twoLines
  have hexcerpt : lines (Text.excerpt twoLines.toList 1 excerptWidth).window = ["(y)".toList, "(x + 1)".toList] := by
    decide
  obtain ⟨rfl, rfl⟩ := List.cons.inj (hwindow.symm.trans hexcerpt)
  exact ⟨read_twoLines, column, hlines, hcolumn⟩

/-- A line feed behind the place of an error parts the excerpt from the caret. -/
theorem excerpt_parted_from_caret :
    ¬∀ (text : String) (limit : Int) (shown : List Char) (e : SyntaxError),
      read text limit = .error (.syntaxError shown e) → e.InThreeLines shown := by
  intro h
  have hthree := h twoLines defaultLimit _ _ read_twoLines
  obtain ⟨-, hprecise⟩ := precise_of_read read_twoLines
  have hone := (SyntaxError.inThreeLines_iff hprecise.offset hprecise.oneLine_take).mp hthree
  exact absurd hone (by decide)

end Formula

end Progression
