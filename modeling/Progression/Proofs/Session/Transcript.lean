import Progression.Session
import Progression.Proofs.Formula.ErrorReports
import Progression.Proofs.Machine.Standard

/-! # Transcripts

A session answers every line and comes to the end of its input. What it prints for a line that begins with a
bracket depends on that line alone; for any other line it depends on the line and on the last line before it
that was accepted as a formula. So lines that are not accepted leave no trace in what is printed later. -/

namespace Progression.Session

/-- The formula that a line is accepted as, if it is accepted. -/
def accepted? (line : String) : Option Formula :=
  (Formula.parse (Text.strip line.toList) Formula.defaultLimit).toOption

/-- The formula of the last of some lines that is accepted as one, or else the one before them. -/
def currentAfter (current : Formula) (lines : List String) : Formula :=
  (lines.filterMap accepted?).getLast?.getD current

/-- What is printed for a line that begins with a bracket: the formula, or what is wrong with the line. -/
def formulaReply (line : List Char) : String :=
  match Formula.parse line Formula.defaultLimit with
  | .ok f => "formula: " ++ f.toText ++ "\n"
  | .error fault => fault.message ++ "\n"

/-- What is printed for a line that should write a value: the value of the formula there, or a hint. -/
def valueReply (f : Formula) (line : List Char) : String :=
  match Double.read? line with
  | some v => (f.eval v).toText ++ "\n"
  | none => "Enter a formula like (x ^ 2) or a value for x, got " ++ String.ofList (Text.quoted line) ++ "\n"

/-- What is printed for a line while a formula is current. -/
def reply (current : Formula) (line : String) : String :=
  match Text.strip line.toList with
  | [] => ""
  | '(' :: rest => formulaReply ('(' :: rest)
  | line => valueReply current line

theorem enterFormula_eq (current : Formula) (line : List Char) :
    enterFormula current line =
      .ok ⟨(Formula.parse line Formula.defaultLimit).toOption.getD current, formulaReply line⟩ := by
  unfold enterFormula formulaReply
  rcases Formula.parse_cases line Formula.defaultLimit with ⟨f, hf⟩ | ⟨e, he⟩
  · rw [hf]
    rfl
  · rw [he]
    rfl

/-- Every formula has a value at every double, not-a-number and the infinities included. -/
theorem evaluateAt_eq (current : Formula) (line : List Char) :
    evaluateAt current line = .ok ⟨current, valueReply current line⟩ := by
  unfold evaluateAt valueReply
  cases Double.read? line with
  | none => rfl
  | some v => rfl

/-- Only what begins with a bracket is accepted. -/
theorem head_strip_of_accepted {line : String} {f : Formula} (h : accepted? line = some f) :
    (Text.strip line.toList).head? = some '(' := by
  unfold accepted? at h
  cases hparse : Formula.parse (Text.strip line.toList) Formula.defaultLimit with
  | error fault =>
      rw [hparse] at h
      cases h
  | ok g =>
      obtain ⟨p, hp, hchars, -, -⟩ := Formula.parse_eq_ok_iff_phrase.mp hparse
      obtain ⟨more, hmore⟩ := Phrase.head_chars_of_isExpression hp
      rw [← hchars, hmore]
      rfl

theorem accepted?_eq_none {line : String} (h : (Text.strip line.toList).head? ≠ some '(') : accepted? line = none :=
  Option.eq_none_iff_forall_ne_some.mpr fun _ haccepted => h (head_strip_of_accepted haccepted)

/-- The three kinds of lines, by what is left of them without the blanks at either end. -/
theorem strip_cases (line : String) :
    Text.strip line.toList = [] ∨ (∃ rest, Text.strip line.toList = '(' :: rest) ∨
      ∃ c rest, c ≠ '(' ∧ Text.strip line.toList = c :: rest := by
  cases Text.strip line.toList with
  | nil => exact .inl rfl
  | cons c rest =>
      by_cases hc : c = '('
      · exact .inr (.inl ⟨rest, by rw [hc]⟩)
      · exact .inr (.inr ⟨c, rest, hc, rfl⟩)

section Value

variable {line : String} {c : Char} {rest : List Char} (hc : c ≠ '(') (h : Text.strip line.toList = c :: rest)
include hc h

theorem answer_of_value (current : Formula) : answer current line = evaluateAt current (c :: rest) := by
  unfold answer
  rw [h]
  split
  · contradiction
  · grind
  · rfl

theorem reply_of_value (current : Formula) : reply current line = valueReply current (c :: rest) := by
  unfold reply
  rw [h]
  split
  · contradiction
  · grind
  · rfl

end Value

/-- No line ends a session, and only one that is accepted changes the current formula. -/
theorem answer_eq (current : Formula) (line : String) :
    answer current line = .ok ⟨(accepted? line).getD current, reply current line⟩ := by
  rcases strip_cases line with hnil | ⟨rest, hopen⟩ | ⟨c, rest, hc, hother⟩
  · rw [accepted?_eq_none (by simp [hnil])]
    unfold answer reply
    rw [hnil]
    rfl
  · unfold answer accepted? reply
    rw [hopen]
    exact enterFormula_eq current _
  · have hhead : (Text.strip line.toList).head? ≠ some '(' := by
      rw [hother]
      exact fun h => hc (Option.some.inj h)
    rw [accepted?_eq_none hhead, answer_of_value hc hother, reply_of_value hc hother]
    exact evaluateAt_eq current _

/-- A line that begins with a bracket is answered alike whatever formula is current. -/
theorem reply_of_open {line : String} (h : (Text.strip line.toList).head? = some '(') (f g : Formula) :
    reply f line = reply g line := by
  obtain ⟨rest, hrest⟩ := List.head?_eq_some_iff.mp h
  unfold reply
  rw [hrest]
  rfl

theorem currentAfter_cons (current : Formula) (line : String) (lines : List String) :
    currentAfter current (line :: lines) = currentAfter ((accepted? line).getD current) lines := by
  unfold currentAfter
  cases h : accepted? line with
  | none => rw [List.filterMap_cons_none h, Option.getD_none]
  | some f => rw [List.filterMap_cons_some h, List.getLast?_cons, Option.getD_some, Option.getD_some]

theorem transcript_cons (current : Formula) (line : String) (more : List String) :
    transcript current (line :: more) =
      { transcript ((accepted? line).getD current) more with
        printed := (prompt ++ reply current line) :: (transcript ((accepted? line).getD current) more).printed } := by
  rw [transcript, answer_eq]

/-- Behind the prompt of each line stands the reply with the formula that is current by then. -/
theorem transcript_eq (current : Formula) (lines : List String) :
    transcript current lines =
      ⟨lines.mapIdx (fun i line => prompt ++ reply (currentAfter current (lines.take i)) line) ++ [prompt], none⟩ := by
  induction lines generalizing current with
  | nil => rfl
  | cons line lines ih =>
      rw [transcript_cons, ih, List.mapIdx_cons]
      simp only [List.take_succ_cons, currentAfter_cons]
      rfl

/-- What is printed later depends on the earlier lines only through the formula that is current behind them. -/
theorem drop_printed_transcript (current : Formula) (before after : List String) :
    (transcript current (before ++ after)).printed.drop before.length =
      (transcript (currentAfter current before) after).printed := by
  induction before generalizing current with
  | nil => rfl
  | cons line before ih =>
      rw [List.cons_append, transcript_cons, currentAfter_cons, List.length_cons, List.drop_succ_cons, ih]

theorem drop_printed_of_not_accepted {line : String} (h : accepted? line = none) (current : Formula)
    (before after : List String) :
    (transcript current (before ++ line :: after)).printed.drop (before.length + 1) =
      (transcript current (before ++ after)).printed.drop before.length := by
  rw [← List.drop_drop, drop_printed_transcript, drop_printed_transcript, transcript_cons, h]
  rfl

/-- On a lawful machine a formula has a value at a double, or the double is refused. -/
theorem evaluate_double_cases {m : Machine} (hm : m.Lawful) (f : Formula) (v : Double) :
    (∃ w, m.evaluate f (.double v) (.builtin .double) = .ok (.double w)) ∨
      ∃ r, m.evaluate f (.double v) (.builtin .double) = .error (.fault (.refused r (.double v))) := by
  rcases Machine.toDouble_cases hm (.double v) with ⟨x, hx⟩ | ⟨r, hr⟩ | ⟨hlong, -⟩
  · obtain ⟨w, hw⟩ := Machine.eval_ok hm x f
    exact .inl ⟨w, Machine.evaluate_of_ok hx hw _⟩
  · exact .inr ⟨r, Machine.evaluate_of_error hr f _⟩
  · cases hlong

/-- A session comes to the end of its input, with a prompt for each line and one more. Behind the prompt of a line
stands the reply under the formula of the last line before it that was accepted. Only a line that begins with a bracket
can be accepted, and the reply to it is the same under every formula. A line that is not accepted changes nothing of what
is printed behind it. On every lawful machine a formula has a value at every double that a line may write, or the
double is refused, so that no trap escapes; and on the standard machine it has the value that is printed. -/
theorem answers_every_line (lines : List String) :
    transcript start lines =
        ⟨lines.mapIdx (fun i line => prompt ++ reply (currentAfter start (lines.take i)) line) ++ [prompt], none⟩ ∧
      (transcript start lines).printed.length = lines.length + 1 ∧
      (∀ line f, accepted? line = some f → (Text.strip line.toList).head? = some '(') ∧
      (∀ line, (Text.strip line.toList).head? = some '(' → ∀ f g, reply f line = reply g line) ∧
      (∀ line, accepted? line = none → ∀ before after,
        (transcript start (before ++ line :: after)).printed.drop (before.length + 1) =
          (transcript start (before ++ after)).printed.drop before.length) ∧
      (∀ m : Machine, m.Lawful → ∀ f v,
        (∃ w, m.evaluate f (.double v) (.builtin .double) = .ok (.double w)) ∨
          ∃ r, m.evaluate f (.double v) (.builtin .double) = .error (.fault (.refused r (.double v)))) ∧
      ∀ f v, Machine.standard.evaluate f (.double v) (.builtin .double) = .ok (.double (f.eval v)) := by
  refine ⟨transcript_eq start lines, ?_, fun line f => head_strip_of_accepted, fun line => reply_of_open,
    fun line hline => drop_printed_of_not_accepted hline start, fun m hm => evaluate_double_cases hm, fun f v => ?_⟩
  · rw [transcript_eq, List.length_append, List.length_mapIdx]
    rfl
  · exact Machine.evaluate_standard f (.double v) (.builtin .double)

/-- A formula, a value, a formula broken off, and the value again. -/
theorem answers_every_line_square :
    accepted? "(x" = none ∧ (Text.strip "(x".toList).head? = some '(' ∧ (∀ f g, reply f "(x" = reply g "(x") ∧
      accepted? " (x * x)\t" = some (.apply .mul .unknown .unknown) ∧ Machine.standard.Lawful ∧
      transcript start [" (x * x)\t", "-3", "", "-inf"] =
        ⟨["> formula: (x * x)\n", "> 9.0\n", "> ", "> inf\n", "> "], none⟩ ∧
      (transcript start [" (x * x)\t", "(x", "-3"]).printed.drop 2 = ["> 9.0\n", "> "] := by
  have hnone : accepted? "(x" = none := by decide +kernel
  obtain ⟨htranscript, -⟩ := answers_every_line [" (x * x)\t", "-3", "", "-inf"]
  obtain ⟨hshort, -, -, halike, hdropped, -⟩ := answers_every_line [" (x * x)\t", "-3"]
  have hopen : (Text.strip "(x".toList).head? = some '(' := by decide
  refine ⟨hnone, hopen, halike "(x" hopen, by decide +kernel, Machine.lawful_standard,
    htranscript.trans (by decide +kernel), ?_⟩
  refine (hdropped "(x" hnone [" (x * x)\t"] ["-3"]).trans ?_
  rw [List.singleton_append, hshort]
  decide +kernel

end Progression.Session
