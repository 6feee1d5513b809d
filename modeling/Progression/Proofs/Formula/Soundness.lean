import Progression.Proofs.Formula.Completeness

/-! # What the findings of the predictive reader tell of a text

What is found is a derivation that fits. Where the reader is stuck, a derivation that fits is broken off,
all that is due was looked for, and nothing of it stands there. An error ends the search only in front of a
bracket that is one too many, or of a number that is out of range, where an operand is due. -/

namespace Progression.Recognizer

/-- The second place is the first one, further on by the text between them. -/
structure Passes (front : List Char) (c d : Cursor) : Prop where
  rest : c.rest = front ++ d.rest
  offset : d.offset = c.offset + front.length

theorem passes_refl (c : Cursor) : Passes [] c c := ⟨rfl, rfl⟩

theorem Passes.trans {front more : List Char} {c d e : Cursor} (h : Passes front c d) (h' : Passes more d e) :
    Passes (front ++ more) c e := by
  constructor
  · rw [h.rest, h'.rest, List.append_assoc]
  · rw [h'.offset, h.offset, List.length_append, Nat.add_assoc]

theorem Passes.le {front : List Char} {c d : Cursor} (h : Passes front c d) : c.offset ≤ d.offset := by
  rw [h.offset]
  exact Nat.le_add_right _ _

section Start

variable {front cs : List Char} {d : Cursor} (h : Passes front (.start cs) d)
include h

theorem Passes.offset_start : d.offset = front.length := by
  rw [h.offset]
  exact Nat.zero_add _

theorem Passes.take_start : cs.take d.offset = front := by
  have hrest : cs = front ++ d.rest := h.rest
  rw [h.offset_start, hrest, List.take_left]

theorem Passes.drop_start : cs.drop d.offset = d.rest := by
  have hrest : cs = front ++ d.rest := h.rest
  rw [h.offset_start]
  calc
    cs.drop front.length = (front ++ d.rest).drop front.length := by rw [← hrest]
    _ = d.rest := List.drop_left

theorem Passes.offset_le : d.offset ≤ cs.length := by
  have hrest : cs = front ++ d.rest := h.rest
  rw [h.offset_start, hrest, List.length_append]
  exact Nat.le_add_right _ _

end Start

theorem passes_head {c : Cursor} {ch : Char} (h : c.rest.head? = some ch) : Passes [ch] c (c.advance 1) := by
  obtain ⟨offset, rest⟩ := c
  obtain ⟨more, rfl⟩ := List.head?_eq_some_iff.mp h
  exact ⟨rfl, rfl⟩

/-- The reason of an error, and what stands at its place. -/
inductive Refusal (limit : Nat) (level allowance : Nat) (rest : List Char) : SyntaxError.Cause → Prop where
  | tooDeep (hlevel : level = allowance) (hopen : rest.head? = some '(') :
      Refusal limit level allowance rest (.tooDeep limit)
  | outOfRange {literal : Text.Literal} {behind : List Char} (hscan : Text.Literal.scan? rest = some (literal, behind))
      (hinfinite : literal.toDouble.isInfinite = true) :
      Refusal limit level allowance rest (.outOfRange literal.spelling)

/-- What a finding at a place tells of the text from there on. -/
def Explained (limit allowance : Nat) (c : Cursor) : Finding Reading → Prop
  | .found reading d => ∃ p : Phrase, p.reading = reading ∧ Passes p.chars c d ∧ p.Fits allowance
  | .stuck place kinds => ∃ u : Unfinished, ∃ d, Passes u.chars c d ∧ place = d.offset ∧ u.Fits allowance ∧
      kinds = u.due ∧ ∀ kind ∈ kinds, kind.lexeme? d.rest = none
  | .refused e => ∃ u : Unfinished, ∃ d, Passes u.chars c d ∧ e.offset = d.offset ∧ u.Fits allowance ∧
      u.due = operandKinds ∧ Refusal limit u.level allowance d.rest e.cause

/-- A broken operand, put behind the beginning of an application. -/
structure Wraps (wrap : Unfinished → Unfinished) (front : List Char) (allowance : Nat) : Prop where
  chars : ∀ u, (wrap u).chars = front ++ u.chars
  due : ∀ u, (wrap u).due = u.due
  level : ∀ u, (wrap u).level = u.level + 1
  fits : ∀ u : Unfinished, u.Fits allowance → (wrap u).Fits (allowance + 1)

theorem wraps_inLeft (a : Blanks) (allowance : Nat) :
    Wraps (.inLeft a) ('(' :: a.chars) allowance where
  chars _ := rfl
  due _ := rfl
  level _ := rfl
  fits _ := Unfinished.fits_inLeft.mpr

theorem wraps_inRight (a : Blanks) {left : Phrase} (b : Blanks) (op : Operator) (c : Blanks) {allowance : Nat}
    (hleft : left.Fits allowance) :
    Wraps (.inRight a left b op c) ('(' :: (a.chars ++ (left.chars ++ (b.chars ++ (op.symbol ++ c.chars))))) allowance where
  chars u := by simp [Unfinished.chars]
  due _ := rfl
  level _ := rfl
  fits _ hu := Unfinished.fits_inRight.mpr ⟨hleft, hu⟩

theorem Refusal.succ {limit level allowance : Nat} {rest : List Char} {cause : SyntaxError.Cause}
    (h : Refusal limit level allowance rest cause) : Refusal limit (level + 1) (allowance + 1) rest cause := by
  cases h with
  | tooDeep hlevel hopen => exact .tooDeep (congrArg (· + 1) hlevel) hopen
  | outOfRange hscan hinfinite => exact .outOfRange hscan hinfinite

/-- What an operand of an application tells, it tells of the application. -/
theorem Explained.bind {limit allowance : Nat} {wrap : Unfinished → Unfinished} {front : List Char} {c d : Cursor}
    {o : Finding Reading} {f : Reading → Cursor → Finding Reading} {g : Reading → Reading}
    (hwrap : Wraps wrap front allowance) (hc : Passes front c d) (h : Explained limit allowance d o)
    (hf : ∀ (p : Phrase) next, Passes p.chars d next → p.Fits allowance →
      Explained limit (allowance + 1) c ((f p.reading next).map g)) :
    Explained limit (allowance + 1) c ((o.bind f).map g) := by
  cases o with
  | found reading next =>
      obtain ⟨p, rfl, hpasses, hfits⟩ := h
      exact hf p next hpasses hfits
  | stuck place kinds =>
      obtain ⟨u, e, hpasses, hplace, hfits, hkinds, hnone⟩ := h
      refine ⟨wrap u, e, ?_, hplace, hwrap.fits u hfits, hkinds.trans (hwrap.due u).symm, hnone⟩
      rw [hwrap.chars]
      exact hc.trans hpasses
  | refused e =>
      obtain ⟨u, d', hpasses, hplace, hfits, hdue, hrefusal⟩ := h
      refine ⟨wrap u, d', ?_, hplace, hwrap.fits u hfits, (hwrap.due u).trans hdue, ?_⟩
      · rw [hwrap.chars]
        exact hc.trans hpasses
      · rw [hwrap.level]
        exact hrefusal.succ

theorem lexeme?_operandKinds {cs : List Char} (hscan : Text.Literal.scan? cs = none) (hunknown : cs.head? ≠ some 'x')
    (hopen : cs.head? ≠ some '(') : ∀ kind ∈ operandKinds, kind.lexeme? cs = none := by
  intro kind hkind
  simp only [operandKinds, List.mem_cons, List.not_mem_nil, or_false] at hkind
  rcases hkind with rfl | rfl | rfl
  · rw [TokenKind.lexeme?, TokenKind.spelling?]
    simp [hscan]
  · rw [@lexeme?_of_singleton .unknown 'x' rfl, if_neg hunknown]
  · rw [@lexeme?_of_singleton .bracketOpen '(' rfl, if_neg hopen]

theorem lexeme?_operatorKinds {cs : List Char} (hnone : ∀ (op : Operator) (more : List Char), cs ≠ op.symbol ++ more) :
    ∀ kind ∈ operatorKinds, kind.lexeme? cs = none := by
  intro kind hkind
  obtain ⟨op, -, rfl⟩ := List.mem_map.mp hkind
  rw [lexeme?_of_spelling op.spelling_token, if_neg]
  intro hbegins
  obtain ⟨more, hmore⟩ := List.isPrefixOf_iff_prefix.mp hbegins
  exact hnone op more hmore.symm

theorem readOperator_of_none {c : Cursor} (hnone : ∀ (op : Operator) (more : List Char), c.rest ≠ op.symbol ++ more) :
    readOperator c = .stuck c.offset operatorKinds := by
  have hfind : (Operator.all.find? fun op => op.symbol.isPrefixOf c.rest) = none := by
    refine List.find?_eq_none.mpr fun op _ hbegins => ?_
    obtain ⟨more, hmore⟩ := List.isPrefixOf_iff_prefix.mp hbegins
    exact hnone op more hmore.symm
  rw [readOperator, hfind]

theorem explained_readOperand {limit allowance : Nat} {expression : Cursor → Finding Reading}
    (h : ∀ c, c.rest.head? = some '(' → Explained limit allowance c ((expression c).map (.nested .subexpression)))
    (c : Cursor) : Explained limit allowance c (readOperand expression c) := by
  rw [readOperand]
  split
  · rename_i literal rest hscan
    split <;> rename_i hinfinite
    · exact ⟨.start, c, passes_refl c, rfl, Unfinished.fits_start, rfl, .outOfRange hscan hinfinite⟩
    · refine ⟨.leaf (.number ⟨literal, Text.Literal.wellFormed_of_scan? hscan⟩), rfl, ⟨?_, rfl⟩,
        Nat.zero_le _, hinfinite⟩
      have happend := Text.Literal.spelling_append_of_scan? hscan
      show c.rest = literal.spelling ++ c.rest.drop literal.spelling.length
      rw [← happend, List.drop_left]
  · rename_i hscan
    split
    · rename_i hhead
      exact ⟨.leaf .unknown, rfl, passes_head hhead, Nat.zero_le _, trivial⟩
    · rename_i hunknown
      split
      · rename_i hopen
        exact h c hopen
      · rename_i hopen
        exact ⟨.start, c, passes_refl c, rfl, Unfinished.fits_start, rfl, lexeme?_operandKinds hscan hunknown hopen⟩

theorem Explained.from {limit allowance : Nat} {c : Cursor} {o : Finding Reading} (h : Explained limit allowance c o) :
    o.From c.offset := by
  cases o with
  | found reading next =>
      obtain ⟨p, -, hpasses, -⟩ := h
      exact hpasses.le
  | stuck place kinds =>
      obtain ⟨u, d, hpasses, rfl, -⟩ := h
      exact hpasses.le
  | refused e => trivial

theorem exists_passes_blanks (c : Cursor) : ∃ b : Blanks, Passes b.chars c c.skipSpaces ∧ Unspaced c.skipSpaces.rest := by
  obtain ⟨offset, rest⟩ := c
  obtain ⟨b, more, rfl, hunspaced⟩ := exists_blanks rest
  refine ⟨b, ?_⟩
  rw [Cursor.skipSpaces_blanks offset b hunspaced]
  exact ⟨⟨rfl, rfl⟩, hunspaced⟩

section Expression

variable {limit allowance : Nat} {c next : Cursor} {a b d : Blanks} {left right : Phrase} {op : Operator}

theorem explained_readClose (hleft : left.Fits allowance) (hright : right.Fits allowance)
    (hpasses : Passes ('(' :: (a.chars ++ (left.chars ++ (b.chars ++ (op.symbol ++ (d.chars ++ right.chars)))))) c next) :
    Explained limit (allowance + 1) c
      ((readClose (.application op left.reading right.reading) next.skipSpaces).map (.nested .subexpression)) := by
  obtain ⟨e, he, -⟩ := exists_passes_blanks next
  have hbehind := hpasses.trans he
  rw [readClose]
  split <;> rename_i hclose
  · refine ⟨.application a left b op d right e, rfl, ?_, Phrase.fits_application.mpr ⟨hleft, hright⟩⟩
    have hall := hbehind.trans (passes_head hclose)
    simpa [Phrase.chars] using hall
  · refine ⟨.behindRight a left b op d right e, next.skipSpaces, ?_, rfl,
      Unfinished.fits_behindRight.mpr ⟨hleft, hright⟩, rfl, fun kind hkind => ?_⟩
    · simpa [Unfinished.chars] using hbehind
    · rw [List.mem_singleton.mp hkind, @lexeme?_of_singleton .bracketClose ')' rfl, if_neg hclose]

variable {expression : Cursor → Finding Reading} (h : ∀ c, Explained limit allowance c (readOperand expression c))
include h

/-- An operator follows the left operand, and so does the right one. -/
theorem explained_application (hleft : left.Fits allowance) (hpasses : Passes ('(' :: (a.chars ++ left.chars)) c next)
    {more : List Char} (hb : Passes b.chars next next.skipSpaces) (hop : next.skipSpaces.rest = op.symbol ++ more) :
    Explained limit (allowance + 1) c
      ((readBehindLeft expression a left.reading next).map (.nested .subexpression)) := by
  obtain ⟨d, rest, rfl, hrest⟩ := exists_blanks more
  have hnext : next.rest = b.chars ++ (op.symbol ++ (d.chars ++ rest)) := by rw [hb.rest, hop]
  obtain ⟨offset, cs⟩ := next
  obtain rfl : cs = b.chars ++ (op.symbol ++ (d.chars ++ rest)) := hnext
  have hfront : Passes (b.chars ++ (op.symbol ++ d.chars)) ⟨offset, b.chars ++ (op.symbol ++ (d.chars ++ rest))⟩
      ⟨offset + b.chars.length + op.symbol.length + d.chars.length, rest⟩ := by
    constructor
    · simp
    · simp only [List.length_append]
      omega
  have hright := h ⟨offset + b.chars.length + op.symbol.length + d.chars.length, rest⟩
  have heq := readRest_append expression left.reading offset b op d hrest
  have hfrom : (readRest expression left.reading ⟨offset, b.chars ++ (op.symbol ++ (d.chars ++ rest))⟩).From
      (offset + 1) := by
    rw [heq]
    have hlength := op.length_symbol_pos
    have hle : offset + 1 ≤ offset + b.chars.length + op.symbol.length + d.chars.length := by omega
    refine Finding.From.mono (hright.from.bind fun right next _ => ?_) hle
    exact (from_readClose _ _).mono next.le_skipSpaces
  have hrest' : Explained limit (allowance + 1) c
      ((readRest expression left.reading ⟨offset, b.chars ++ (op.symbol ++ (d.chars ++ rest))⟩).map
        (.nested .subexpression)) := by
    rw [heq]
    have hall := hpasses.trans hfront
    refine Explained.bind (wraps_inRight a b op d hleft) (by simpa using hall) hright fun right next hnext hright => ?_
    refine explained_readClose (a := a) (b := b) (d := d) hleft hright ?_
    simpa using hall.trans hnext
  have hhead : (b.chars ++ (op.symbol ++ (d.chars ++ rest))).head? ≠ some ')' := by
    intro hhead
    obtain ⟨behind, hbehind⟩ := List.head?_eq_some_iff.mp hhead
    exact b.operator_ne_close op _ behind hbehind
  rw [readBehindLeft, if_neg hhead, Finding.orClose_of_from hfrom, ite_self]
  exact hrest'

omit h in
/-- No operator follows the left operand. -/
theorem explained_behindLeft (hleft : left.Fits allowance) (hpasses : Passes ('(' :: (a.chars ++ left.chars)) c next)
    (hb : Passes b.chars next next.skipSpaces)
    (hnone : ∀ (op : Operator) (more : List Char), next.skipSpaces.rest ≠ op.symbol ++ more) :
    Explained limit (allowance + 1) c
      ((readBehindLeft expression a left.reading next).map (.nested .subexpression)) := by
  have hoperators := lexeme?_operatorKinds hnone
  have hrest : readRest expression left.reading next = .stuck next.skipSpaces.offset operatorKinds := by
    rw [readRest, readOperator_of_none hnone]
    rfl
  have hfront : Passes (Unfinished.behindLeft a left b).chars c next.skipSpaces := by
    simpa [Unfinished.chars] using hpasses.trans hb
  have hfits : (Unfinished.behindLeft a left b).Fits (allowance + 1) := Unfinished.fits_behindLeft.mpr hleft
  rw [readBehindLeft]
  split
  · rename_i hplain
    obtain ⟨l, rfl⟩ := (isPlain_reading left).mp hplain.2
    split <;> rename_i hclose
    · refine ⟨.bracketed l, rfl, ?_, Nat.succ_le_succ (Nat.zero_le _), hleft.2⟩
      have hall := hpasses.trans (passes_head hclose)
      simpa [hplain.1, Phrase.chars] using hall
    · have hclosable : Phrase.closable a (.leaf l) b = true ↔ b.chars = [] := by
        rw [Unfinished.closable_iff, Blanks.eq_none_iff, Blanks.eq_none_iff]
        exact ⟨fun h => h.2.1, fun h => ⟨hplain.1, h, l, rfl⟩⟩
      have hoffset := hb.offset
      have hspaces := hb.rest
      rw [hrest, Finding.orClose]
      by_cases hblanks : b.chars = []
      · rw [hblanks, List.length_nil] at hoffset
        rw [hblanks, List.nil_append] at hspaces
        rw [if_pos (show next.skipSpaces.offset = next.offset from hoffset)]
        refine ⟨_, _, hfront, rfl, hfits, (if_pos (hclosable.mpr hblanks)).symm, fun kind hkind => ?_⟩
        rcases List.mem_append.mp hkind with hkind | hkind
        · exact hoperators kind hkind
        · rw [List.mem_singleton.mp hkind, @lexeme?_of_singleton .bracketClose ')' rfl, ← hspaces, if_neg hclose]
      · have hlength := List.length_pos_iff.mpr hblanks
        rw [if_neg (show ¬next.skipSpaces.offset = next.offset by omega)]
        exact ⟨_, _, hfront, rfl, hfits, (if_neg fun h => hblanks (hclosable.mp h)).symm, hoperators⟩
  · rename_i hplain
    have hclosable : ¬Phrase.closable a left b = true := by
      rw [Unfinished.closable_iff, Blanks.eq_none_iff]
      exact fun hclosable => hplain ⟨hclosable.1, (isPlain_reading left).mpr hclosable.2.2⟩
    rw [hrest]
    exact ⟨_, _, hfront, rfl, hfits, (if_neg hclosable).symm, hoperators⟩

theorem explained_readBehindLeft (hleft : left.Fits allowance)
    (hpasses : Passes ('(' :: (a.chars ++ left.chars)) c next) :
    Explained limit (allowance + 1) c
      ((readBehindLeft expression a left.reading next).map (.nested .subexpression)) := by
  obtain ⟨b, hb, hunspaced⟩ := exists_passes_blanks next
  by_cases hop : ∃ (op : Operator) (more : List Char), next.skipSpaces.rest = op.symbol ++ more
  · obtain ⟨op, more, hmore⟩ := hop
    exact explained_application h hleft hpasses hb hmore
  · exact explained_behindLeft hleft hpasses hb fun op more hmore => hop ⟨op, more, hmore⟩

theorem explained_readInside {c : Cursor} (hopen : c.rest.head? = some '(') :
    Explained limit (allowance + 1) c ((readInside expression (c.advance 1)).map (.nested .subexpression)) := by
  obtain ⟨a, ha, hunspaced⟩ := exists_passes_blanks (c.advance 1)
  have hc := (passes_head hopen).trans ha
  have hinside := readInside_append expression (c.advance 1).offset a hunspaced
  have hnext : Cursor.mk (c.advance 1).offset (a.chars ++ (c.advance 1).skipSpaces.rest) = c.advance 1 := by
    rw [← ha.rest]
  have hskip : Cursor.mk ((c.advance 1).offset + a.chars.length) (c.advance 1).skipSpaces.rest =
      (c.advance 1).skipSpaces := by
    rw [← ha.offset]
  rw [hnext, hskip] at hinside
  rw [hinside]
  refine Explained.bind (wraps_inLeft a allowance) hc (h _) fun left next hnext hleft => ?_
  exact explained_readBehindLeft h hleft (hc.trans hnext)

end Expression

/-- Whatever the predictive reader finds, it tells what stands in the text. -/
theorem explained_predict (limit allowance : Nat) (c : Cursor) :
    Explained limit allowance c (readOperand (predict limit allowance) c) := by
  induction allowance generalizing c with
  | zero =>
      refine explained_readOperand (fun c hopen => ?_) c
      rw [predict, readOpen, if_pos hopen]
      exact ⟨.start, c, passes_refl c, rfl, Unfinished.fits_start, rfl, .tooDeep rfl hopen⟩
  | succ allowance ih =>
      refine explained_readOperand (fun c hopen => ?_) c
      rw [predict, readOpen, if_pos hopen]
      exact explained_readInside ih hopen

end Progression.Recognizer
