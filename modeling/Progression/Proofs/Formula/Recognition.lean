import Progression.Proofs.Formula.Prediction

/-! # The recognizer finds what the predictive reader finds

Every step of the recognizer is a family of runs: the shapes of an operand, the operators, the ways to go
on behind an opening bracket. Each family covers what the predictive reader finds at the same place. So
the order in which the alternatives are tried makes no difference, and the furthest misses are just the
kinds of tokens that could have stood there. -/

namespace Progression.Recognizer

variable {α β ι κ : Type}

/-- A family in which one run decides: the others miss at once. -/
theorem Covers.single {runs : ι → Run (Option (α × Cursor))} {o : Finding α} {n : Nat} (i : ι)
    (h : Covers (fun _ : Unit => runs i) o) (ho : o.From n)
    (hothers : ∀ j, j ≠ i → ∃ misses, Gives (runs j) none misses ∧ Below n misses) : Covers runs o := by
  have hleans (j : ι) : Leans (runs j) o := by
    by_cases hj : j = i
    · subst hj
      exact h.leans ()
    · obtain ⟨misses, hgives, hbelow⟩ := hothers j hj
      exact leans_of_gives_none hgives hbelow ho
  cases o with
  | found a c =>
      obtain ⟨-, _, misses, hi⟩ := h
      exact ⟨hleans, i, misses, hi⟩
  | refused e =>
      obtain ⟨-, _, hi⟩ := h
      exact ⟨hleans, i, hi⟩
  | stuck place kinds =>
      obtain ⟨misses, hmisses, hattained⟩ := h
      have hchoice (j : ι) : ∃ all, (Gives (runs j) none all ∧ Within place kinds all) ∧
          (j = i → all = misses ()) := by
        by_cases hj : j = i
        · subst hj
          exact ⟨_, hmisses (), fun _ => rfl⟩
        · obtain ⟨others, hgives, hbelow⟩ := hothers j hj
          exact ⟨others, ⟨hgives, (hbelow.mono ho).within kinds⟩, fun h => absurd h hj⟩
      choose all hall heq using hchoice
      refine ⟨all, hall, fun kind hkind => ⟨i, ?_⟩⟩
      obtain ⟨_, hi⟩ := hattained kind hkind
      rw [heq i rfl]
      exact hi

/-- A family stays covered if runs are added that do not stand in the way. -/
theorem Covers.extend {runs : ι → Run (Option (α × Cursor))} {extra : κ → Run (Option (α × Cursor))}
    {o : Finding α} (h : Covers runs o) (hextra : ∀ k, Leans (extra k) o) : Covers (Sum.elim runs extra) o := by
  have hleans : ∀ i, Leans (Sum.elim runs extra i) o := by
    rintro (i | k)
    · exact h.leans i
    · exact hextra k
  cases o with
  | found a c =>
      obtain ⟨-, i, misses, hi⟩ := h
      exact ⟨hleans, .inl i, misses, hi⟩
  | refused e =>
      obtain ⟨-, i, hi⟩ := h
      exact ⟨hleans, .inl i, hi⟩
  | stuck place kinds =>
      obtain ⟨misses, hmisses, hattained⟩ := h
      choose more hmore using hextra
      refine ⟨Sum.elim misses more, ?_, fun kind hkind => ?_⟩
      · rintro (i | k)
        · exact hmisses i
        · exact hmore k
      · obtain ⟨i, hi⟩ := hattained kind hkind
        exact ⟨.inl i, hi⟩

/-- Runs that find nothing add the one kind that they look for, where the others do not get any further. -/
theorem Covers.orClose {runs : ι → Run (Option (α × Cursor))} {extra : κ → Run (Option (α × Cursor))}
    {o : Finding α} {place : Nat} (h : Covers runs o) (ho : o.From place)
    (hfound : ∀ a c, o = .found a c → place < c.offset) (hextra : Covers extra (.stuck place [.bracketClose])) :
    Covers (Sum.elim runs extra) (o.orClose place) := by
  obtain ⟨more, hmore, hclose⟩ := hextra
  have hnone (k : κ) : Gives (extra k) none (more k) := (hmore k).1
  cases o with
  | found a c =>
      refine h.extend fun k => leans_of_gives_none (hnone k) ((hmore k).2.below (hfound a c rfl)) ?_
      exact Nat.le_refl c.offset
  | refused e => exact h.extend fun k => .inr ⟨more k, hnone k⟩
  | stuck p kinds =>
      by_cases hp : p = place
      · subst hp
        obtain ⟨misses, hmisses, hattained⟩ := h
        have hwithin {kinds' : List TokenKind} {all : List Miss} (hall : Within p kinds' all)
            (hsub : kinds' ⊆ kinds ++ [.bracketClose]) : Within p (kinds ++ [.bracketClose]) all :=
          fun m hm => (hall m hm).imp_right (And.imp_right fun hkind => hsub hkind)
        rw [Finding.orClose, if_pos rfl]
        refine ⟨Sum.elim misses more, ?_, fun kind hkind => ?_⟩
        · rintro (i | k)
          · exact ⟨(hmisses i).1, hwithin (hmisses i).2 (List.subset_append_left _ _)⟩
          · exact ⟨hnone k, hwithin (hmore k).2 (List.subset_append_right _ _)⟩
        · rcases List.mem_append.mp hkind with hkind | hkind
          · obtain ⟨i, hi⟩ := hattained kind hkind
            exact ⟨.inl i, hi⟩
          · obtain ⟨k, hk⟩ := hclose kind hkind
            exact ⟨.inr k, hk⟩
      · have hlt : place < p := Nat.lt_of_le_of_ne ho (Ne.symm hp)
        rw [Finding.orClose, if_neg hp]
        exact h.extend fun k => leans_of_gives_none (hnone k) ((hmore k).2.below hlt) (Nat.le_refl p)

theorem Covers.reindex {runs : ι → Run (Option (α × Cursor))} {o : Finding α} (h : Covers runs o) {f : κ → ι}
    (hf : ∀ i, ∃ k, f k = i) : Covers (fun k => runs (f k)) o := by
  cases o with
  | found a c =>
      obtain ⟨hleans, i, misses, hi⟩ := h
      obtain ⟨k, rfl⟩ := hf i
      exact ⟨fun k => hleans (f k), k, misses, hi⟩
  | stuck place kinds =>
      obtain ⟨misses, hmisses, hattained⟩ := h
      refine ⟨fun k => misses (f k), fun k => hmisses (f k), fun kind hkind => ?_⟩
      obtain ⟨i, hi⟩ := hattained kind hkind
      obtain ⟨k, rfl⟩ := hf i
      exact ⟨k, hi⟩
  | refused e =>
      obtain ⟨hleans, i, hi⟩ := h
      obtain ⟨k, rfl⟩ := hf i
      exact ⟨fun k => hleans (f k), k, hi⟩

/-- A family that is gone on with in one way only. -/
theorem Covers.andThen_one {runs : ι → Run (Option (α × Cursor))} {f : α × Cursor → Run (Option (β × Cursor))}
    {o : Finding α} {g : α → Cursor → Finding β} (h : Covers runs o)
    (hf : ∀ a c, o = .found a c → Covers (fun _ : Unit => f (a, c)) (g a c) ∧ (g a c).From c.offset) :
    Covers (fun i => Recognizer.andThen (runs i) f) (o.bind g) :=
  (h.andThen (κ := Unit) (f := fun _ => f) hf).reindex (f := fun i => (i, ())) fun i => ⟨i.1, rfl⟩

theorem Covers.map {runs : ι → Run (Option (α × Cursor))} {o : Finding α} (h : Covers runs o) (f : α → β) :
    Covers (fun i => (Option.map fun found => (f found.1, found.2)) <$> runs i) (o.map f) := by
  cases o with
  | found a c =>
      obtain ⟨hleans, i, misses, hi⟩ := h
      refine ⟨fun j => ?_, i, misses, hi.map _⟩
      obtain ⟨misses, hbelow, hgives⟩ := hleans j
      exact ⟨misses, hbelow, hgives.imp (·.map _) (·.map _)⟩
  | stuck place kinds =>
      obtain ⟨misses, hmisses, hattained⟩ := h
      exact ⟨misses, fun j => ⟨(hmisses j).1.map _, (hmisses j).2⟩, hattained⟩
  | refused e =>
      obtain ⟨hleans, i, hi⟩ := h
      refine ⟨fun j => ?_, i, hi.map _⟩
      exact (hleans j).imp (·.map _) fun ⟨misses, hgives⟩ => ⟨misses, hgives.map _⟩

theorem covers_of_raises {run : Run (Option (α × Cursor))} {e : SyntaxError} (h : Raises run e) :
    Covers (fun _ : Unit => run) (.refused e) :=
  ⟨fun _ => .inl h, (), h⟩

theorem covers_of_gives_some {run : Run (Option (α × Cursor))} {a : α} {c : Cursor}
    (h : Gives run (some (a, c)) []) : Covers (fun _ : Unit => run) (.found a c) :=
  ⟨fun _ => ⟨[], below_nil _, .inl h⟩, (), [], h⟩

theorem covers_of_gives_none {run : Run (Option (α × Cursor))} {kind : TokenKind} {place : Nat}
    (h : Gives run none [(kind, place)]) : Covers (fun _ : Unit => run) (.stuck place [kind]) := by
  refine ⟨fun _ => [(kind, place)], fun _ => ⟨h, fun m hm => .inr ?_⟩, fun k hk => ⟨(), ?_⟩⟩
  · obtain rfl := List.mem_singleton.mp hm
    exact ⟨rfl, List.mem_singleton_self _⟩
  · obtain rfl := List.mem_singleton.mp hk
    exact List.mem_singleton_self _

theorem andThen_eq {run : Run (Option α)} {a : α} (h : Gives run (some a) []) (f : α → Run (Option β)) :
    andThen run f = f a := by
  funext s
  show (run.run s >>= fun found => _) = _
  rw [h s]
  rfl

theorem andThen_map (run : Run (Option α)) (g : α → β) (f : β → Run (Option κ)) :
    andThen (Option.map g <$> run) f = andThen run fun a => f (g a) := by
  rw [andThen, andThen, bind_map_left]
  refine bind_congr fun found => ?_
  cases found <;> rfl

theorem gives_token_some {kind : TokenKind} {c : Cursor} {lexeme : List Char}
    (h : kind.lexeme? c.rest = some lexeme) : Gives (token kind c) (some (c.advance lexeme.length)) [] := by
  rw [token, h]
  exact gives_attempt_some kind c _

theorem gives_token_none {kind : TokenKind} {c : Cursor} (h : kind.lexeme? c.rest = none) :
    Gives (token kind c) none [(kind, c.offset)] := by
  rw [token, h]
  exact gives_attempt_none kind c

/-- A token of one character. -/
theorem gives_token {kind : TokenKind} {d : Char} (h : kind.spelling? = some [d]) (c : Cursor) :
    if c.rest.head? = some d then Gives (token kind c) (some (c.advance 1)) []
    else Gives (token kind c) none [(kind, c.offset)] := by
  have hlexeme := lexeme?_of_singleton h c.rest
  split <;> rename_i hhead
  · rw [if_pos hhead] at hlexeme
    exact gives_token_some hlexeme
  · rw [if_neg hhead] at hlexeme
    exact gives_token_none hlexeme

theorem covers_readOpen {inside : Cursor → Run (Option (α × Cursor))} {finding : Cursor → Finding α} {c : Cursor}
    (h : ∀ c, Covers (fun _ : Unit => inside c) (finding c)) :
    Covers (fun _ : Unit => andThen (token .bracketOpen c) inside) (readOpen c finding) := by
  have htoken := @gives_token .bracketOpen '(' rfl c
  rw [readOpen]
  split <;> rename_i hhead
  · rw [if_pos hhead] at htoken
    rw [andThen_eq htoken]
    exact h (c.advance 1)
  · rw [if_neg hhead] at htoken
    exact covers_of_gives_none htoken.andThen_none

theorem covers_readClose (reading : Reading) (c : Cursor) :
    Covers (fun _ : Unit => closed reading c) (readClose reading c) := by
  have htoken := @gives_token .bracketClose ')' rfl c
  rw [readClose]
  split <;> rename_i hhead
  · rw [if_pos hhead] at htoken
    exact covers_of_gives_some (htoken.bind (gives_pure _))
  · rw [if_neg hhead] at htoken
    exact covers_of_gives_none (htoken.bind (gives_pure _))

theorem covers_readOperator (c : Cursor) :
    Covers (fun op => Option.map (fun next => (op, next)) <$> token op.token c) (readOperator c) := by
  have hlexeme (op : Operator) := lexeme?_of_spelling (Operator.spelling_token op) c.rest
  rw [readOperator]
  split
  · rename_i op hfind
    have hbegins : op.symbol.isPrefixOf c.rest := by simpa using List.find?_some hfind
    have hop := hlexeme op
    rw [if_pos hbegins] at hop
    refine Covers.single (n := c.offset + 1) op
      (covers_of_gives_some ((gives_token_some hop).map _)) (Nat.add_le_add_left op.length_symbol_pos _)
      fun other hother => ⟨_, Gives.map (gives_token_none ?_) _, ?_⟩
    · rw [hlexeme other, if_neg]
      intro hbegins'
      obtain ⟨rest, hrest⟩ := List.isPrefixOf_iff_prefix.mp hbegins
      obtain ⟨rest', hrest'⟩ := List.isPrefixOf_iff_prefix.mp hbegins'
      exact hother (Operator.append_inj (hrest'.trans hrest.symm)).1
    · intro m hm
      obtain rfl := List.mem_singleton.mp hm
      exact Nat.lt_succ_self _
  · rename_i hfind
    have hnone (op : Operator) : op.token.lexeme? c.rest = none := by
      rw [hlexeme op, if_neg]
      exact List.find?_eq_none.mp hfind op op.mem_all
    refine ⟨fun op => [(op.token, c.offset)], fun op => ⟨(gives_token_none (hnone op)).map _, ?_⟩,
      fun kind hkind => ?_⟩
    · intro m hm
      obtain rfl := List.mem_singleton.mp hm
      exact .inr ⟨rfl, List.mem_map_of_mem op.mem_all⟩
    · obtain ⟨op, -, rfl⟩ := List.mem_map.mp hkind
      exact ⟨op, List.mem_singleton_self _⟩

/-! ## Operands -/

section Expression

variable {expression : Cursor → Run (Option Match)} {finding : Cursor → Finding Reading}

/-- The text begins as an operand of the shape does. -/
def Begins (cs : List Char) : Shape → Prop
  | .number => (Text.Literal.scan? cs).isSome
  | .unknown => cs.head? = some 'x'
  | .subexpression => cs.head? = some '('

theorem Begins.unique {cs : List Char} {s s' : Shape} (h : Begins cs s) (h' : Begins cs s') : s = s' := by
  have hnumber {d : Char} (hd : ¬Text.Literal.Start d) (hhead : cs.head? = some d) : ¬Begins cs .number := by
    rw [Begins, scan?_eq_none_of_head hd hhead]
    simp
  cases s <;> cases s'
  case number.unknown => exact absurd h (hnumber (by decide) h')
  case number.subexpression => exact absurd h (hnumber (by decide) h')
  case unknown.number => exact absurd h' (hnumber (by decide) h)
  case subexpression.number => exact absurd h' (hnumber (by decide) h)
  case unknown.subexpression => exact absurd (h.symm.trans h') (by decide)
  case subexpression.unknown => exact absurd (h.symm.trans h') (by decide)
  all_goals rfl

/-- The token that an operand of a shape begins with. -/
def startKind : Shape → TokenKind
  | .number => .number
  | .unknown => .unknown
  | .subexpression => .bracketOpen

/-- What is known of a way to read expressions: it wants an opening bracket and goes on behind it. -/
structure Opens (finding : Cursor → Finding Reading) : Prop where
  closed : ∀ c, c.rest.head? ≠ some '(' → finding c = .stuck c.offset [.bracketOpen]
  opened : ∀ c, c.rest.head? = some '(' → (finding c).From (c.offset + 1)

theorem Opens.from (h : Opens finding) (c : Cursor) : (finding c).From c.offset := by
  by_cases hhead : c.rest.head? = some '('
  · exact (h.opened c hhead).mono (Nat.le_succ _)
  · rw [h.closed c hhead]
    exact Nat.le_refl _

theorem operand_number_eq {c : Cursor} {literal : Text.Literal} {rest : List Char}
    (h : Text.Literal.scan? c.rest = some (literal, rest)) :
    operand expression c .number =
      if literal.toDouble.isInfinite then throw ⟨.outOfRange literal.spelling, c.offset⟩
      else return some (.plain .number (.double literal.toDouble), c.advance literal.spelling.length) := by
  rw [operand, number, h]
  exact andThen_eq (gives_attempt_some .number c _) _

theorem gives_unknown_some {c : Cursor} (h : c.rest.head? = some 'x') :
    Gives (operand expression c .unknown) (some (.plain .unknown .null, c.advance 1)) [] := by
  have htoken := @gives_token .unknown 'x' rfl c
  rw [if_pos h] at htoken
  exact htoken.bind (gives_pure _)

section

variable (hcovers : ∀ c, Covers (fun _ : Unit => expression c) (finding c)) (hopens : Opens finding)

include hcovers in
theorem covers_subexpression (c : Cursor) :
    Covers (fun _ : Unit => operand expression c .subexpression) ((finding c).map (.nested .subexpression)) := by
  have h := (hcovers c).map (Reading.nested .subexpression)
  exact h

include hcovers hopens in
/-- An operand of a shape that the text does not begin as is missed at once. -/
theorem gives_operand_none {c : Cursor} {shape : Shape} (h : ¬Begins c.rest shape) :
    ∃ misses, Gives (operand expression c shape) none misses ∧ Within c.offset [startKind shape] misses ∧
      (startKind shape, c.offset) ∈ misses := by
  cases shape with
  | number =>
      have hscan : Text.Literal.scan? c.rest = none := Option.not_isSome_iff_eq_none.mp h
      have hgives : Gives (operand expression c .number) none [(.number, c.offset)] := by
        rw [operand, number, hscan]
        exact (gives_attempt_none .number c).bind (gives_pure none)
      exact ⟨_, hgives, by simp [Within, startKind], List.mem_singleton_self _⟩
  | unknown =>
      have htoken := @gives_token .unknown 'x' rfl c
      rw [if_neg (show ¬c.rest.head? = some 'x' from h)] at htoken
      have hgives : Gives (operand expression c .unknown) none [(.unknown, c.offset)] :=
        htoken.bind (gives_pure _)
      exact ⟨_, hgives, by simp [Within, startKind], List.mem_singleton_self _⟩
  | subexpression =>
      have hsub := covers_subexpression hcovers c
      rw [hopens.closed c h] at hsub
      obtain ⟨misses, hmisses, hattained⟩ := hsub
      obtain ⟨_, hmem⟩ := hattained .bracketOpen (List.mem_singleton_self _)
      exact ⟨_, (hmisses ()).1, (hmisses ()).2, hmem⟩

include hcovers hopens in
theorem covers_readOperand (c : Cursor) : Covers (operand expression c) (readOperand finding c) := by
  have hsingle {shape : Shape} {o : Finding Reading} (hshape : Begins c.rest shape)
      (h : Covers (fun _ : Unit => operand expression c shape) o) (ho : o.From (c.offset + 1)) :
      Covers (operand expression c) o := by
    refine Covers.single shape h ho fun other hother => ?_
    obtain ⟨misses, hgives, hwithin, -⟩ :=
      gives_operand_none hcovers hopens fun hbegins => hother (hbegins.unique hshape)
    exact ⟨misses, hgives, hwithin.below (Nat.lt_succ_self _)⟩
  rw [readOperand]
  split
  · rename_i literal rest hscan
    have hbegins : Begins c.rest .number := by rw [Begins, hscan]; rfl
    have heq := @operand_number_eq expression c literal rest hscan
    split <;> rename_i hinfinite
    · rw [if_pos hinfinite] at heq
      exact hsingle hbegins (covers_of_raises (heq ▸ fun _ => rfl)) trivial
    · rw [if_neg hinfinite] at heq
      exact hsingle hbegins (covers_of_gives_some (heq ▸ gives_pure _))
        (Nat.add_le_add_left (Text.Literal.wellFormed_of_scan? hscan).length_spelling_pos _)
  · rename_i hscan
    split
    · rename_i hhead
      exact @hsingle .unknown _ hhead (covers_of_gives_some (gives_unknown_some hhead)) (Nat.le_refl _)
    · rename_i hunknown
      split
      · rename_i hhead
        exact @hsingle .subexpression _ hhead (covers_subexpression hcovers c) ((hopens.opened c hhead).map _)
      · rename_i hopen
        have hnone (shape : Shape) : ¬Begins c.rest shape := by
          cases shape with
          | number => simp [Begins, hscan]
          | unknown => exact hunknown
          | subexpression => exact hopen
        choose misses hgives hwithin hmem using fun shape => gives_operand_none hcovers hopens (hnone shape)
        refine ⟨misses, fun shape => ⟨hgives shape, fun m hm => ?_⟩, fun kind hkind => ?_⟩
        · refine (hwithin shape m hm).imp_right (And.imp_right fun h => ?_)
          rw [List.mem_singleton.mp h]
          cases shape <;> decide
        · have hkinds : ∃ shape, startKind shape = kind := by
            simp only [operandKinds, List.mem_cons, List.not_mem_nil, or_false] at hkind
            rcases hkind with rfl | rfl | rfl
            · exact ⟨.number, rfl⟩
            · exact ⟨.unknown, rfl⟩
            · exact ⟨.subexpression, rfl⟩
          obtain ⟨shape, rfl⟩ := hkinds
          exact ⟨shape, hmem shape⟩

section Steps

variable (expression)

/-- The run of an application behind its operator. -/
def runRight (op : Operator) (left : Reading) (c : Cursor) (shape : Shape) : Run (Option Match) :=
  andThen (operand expression c.skipSpaces shape) fun right =>
    closed (.application op left right.1) right.2.skipSpaces

/-- The run of an application behind its left operand. -/
def runRest (left : Reading) (c : Cursor) (i : Operator × Shape) : Run (Option Match) :=
  andThen (Option.map (fun next => (i.1, next)) <$> token i.1.token c.skipSpaces) fun op =>
    runRight expression op.1 left op.2 i.2

/-- The run of an application behind its opening bracket. -/
def runApplication (c : Cursor) (i : Shape × Operator × Shape) : Run (Option Match) :=
  andThen (operand expression c.skipSpaces i.1) fun left => runRest expression left.1 left.2 i.2

theorem application_eq (c : Cursor) (op : Operator) (leftShape rightShape : Shape) :
    application expression c op leftShape rightShape =
      runApplication expression c (leftShape, op, rightShape) := by
  rw [application, runApplication, andThen]
  refine bind_congr fun left => ?_
  cases left with
  | none => rfl
  | some left =>
      show _ = runRest expression left.1 left.2 (op, rightShape)
      rw [runRest, andThen_map, andThen]
      refine bind_congr fun afterOperator => ?_
      cases afterOperator with
      | none => rfl
      | some afterOperator =>
          refine bind_congr fun right => ?_
          cases right <;> rfl

end Steps

include hcovers hopens in
theorem covers_runRight (op : Operator) (left : Reading) (c : Cursor) :
    Covers (runRight expression op left c)
      ((readOperand finding c.skipSpaces).bind fun right next =>
        readClose (.application op left right) next.skipSpaces) :=
  (covers_readOperand hcovers hopens c.skipSpaces).andThen_one fun right next _ =>
    ⟨covers_readClose (.application op left right) next.skipSpaces,
      (from_readClose _ _).mono (Cursor.le_skipSpaces next)⟩

include hcovers hopens in
theorem covers_runRest (left : Reading) (c : Cursor) :
    Covers (runRest expression left c) (readRest finding left c) := by
  have : Nonempty Shape := ⟨.number⟩
  refine (covers_readOperator c.skipSpaces).andThen
    (f := fun shape op => runRight expression op.1 left op.2 shape) fun op next _ => ?_
  refine ⟨covers_runRight hcovers hopens op left next, Finding.From.mono ?_ (Cursor.le_skipSpaces next)⟩
  refine (from_readOperand hopens.from _).bind fun right afterRight _ => ?_
  exact (from_readClose _ _).mono (Cursor.le_skipSpaces afterRight)

include hcovers hopens in
theorem covers_runApplication (c : Cursor) :
    Covers (runApplication expression c) ((readOperand finding c.skipSpaces).bind (readRest finding)) := by
  have : Nonempty (Operator × Shape) := ⟨(.add, .number)⟩
  refine (covers_readOperand hcovers hopens c.skipSpaces).andThen
    (f := fun i left => runRest expression left.1 left.2 i) fun left next _ => ?_
  exact ⟨covers_runRest hcovers hopens left next,
    (from_readRest hopens.from left next).mono (Cursor.le_skipSpaces next)⟩

theorem begins_subexpression_iff {c next : Cursor} {left : Reading} (h : readOperand finding c = .found left next) :
    Begins c.rest .subexpression ↔ isPlain left = false := by
  rw [readOperand] at h
  split at h
  · rename_i hscan
    split at h
    · cases h
    · injection h with hleft
      subst hleft
      refine iff_of_false (fun hopen => ?_) (by simp [isPlain])
      rw [scan?_eq_none_of_head (by decide) hopen] at hscan
      cases hscan
  · split at h
    · rename_i hhead
      injection h with hleft
      subst hleft
      refine iff_of_false (fun hopen => ?_) (by simp [isPlain])
      cases hhead.symm.trans hopen
    · split at h
      · rename_i hopen
        cases hfinding : finding c with
        | found inner d =>
            rw [hfinding] at h
            injection h with hleft
            subst hleft
            exact iff_of_true hopen rfl
        | stuck place kinds => rw [hfinding] at h; cases h
        | refused e => rw [hfinding] at h; cases h
      · cases h

theorem lt_of_readOperand (hopens : Opens finding) {c next : Cursor} {left : Reading}
    (h : readOperand finding c = .found left next) : c.offset < next.offset := by
  rw [readOperand] at h
  split at h
  · rename_i hscan
    split at h
    · cases h
    · injection h with _ hnext
      rw [← hnext, Cursor.advance_offset]
      exact Nat.lt_add_of_pos_right (Text.Literal.wellFormed_of_scan? hscan).length_spelling_pos
  · split at h
    · injection h with _ hnext
      rw [← hnext]
      exact Nat.lt_succ_self _
    · split at h
      · rename_i hopen
        have hfrom := (hopens.opened c hopen).map (Reading.nested .subexpression)
        rw [h] at hfrom
        exact hfrom
      · cases h

/-- A closing bracket is no operator. -/
theorem gives_runRest_none {left : Reading} {c : Cursor} (h : c.rest.head? = some ')') (i : Operator × Shape) :
    ∃ misses, Gives (runRest expression left c i) none misses ∧ Below (c.offset + 1) misses := by
  have hspaces : c.skipSpaces = c := Cursor.skipSpaces_of_unspaced fun d hd => by
    rw [h] at hd
    rw [← Option.some.inj hd]
    decide
  have hlexeme : i.1.token.lexeme? c.rest = none := by
    obtain ⟨offset, rest⟩ := c
    cases rest with
    | nil => exact nomatch h
    | cons d rest =>
        obtain rfl : d = ')' := Option.some.inj h
        rw [lexeme?_of_spelling (Operator.spelling_token i.1)]
        cases i.1 <;> rfl
  refine ⟨[(i.1.token, c.offset)], ?_, fun m hm => ?_⟩
  · rw [runRest, hspaces, andThen_map]
    exact (gives_token_none hlexeme).andThen_none
  · rw [List.mem_singleton.mp hm]
    exact Nat.lt_succ_self _

/-- The shapes of a leaf. -/
abbrev LeafShape := { shape : Shape // shape ≠ .subexpression }

theorem bare_eq (c : Cursor) (shape : Shape) :
    bare expression c shape = andThen (operand expression c shape) fun found => closed found.1 found.2 :=
  bind_congr fun found => by cases found <;> rfl

include hcovers hopens in
theorem covers_bare {c next : Cursor} {left : Reading} (h : readOperand finding c = .found left next)
    (hplain : isPlain left = true) :
    Covers (fun shape : LeafShape => bare expression c shape.1) (readClose left next) := by
  have hoperand := covers_readOperand hcovers hopens c
  rw [h] at hoperand
  have hleaf : Covers (fun shape : LeafShape => operand expression c shape.1) (.found left next) := by
    refine ⟨fun shape => hoperand.leans shape.1, ?_⟩
    obtain ⟨-, shape, misses, hgives⟩ := hoperand
    refine ⟨⟨shape, fun hshape => ?_⟩, misses, hgives⟩
    subst hshape
    have hbegins : ¬Begins c.rest .subexpression := by simp [begins_subexpression_iff h, hplain]
    obtain ⟨_, hnone, -⟩ := gives_operand_none hcovers hopens hbegins
    exact nomatch hnone.unique hgives
  simp only [bare_eq]
  exact hleaf.andThen_one (g := readClose) fun a d _ => ⟨covers_readClose a d, from_readClose a d⟩

include hcovers hopens in
/-- A leaf is not looked for in vain where it matters, if the text does not begin with one. -/
theorem gives_bare_none {c : Cursor} {shape : Shape} (h : ¬Begins c.rest shape) :
    ∃ misses, Gives (bare expression c shape) none misses ∧ Below (c.offset + 1) misses := by
  obtain ⟨misses, hgives, hwithin, -⟩ := gives_operand_none hcovers hopens h
  exact ⟨misses, bare_eq c shape ▸ hgives.andThen_none, hwithin.below (Nat.lt_succ_self _)⟩

/-- The ways to go on behind an opening bracket: an application, or a leaf that is closed at once. -/
def route (expression : Cursor → Run (Option Match)) (c : Cursor) :
    Shape × Operator × Shape ⊕ LeafShape → Run (Option Match) :=
  Sum.elim (runApplication expression c) fun shape => bare expression c shape.1

theorem not_begins_of_space {cs : List Char} {d : Char} (hhead : cs.head? = some d)
    (hspace : TokenKind.isSpace d = true) {shape : Shape} (hshape : shape ≠ .subexpression) : ¬Begins cs shape := by
  have hd : d = ' ' ∨ d = '\t' := by simpa [TokenKind.isSpace] using hspace
  cases shape with
  | number =>
      rw [Begins, scan?_eq_none_of_head (by rcases hd with rfl | rfl <;> decide) hhead]
      exact Bool.false_ne_true
  | unknown =>
      rw [Begins, hhead]
      rcases hd with rfl | rfl <;> decide
  | subexpression => exact absurd rfl hshape

include hcovers hopens in
/-- Behind blanks only an application can follow. -/
theorem covers_route_of_spaces {c : Cursor} (hspaces : c.skipSpaces ≠ c) :
    Covers (route expression c) (readInside finding c) := by
  have heq : readInside finding c = (readOperand finding c.skipSpaces).bind (readRest finding) := by
    simp only [readInside, hspaces, false_and, if_false]
  obtain ⟨d, hhead, hspace, hlt⟩ := Cursor.head_of_skipSpaces_ne hspaces
  rw [heq]
  refine (covers_runApplication hcovers hopens c).extend fun shape => ?_
  obtain ⟨misses, hgives, hbelow⟩ := gives_bare_none hcovers hopens (not_begins_of_space hhead hspace shape.2)
  refine leans_of_gives_none hgives (hbelow.mono hlt) ?_
  exact (from_readOperand hopens.from _).bind fun left next _ =>
    (from_readRest hopens.from left next).mono (Cursor.le_skipSpaces next)

section FoundLeft

variable {c next : Cursor} {left : Reading} (hspaces : c.skipSpaces = c)
  (hleft : readOperand finding c = .found left next)

include hcovers hopens hspaces hleft in
/-- A leaf that is closed at once is no application. -/
theorem covers_route_closed (hplain : isPlain left = true) (hclose : next.rest.head? = some ')') :
    Covers (route expression c) (.found left (next.advance 1)) := by
  have hbare := covers_bare hcovers hopens hleft hplain
  rw [readClose, if_pos hclose] at hbare
  have happlication (i : Shape × Operator × Shape) :
      Leans (runApplication expression c i) (.found left (next.advance 1)) := by
    have hstart := (covers_readOperand hcovers hopens c).leans i.1
    rw [hleft] at hstart
    rw [runApplication, hspaces]
    refine hstart.andThen (g := fun a d => .found a (d.advance 1)) fun a d heq => ?_
    cases heq
    obtain ⟨misses, hgives, hbelow⟩ := @gives_runRest_none expression left next hclose i.2
    exact ⟨leans_of_gives_none hgives hbelow (Nat.le_refl (next.advance 1).offset), Nat.le_succ _⟩
  have hboth := (hbare.extend happlication).reindex (f := Sum.swap) fun i => ⟨i.swap, Sum.swap_swap i⟩
  refine Eq.mp (congrArg (fun runs => Covers runs _) ?_) hboth
  funext i
  cases i <;> rfl

include hcovers hopens hspaces hleft in
theorem covers_route_found : Covers (route expression c)
    (if isPlain left = true then
      if next.rest.head? = some ')' then .found left (next.advance 1)
      else (readRest finding left next).orClose next.offset
    else readRest finding left next) := by
  have hroute := covers_runApplication hcovers hopens c
  rw [hspaces, hleft] at hroute
  have hrest := (from_readRest hopens.from left next).mono next.le_skipSpaces
  by_cases hplain : isPlain left = true
  · rw [if_pos hplain]
    by_cases hclose : next.rest.head? = some ')'
    · rw [if_pos hclose]
      exact covers_route_closed hcovers hopens hspaces hleft hplain hclose
    · have hbare := covers_bare hcovers hopens hleft hplain
      rw [readClose, if_neg hclose] at hbare
      rw [if_neg hclose]
      exact hroute.orClose hrest (fun a d h => lt_of_readRest hopens.from h) hbare
  · have hbegins := (begins_subexpression_iff hleft).mpr (Bool.not_eq_true _ ▸ hplain)
    rw [if_neg hplain]
    refine hroute.extend fun shape => ?_
    obtain ⟨misses, hgives, hbelow⟩ := gives_bare_none hcovers hopens fun hshape => shape.2 (hshape.unique hbegins)
    exact leans_of_gives_none hgives (hbelow.mono (lt_of_readOperand hopens hleft)) hrest

end FoundLeft

include hcovers hopens in
theorem covers_route (c : Cursor) : Covers (route expression c) (readInside finding c) := by
  by_cases hspaces : c.skipSpaces = c
  · have hroute := covers_runApplication hcovers hopens c
    have hoperand := covers_readOperand hcovers hopens c
    rw [hspaces] at hroute
    rw [readInside, hspaces]
    cases hleft : readOperand finding c with
    | stuck place kinds =>
        rw [hleft] at hroute hoperand
        refine hroute.extend fun shape => ?_
        obtain ⟨misses, hgives, hwithin⟩ := hoperand.leans shape.1
        exact ⟨misses, bare_eq c shape.1 ▸ hgives.andThen_none, hwithin⟩
    | refused e =>
        rw [hleft] at hroute hoperand
        refine hroute.extend fun shape => ?_
        rw [bare_eq]
        obtain hraises | ⟨misses, hgives⟩ := hoperand.leans shape.1
        · exact .inl (hraises.andThen _)
        · exact .inr ⟨misses, hgives.andThen_none⟩
    | found left next =>
        simp only [Finding.bind, true_and]
        exact covers_route_found hcovers hopens hspaces hleft
  · exact covers_route_of_spaces hcovers hopens hspaces

end
end Expression

/-! ## Expressions -/

/-- The ways to go on behind an opening bracket, in the order in which they are tried. -/
def routes : List (Shape × Operator × Shape ⊕ LeafShape) :=
  [.inr ⟨.number, by decide⟩, .inr ⟨.unknown, by decide⟩] ++
    Operator.all.flatMap fun op => shapePairs.map fun shapes => .inl (shapes.1, op, shapes.2)

theorem mem_routes (i : Shape × Operator × Shape ⊕ LeafShape) : i ∈ routes := by
  rcases i with ⟨left, op, right⟩ | ⟨shape, hshape⟩
  · refine List.mem_append_right _ (List.mem_flatMap.mpr ⟨op, op.mem_all, ?_⟩)
    refine List.mem_map.mpr ⟨(left, right), ?_, rfl⟩
    exact List.mem_flatMap.mpr ⟨left, left.mem_all, List.mem_map_of_mem right.mem_all⟩
  · refine List.mem_append_left _ ?_
    cases shape with
    | number => exact List.mem_cons_self
    | unknown => exact List.mem_cons_of_mem _ List.mem_cons_self
    | subexpression => exact absurd rfl hshape

theorem alternatives_eq (expression : Cursor → Run (Option Match)) (c : Cursor) :
    alternatives expression c = routes.map (route expression c) := by
  simp only [alternatives, routes, List.map_append, List.map_cons, List.map_nil, List.map_flatMap, List.map_map]
  simp only [route, Function.comp_def, Sum.elim_inr, Sum.elim_inl, application_eq]

theorem bracketed_eq (c : Cursor) (inside : Cursor → Run (Option Match)) :
    bracketed c inside = andThen (token .bracketOpen c) inside :=
  bind_congr fun found => by cases found <;> rfl

theorem opens_readOpen {inside : Cursor → Cursor → Finding Reading}
    (h : ∀ c d, (inside c d).From d.offset) : Opens fun c => readOpen c (inside c) := by
  constructor <;> intro c hhead
  · rw [readOpen, if_neg hhead]
  · rw [readOpen, if_pos hhead]
    exact h c (c.advance 1)

theorem opens_predict (limit allowance : Nat) : Opens (predict limit allowance) := by
  induction allowance with
  | zero => exact opens_readOpen fun _ _ => trivial
  | succ allowance ih => exact opens_readOpen fun _ => from_readInside ih.from

/-- Reading an expression without memory comes to what the predictive reader finds. -/
theorem covers_expression (limit allowance : Nat) (c : Cursor) :
    Covers (fun _ : Unit => expression forgetful limit allowance c) (predict limit allowance c) := by
  induction allowance generalizing c with
  | zero =>
      rw [expression, forgetful, bracketed_eq, predict]
      exact covers_readOpen fun _ => covers_of_raises fun _ => rfl
  | succ allowance ih =>
      rw [expression, forgetful, bracketed_eq, predict]
      refine covers_readOpen fun next => ?_
      rw [alternatives_eq]
      exact (covers_route ih (opens_predict limit allowance) next).firstOf mem_routes

end Progression.Recognizer
