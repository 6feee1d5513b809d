import Mathlib.Tactic.Choose
import Progression.Formula.Recognizer

/-! # Runs of a recognizer

A run that asks no memory goes the same way from every trace: it has the same result and records the
same misses. Alternatives are looked at together: a family of runs covers a finding if the first result
of the family, in whatever order it is gone through, is that finding. -/

namespace Progression.Recognizer

variable {α β ι κ : Type}

/-- A kind of token that was looked for in vain, and the place. -/
abbrev Miss := TokenKind × Nat

def Trace.missAll (s : Trace) (misses : List Miss) : Trace := misses.foldl (fun s m => s.miss m.1 m.2) s

@[simp] theorem Trace.missAll_nil (s : Trace) : s.missAll [] = s := rfl

theorem Trace.missAll_append (s : Trace) (misses more : List Miss) :
    s.missAll (misses ++ more) = (s.missAll misses).missAll more :=
  List.foldl_append

/-- From every trace the run has the result `a` and records the misses. -/
def Gives (run : Run α) (a : α) (misses : List Miss) : Prop :=
  ∀ s : Trace, run.run s = .ok (a, s.missAll misses)

/-- From every trace the run ends with the error. -/
def Raises (run : Run α) (e : SyntaxError) : Prop := ∀ s : Trace, run.run s = .error e

theorem Gives.unique {run : Run α} {a b : α} {misses more : List Miss} (h : Gives run a misses)
    (h' : Gives run b more) : a = b := by
  have hrun := (h .start).symm.trans (h' .start)
  exact congrArg Prod.fst (Except.ok.inj hrun)

theorem Gives.not_raises {run : Run α} {a : α} {misses : List Miss} {e : SyntaxError} (h : Gives run a misses) :
    ¬Raises run e :=
  fun hraises => nomatch (h .start).symm.trans (hraises .start)

theorem gives_pure (a : α) : Gives (pure a) a [] := fun _ => rfl

theorem Gives.bind {run : Run α} {f : α → Run β} {a : α} {b : β} {misses more : List Miss}
    (h : Gives run a misses) (hf : Gives (f a) b more) : Gives (run >>= f) b (misses ++ more) := by
  intro s
  rw [StateT.run_bind, h s, Trace.missAll_append, ← hf]
  rfl

theorem Gives.raises_bind {run : Run α} {f : α → Run β} {a : α} {e : SyntaxError} {misses : List Miss}
    (h : Gives run a misses) (hf : Raises (f a) e) : Raises (run >>= f) e := by
  intro s
  rw [StateT.run_bind, h s, ← hf]
  rfl

theorem Raises.bind {run : Run α} {e : SyntaxError} (h : Raises run e) (f : α → Run β) :
    Raises (run >>= f) e := by
  intro s
  rw [StateT.run_bind, h s]
  rfl

theorem Gives.map {run : Run α} {a : α} {misses : List Miss} (h : Gives run a misses) (f : α → β) :
    Gives (f <$> run) (f a) misses := by
  intro s
  rw [StateT.run_map, h s]
  rfl

theorem Raises.map {run : Run α} {e : SyntaxError} (h : Raises run e) (f : α → β) : Raises (f <$> run) e := by
  intro s
  rw [StateT.run_map, h s]
  rfl

theorem gives_attempt_some (kind : TokenKind) (c : Cursor) (a : α) : Gives (attempt kind c (some a)) (some a) [] :=
  fun _ => rfl

theorem gives_attempt_none (kind : TokenKind) (c : Cursor) :
    Gives (attempt kind c (none : Option α)) none [(kind, c.offset)] :=
  fun _ => rfl

/-- Goes on with what was found, if anything was. -/
def andThen (run : Run (Option α)) (f : α → Run (Option β)) : Run (Option β) := do
  match ← run with
  | none => return none
  | some a => f a

section AndThen

variable {run : Run (Option α)} {f : α → Run (Option β)} {misses more : List Miss}

theorem Gives.andThen_none (h : Gives run none misses) : Gives (andThen run f) none misses := by
  have hbind : Gives (andThen run f) none (misses ++ []) := h.bind (gives_pure none)
  rwa [List.append_nil] at hbind

theorem Gives.andThen {a : α} {b : Option β} (h : Gives run (some a) misses) (hf : Gives (f a) b more) :
    Gives (andThen run f) b (misses ++ more) :=
  h.bind hf

theorem Gives.andThen_raises {a : α} {e : SyntaxError} (h : Gives run (some a) misses) (hf : Raises (f a) e) :
    Raises (Recognizer.andThen run f) e :=
  h.raises_bind hf

theorem Raises.andThen {e : SyntaxError} (h : Raises run e) (f : α → Run (Option β)) :
    Raises (Recognizer.andThen run f) e :=
  h.bind _

end AndThen

/-- What a look at a text finds: a value and the place behind it, or a furthest place with the kinds of
tokens that were looked for there in vain, or an error that ends the search. -/
inductive Finding (α : Type) where
  | found (value : α) (next : Cursor)
  | stuck (place : Nat) (kinds : List TokenKind)
  | refused (e : SyntaxError)

namespace Finding

def bind : Finding α → (α → Cursor → Finding β) → Finding β
  | found value next, f => f value next
  | stuck place kinds, _ => stuck place kinds
  | refused e, _ => refused e

def map (f : α → β) : Finding α → Finding β
  | found value next => found (f value) next
  | stuck place kinds => stuck place kinds
  | refused e => refused e

/-- The finding has nothing to do with what stands in front of the place. -/
def From (n : Nat) : Finding α → Prop
  | found _ next => n ≤ next.offset
  | stuck place _ => n ≤ place
  | refused _ => True

theorem From.mono {m n : Nat} {o : Finding α} (h : o.From n) (hmn : m ≤ n) : o.From m := by
  cases o with
  | found value next => exact Nat.le_trans hmn h
  | stuck place kinds => exact Nat.le_trans hmn h
  | refused e => trivial

theorem From.bind {n : Nat} {o : Finding α} {f : α → Cursor → Finding β} (h : o.From n)
    (hf : ∀ value next, o = found value next → (f value next).From next.offset) : (o.bind f).From n := by
  cases o with
  | found value next => exact (hf value next rfl).mono h
  | stuck place kinds => exact h
  | refused e => trivial

theorem From.map {n : Nat} {o : Finding α} (h : o.From n) (f : α → β) : (o.map f).From n := by
  cases o <;> exact h

end Finding

/-- All misses are in front of the place. -/
def Below (place : Nat) (misses : List Miss) : Prop := ∀ m ∈ misses, m.2 < place

/-- All misses are in front of the place, or at the place and of one of the kinds. -/
def Within (place : Nat) (kinds : List TokenKind) (misses : List Miss) : Prop :=
  ∀ m ∈ misses, m.2 < place ∨ m.2 = place ∧ m.1 ∈ kinds

theorem below_nil (place : Nat) : Below place [] := fun _ hm => absurd hm List.not_mem_nil

theorem Below.mono {place place' : Nat} {misses : List Miss} (h : Below place misses) (hle : place ≤ place') :
    Below place' misses :=
  fun m hm => Nat.lt_of_lt_of_le (h m hm) hle

theorem Below.append {place : Nat} {misses more : List Miss} (h : Below place misses) (h' : Below place more) :
    Below place (misses ++ more) :=
  fun m hm => (List.mem_append.mp hm).elim (h m) (h' m)

theorem Below.within {place : Nat} {misses : List Miss} (h : Below place misses) (kinds : List TokenKind) :
    Within place kinds misses :=
  fun m hm => .inl (h m hm)

theorem Within.append {place : Nat} {kinds : List TokenKind} {misses more : List Miss}
    (h : Within place kinds misses) (h' : Within place kinds more) : Within place kinds (misses ++ more) :=
  fun m hm => (List.mem_append.mp hm).elim (h m) (h' m)

theorem Within.below {place place' : Nat} {kinds : List TokenKind} {misses : List Miss}
    (h : Within place kinds misses) (hlt : place < place') : Below place' misses :=
  fun m hm => (h m hm).elim (fun h => Nat.lt_trans h hlt) fun h => h.1 ▸ hlt

/-- The run does not stand in the way of the finding: it has that result or none, and no miss of it
matters beside the finding. -/
def Leans (run : Run (Option (α × Cursor))) : Finding α → Prop
  | .found a c => ∃ misses, Below c.offset misses ∧ (Gives run (some (a, c)) misses ∨ Gives run none misses)
  | .stuck place kinds => ∃ misses, Gives run none misses ∧ Within place kinds misses
  | .refused e => Raises run e ∨ ∃ misses, Gives run none misses

/-- No run of the family stands in the way of the finding, and together they have it. -/
def Covers (runs : ι → Run (Option (α × Cursor))) : Finding α → Prop
  | .found a c => (∀ i, Leans (runs i) (.found a c)) ∧ ∃ i misses, Gives (runs i) (some (a, c)) misses
  | .stuck place kinds =>
    ∃ misses : ι → List Miss, (∀ i, Gives (runs i) none (misses i) ∧ Within place kinds (misses i)) ∧
      ∀ kind ∈ kinds, ∃ i, (kind, place) ∈ misses i
  | .refused e => (∀ i, Leans (runs i) (.refused e)) ∧ ∃ i, Raises (runs i) e

theorem Covers.leans {runs : ι → Run (Option (α × Cursor))} {o : Finding α} (h : Covers runs o) (i : ι) :
    Leans (runs i) o := by
  cases o with
  | found a c => exact h.1 i
  | stuck place kinds =>
      obtain ⟨misses, hmisses, -⟩ := h
      exact ⟨misses i, hmisses i⟩
  | refused e => exact h.1 i

theorem leans_of_gives_none {run : Run (Option (α × Cursor))} {misses : List Miss} {n : Nat} {o : Finding α}
    (h : Gives run none misses) (hbelow : Below n misses) (ho : o.From n) : Leans run o := by
  cases o with
  | found a c => exact ⟨misses, hbelow.mono ho, .inr h⟩
  | stuck place kinds => exact ⟨misses, h, (hbelow.mono ho).within kinds⟩
  | refused e => exact .inr ⟨misses, h⟩

/-- A run that is gone on with leans to what its continuation leans to. -/
theorem Leans.andThen {run : Run (Option (α × Cursor))} {f : α × Cursor → Run (Option (β × Cursor))}
    {o : Finding α} {g : α → Cursor → Finding β} (h : Leans run o)
    (hf : ∀ a c, o = .found a c → Leans (f (a, c)) (g a c) ∧ (g a c).From c.offset) :
    Leans (andThen run f) (o.bind g) := by
  cases o with
  | found a c =>
      obtain ⟨misses, hbelow, hsome | hnone⟩ := h
      · obtain ⟨hleans, hfrom⟩ := hf a c rfl
        show Leans _ (g a c)
        cases hg : g a c with
        | found b d =>
            rw [hg] at hleans hfrom
            obtain ⟨more, hmore, hgives⟩ := hleans
            exact ⟨misses ++ more, (hbelow.mono hfrom).append hmore,
              hgives.imp hsome.andThen hsome.andThen⟩
        | stuck place kinds =>
            rw [hg] at hleans hfrom
            obtain ⟨more, hgives, hwithin⟩ := hleans
            exact ⟨misses ++ more, hsome.andThen hgives, ((hbelow.mono hfrom).within kinds).append hwithin⟩
        | refused e =>
            rw [hg] at hleans
            obtain hraises | ⟨more, hgives⟩ := hleans
            · exact .inl (hsome.andThen_raises hraises)
            · exact .inr ⟨misses ++ more, hsome.andThen hgives⟩
      · exact leans_of_gives_none hnone.andThen_none hbelow (hf a c rfl).2
  | stuck place kinds =>
      obtain ⟨misses, hgives, hwithin⟩ := h
      exact ⟨misses, hgives.andThen_none, hwithin⟩
  | refused e =>
      obtain hraises | ⟨misses, hgives⟩ := h
      · exact .inl (hraises.andThen f)
      · exact .inr ⟨misses, hgives.andThen_none⟩

/-- A family that is gone on with covers what its continuations cover. -/
theorem Covers.andThen [Nonempty κ] {runs : ι → Run (Option (α × Cursor))}
    {f : κ → α × Cursor → Run (Option (β × Cursor))} {o : Finding α} {g : α → Cursor → Finding β}
    (h : Covers runs o)
    (hf : ∀ a c, o = .found a c → Covers (fun k => f k (a, c)) (g a c) ∧ (g a c).From c.offset) :
    Covers (fun i : ι × κ => andThen (runs i.1) (f i.2)) (o.bind g) := by
  have hleans (i : ι × κ) : Leans (Recognizer.andThen (runs i.1) (f i.2)) (o.bind g) :=
    (h.leans i.1).andThen fun a c ho => ⟨(hf a c ho).1.leans i.2, (hf a c ho).2⟩
  obtain ⟨k⟩ := ‹Nonempty κ›
  cases o with
  | stuck place kinds =>
      obtain ⟨misses, hmisses, hattained⟩ := h
      refine ⟨fun i => misses i.1, fun i => ⟨(hmisses i.1).1.andThen_none, (hmisses i.1).2⟩, fun kind hkind => ?_⟩
      obtain ⟨i, hi⟩ := hattained kind hkind
      exact ⟨(i, k), hi⟩
  | refused e =>
      obtain ⟨i, hi⟩ := h.2
      exact ⟨hleans, (i, k), hi.andThen (f k)⟩
  | found a c =>
      obtain ⟨hruns, i, misses, hi⟩ := h
      obtain ⟨hcovers, hfrom⟩ := hf a c rfl
      simp only [Finding.bind] at hleans ⊢
      cases hg : g a c with
      | found b d =>
          rw [hg] at hcovers hleans
          obtain ⟨k', more, hk'⟩ := hcovers.2
          exact ⟨hleans, (i, k'), misses ++ more, hi.andThen hk'⟩
      | refused e =>
          rw [hg] at hcovers hleans
          obtain ⟨k', hk'⟩ := hcovers.2
          exact ⟨hleans, (i, k'), hi.andThen_raises hk'⟩
      | stuck place kinds =>
          rw [hg] at hcovers hfrom
          obtain ⟨misses', hmisses', hattained⟩ := hcovers
          choose before hbefore hgives using hruns
          have hchoice (j : ι × κ) : ∃ all, (Gives (Recognizer.andThen (runs j.1) (f j.2)) none all ∧
              Within place kinds all) ∧
              (Gives (runs j.1) (some (a, c)) (before j.1) → all = before j.1 ++ misses' j.2) := by
            have hwithin := ((hbefore j.1).mono hfrom).within kinds
            rcases hgives j.1 with hsome | hnone
            · exact ⟨_, ⟨hsome.andThen (hmisses' j.2).1, hwithin.append (hmisses' j.2).2⟩, fun _ => rfl⟩
            · exact ⟨_, ⟨hnone.andThen_none, hwithin⟩, fun hsome => nomatch hnone.unique hsome⟩
          choose all hall heq using hchoice
          refine ⟨all, hall, fun kind hkind => ?_⟩
          obtain ⟨k', hk'⟩ := hattained kind hkind
          have hsome : Gives (runs i) (some (a, c)) (before i) :=
            (hgives i).resolve_right fun hnone => nomatch hnone.unique hi
          refine ⟨(i, k'), ?_⟩
          rw [heq (i, k') hsome]
          exact List.mem_append_right _ hk'

/-! ## The first result of a list -/

section FirstOf

variable {run : Run (Option α)} {more : List (Run (Option α))} {misses later : List Miss}

theorem Gives.firstOf_some {a : α} (h : Gives run (some a) misses) :
    Gives (firstOf (run :: more)) (some a) misses := by
  have hbind : Gives (firstOf (run :: more)) (some a) (misses ++ []) := h.bind (gives_pure (some a))
  rwa [List.append_nil] at hbind

theorem Gives.firstOf_none {a : Option α} (h : Gives run none misses) (hmore : Gives (firstOf more) a later) :
    Gives (firstOf (run :: more)) a (misses ++ later) :=
  h.bind hmore

theorem Gives.firstOf_raises {e : SyntaxError} (h : Gives run none misses) (hmore : Raises (firstOf more) e) :
    Raises (firstOf (run :: more)) e :=
  h.raises_bind hmore

theorem Raises.firstOf {e : SyntaxError} (h : Raises run e) : Raises (Recognizer.firstOf (run :: more)) e :=
  h.bind _

end FirstOf

theorem gives_firstOf_none {runs : ι → Run (Option α)} {misses : ι → List Miss} {l : List ι}
    (h : ∀ i ∈ l, Gives (runs i) none (misses i)) : Gives (firstOf (l.map runs)) none (l.flatMap misses) := by
  induction l with
  | nil => exact gives_pure none
  | cons i l ih => exact (h i List.mem_cons_self).firstOf_none (ih fun j hj => h j (List.mem_cons_of_mem i hj))

/-- If no run stands in the way of what is to be found, it is found, or no run finds anything. -/
theorem firstOf_found {runs : ι → Run (Option (α × Cursor))} {a : α} {c : Cursor} {l : List ι}
    (h : ∀ i ∈ l, Leans (runs i) (.found a c)) :
    (∃ misses, Below c.offset misses ∧ Gives (firstOf (l.map runs)) (some (a, c)) misses) ∨
      ∀ i ∈ l, ∃ misses, Gives (runs i) none misses := by
  induction l with
  | nil => exact .inr fun i hi => absurd hi List.not_mem_nil
  | cons i l ih =>
      obtain ⟨misses, hbelow, hsome | hnone⟩ := h i List.mem_cons_self
      · exact .inl ⟨misses, hbelow, hsome.firstOf_some⟩
      · rcases ih fun j hj => h j (List.mem_cons_of_mem i hj) with ⟨later, hlater, hgives⟩ | hall
        · exact .inl ⟨misses ++ later, hbelow.append hlater, hnone.firstOf_none hgives⟩
        · exact .inr (List.forall_mem_cons.mpr ⟨⟨misses, hnone⟩, hall⟩)

theorem firstOf_refused {runs : ι → Run (Option (α × Cursor))} {e : SyntaxError} {l : List ι}
    (h : ∀ i ∈ l, Leans (runs i) (.refused e)) :
    Raises (firstOf (l.map runs)) e ∨ ∀ i ∈ l, ∃ misses, Gives (runs i) none misses := by
  induction l with
  | nil => exact .inr fun i hi => absurd hi List.not_mem_nil
  | cons i l ih =>
      obtain hraises | ⟨misses, hnone⟩ := h i List.mem_cons_self
      · exact .inl hraises.firstOf
      · rcases ih fun j hj => h j (List.mem_cons_of_mem i hj) with hraises | hall
        · exact .inl (hnone.firstOf_raises hraises)
        · exact .inr (List.forall_mem_cons.mpr ⟨⟨misses, hnone⟩, hall⟩)

/-- The first result of a list that holds all runs of a family is what the family covers. -/
theorem Covers.firstOf {runs : ι → Run (Option (α × Cursor))} {o : Finding α} {l : List ι}
    (h : Covers runs o) (hl : ∀ i, i ∈ l) : Covers (fun _ : Unit => firstOf (l.map runs)) o := by
  cases o with
  | found a c =>
      obtain ⟨hleans, i, misses, hi⟩ := h
      rcases firstOf_found (l := l) fun j _ => hleans j with ⟨misses', hbelow, hgives⟩ | hall
      · exact ⟨fun _ => ⟨misses', hbelow, .inl hgives⟩, (), misses', hgives⟩
      · obtain ⟨misses', hnone⟩ := hall i (hl i)
        exact nomatch hnone.unique hi
  | stuck place kinds =>
      obtain ⟨misses, hmisses, hattained⟩ := h
      refine ⟨fun _ => l.flatMap misses, fun _ => ⟨gives_firstOf_none fun i _ => (hmisses i).1, ?_⟩,
        fun kind hkind => ?_⟩
      · intro m hm
        obtain ⟨i, -, hi⟩ := List.mem_flatMap.mp hm
        exact (hmisses i).2 m hi
      · obtain ⟨i, hi⟩ := hattained kind hkind
        exact ⟨(), List.mem_flatMap.mpr ⟨i, hl i, hi⟩⟩
  | refused e =>
      obtain ⟨hleans, i, hi⟩ := h
      rcases firstOf_refused (l := l) fun j _ => hleans j with hraises | hall
      · exact ⟨fun _ => .inl hraises, (), hraises⟩
      · obtain ⟨misses, hnone⟩ := hall i (hl i)
        exact absurd hi hnone.not_raises

end Progression.Recognizer
