import Progression.Formula.Parse
import Progression.Proofs.Formula.Simulation

/-! # The memory of the recognizer

The recognizer remembers results by place only. It might be asked for an expression at the same place with
another number of brackets that may still be opened, and what it remembers comes without the misses that
were recorded when it was found. Neither matters: at a place there is only one number of brackets, since it
is the limit less the brackets that are open there, and the misses of a remembered result have been recorded
before. So reading with and without memory comes to the same. -/

namespace Progression

namespace Recognizer

theorem Within.cons {place : Nat} {kinds : List TokenKind} {m : Miss} {misses : List Miss}
    (h : Within place kinds (m :: misses)) : (m.2 < place ∨ m.2 = place ∧ m.1 ∈ kinds) ∧ Within place kinds misses :=
  ⟨h m List.mem_cons_self, fun m' hm' => h m' (List.mem_cons_of_mem m hm')⟩

theorem Trace.miss_of_within {s : Trace} {m : Miss}
    (h : m.2 < s.furthest ∨ m.2 = s.furthest ∧ m.1 ∈ s.expected) : s.miss m.1 m.2 = s := by
  rw [Trace.miss]
  rcases h with hlt | ⟨heq, hmem⟩
  · rw [if_neg (by omega), if_neg (by omega)]
  · rw [if_neg (by omega), if_pos heq, List.insert_of_mem hmem]

theorem Trace.missAll_of_within {s : Trace} {misses : List Miss} (h : Within s.furthest s.expected misses) :
    s.missAll misses = s := by
  induction misses with
  | nil => rfl
  | cons m misses ih =>
      obtain ⟨hm, hmisses⟩ := h.cons
      show (s.miss m.1 m.2).missAll misses = s
      rw [Trace.miss_of_within hm]
      exact ih hmisses

theorem Within.miss {s : Trace} {misses : List Miss} (h : Within s.furthest s.expected misses) (kind : TokenKind)
    (n : Nat) : Within (s.miss kind n).furthest (s.miss kind n).expected misses := by
  intro m hm
  rw [Trace.miss]
  split
  · rename_i hlt
    refine .inl ?_
    show m.2 < n
    rcases h m hm with h | h <;> omega
  · split
    · exact (h m hm).imp_right (And.imp_right List.mem_insert_of_mem)
    · exact h m hm

theorem within_miss (s : Trace) (kind : TokenKind) (n : Nat) :
    n < (s.miss kind n).furthest ∨ n = (s.miss kind n).furthest ∧ kind ∈ (s.miss kind n).expected := by
  rw [Trace.miss]
  split
  · exact .inr ⟨rfl, List.mem_singleton_self kind⟩
  · split
    · rename_i heq
      exact .inr ⟨heq, List.mem_insert_self⟩
    · exact .inl (by omega)

theorem Within.missAll {s : Trace} {misses : List Miss} (h : Within s.furthest s.expected misses)
    (more : List Miss) : Within (s.missAll more).furthest (s.missAll more).expected misses := by
  induction more generalizing s with
  | nil => exact h
  | cons m more ih => exact ih (h.miss m.1 m.2)

/-- Misses that have been recorded stay recorded. -/
theorem within_missAll (s : Trace) (misses : List Miss) :
    Within (s.missAll misses).furthest (s.missAll misses).expected misses := by
  induction misses generalizing s with
  | nil => exact fun m hm => absurd hm List.not_mem_nil
  | cons m misses ih =>
      intro m' hm'
      rcases List.mem_cons.mp hm' with rfl | hm'
      · have hm : Within (s.miss m'.1 m'.2).furthest (s.miss m'.1 m'.2).expected [m'] := by
          intro m'' hm''
          rw [List.mem_singleton.mp hm'']
          exact within_miss s m'.1 m'.2
        exact hm.missAll misses m' (List.mem_singleton_self m')
      · exact ih (s.miss m.1 m.2) m' hm'

theorem Trace.miss_congr {s s' : Trace} (hfurthest : s.furthest = s'.furthest) (hexpected : s.expected = s'.expected)
    (kind : TokenKind) (n : Nat) : (s.miss kind n).furthest = (s'.miss kind n).furthest ∧
      (s.miss kind n).expected = (s'.miss kind n).expected ∧ (s.miss kind n).results = s.results := by
  rw [Trace.miss, Trace.miss, hfurthest, hexpected]
  split
  · exact ⟨rfl, rfl, rfl⟩
  · split
    · exact ⟨rfl, rfl, rfl⟩
    · exact ⟨hfurthest, hexpected, rfl⟩

/-- A remembered result is the one that reading afresh gives, and the misses of doing so are recorded. -/
def Recalled (text : List Char) (limit : Nat) (s : Trace) (entry : Nat × Option Match) : Prop :=
  ∃ misses, Gives (expression forgetful limit (limit - unclosed (text.take entry.1))
    ⟨entry.1, text.drop entry.1⟩) entry.2 misses ∧ Within s.furthest s.expected misses

/-- The trace of a run with memory beside that of a run without. -/
structure Recalls (text : List Char) (limit : Nat) (s s' : Trace) : Prop where
  furthest : s.furthest = s'.furthest
  expected : s.expected = s'.expected
  results : ∀ entry ∈ s.results, Recalled text limit s' entry

theorem Recalls.miss {text : List Char} {limit : Nat} {s s' : Trace} (h : Recalls text limit s s')
    (kind : TokenKind) (n : Nat) : Recalls text limit (s.miss kind n) (s'.miss kind n) := by
  obtain ⟨hfurthest, hexpected, hresults⟩ := Trace.miss_congr h.furthest h.expected kind n
  refine ⟨hfurthest, hexpected, fun entry hentry => ?_⟩
  rw [hresults] at hentry
  obtain ⟨misses, hgives, hwithin⟩ := h.results entry hentry
  exact ⟨misses, hgives, hwithin.miss kind n⟩

/-- A run of which something is covered has one outcome, whatever the trace is. -/
theorem Covers.settled {run : Run (Option (α × Cursor))} {o : Finding α} (h : Covers (fun _ : Unit => run) o) :
    (∃ a misses, Gives run a misses) ∨ ∃ e, Raises run e := by
  cases o with
  | found a c =>
      obtain ⟨-, _, misses, hgives⟩ := h
      exact .inl ⟨_, misses, hgives⟩
  | stuck place kinds =>
      obtain ⟨misses, hmisses, -⟩ := h
      exact .inl ⟨none, misses (), (hmisses ()).1⟩
  | refused e =>
      obtain ⟨-, _, hraises⟩ := h
      exact .inr ⟨e, hraises⟩

/-- What a run without memory finds can be remembered. -/
theorem recalled_of_run {text : List Char} {limit allowance n : Nat} {c : Cursor} {s t : Trace} {a : Option Match}
    (h : Behind text n c) (hlimit : allowance + n = limit)
    (hrun : (expression forgetful limit allowance c).run s = .ok (a, t)) : Recalled text limit t (c.offset, a) := by
  have hallowance : limit - unclosed (text.take c.offset) = allowance := by
    rw [h.unclosed]
    omega
  rw [Recalled, hallowance, ← h.rest]
  rcases (covers_expression limit allowance c).settled with ⟨b, misses, hgives⟩ | ⟨e, hraises⟩
  · obtain ⟨rfl, rfl⟩ := Prod.mk.inj (Except.ok.inj (hrun.symm.trans (hgives s)))
    exact ⟨misses, hgives, within_missAll s misses⟩
  · exact nomatch hrun.symm.trans (hraises s)

theorem run_remembering_of_some {allowance : Nat} {c : Cursor} {s : Trace} {result : Option Match}
    (h : s.results.lookup c.offset = some result) (run : Run (Option Match)) :
    (remembering allowance c run).run s = .ok (result, s) := by
  have hget : (get : Run Trace).run s = .ok (s, s) := rfl
  rw [remembering, StateT.run_bind, hget]
  dsimp only [bind, Except.bind]
  rw [h]
  rfl

theorem run_remembering_of_none {allowance : Nat} {c : Cursor} {s : Trace}
    (h : s.results.lookup c.offset = none) (run : Run (Option Match)) :
    (remembering allowance c run).run s = (run.run s).map fun found =>
      (found.1, { found.2 with results := (c.offset, found.1) :: found.2.results }) := by
  have hget : (get : Run Trace).run s = .ok (s, s) := rfl
  rw [remembering, StateT.run_bind, hget]
  dsimp only [bind, Except.bind]
  rw [h]
  show (run.run s >>= fun found => _) = _
  cases run.run s <;> rfl

theorem mem_of_lookup {results : List (Nat × Option Match)} {i : Nat} {result : Option Match}
    (h : results.lookup i = some result) : (i, result) ∈ results := by
  induction results with
  | nil => exact nomatch h
  | cons entry results ih =>
      obtain ⟨j, r⟩ := entry
      rw [List.lookup_cons] at h
      split at h
      · rename_i heq
        obtain rfl := Option.some.inj h
        obtain rfl : i = j := by simpa using heq
        exact List.mem_cons_self
      · exact List.mem_cons_of_mem _ (ih h)

/-- With related traces, what is remembered is what reading afresh would find. -/
theorem simulates_remembering {text : List Char} {limit allowance n : Nat} {c : Cursor} (h : Behind text n c)
    (hlimit : allowance + n = limit)
    (hafresh : Simulates (Recalls text limit) (Holds (Ends text n)) (afresh remembering limit allowance c)
      (afresh forgetful limit allowance c)) :
    Simulates (Recalls text limit) (Holds (Ends text n)) (remembering allowance c (afresh remembering limit allowance c))
      (forgetful allowance c (afresh forgetful limit allowance c)) := by
  intro s s' hs
  have hforgetful : (expression forgetful limit allowance c).run s' = (afresh forgetful limit allowance c).run s' := by
    rw [expression_eq, forgetful]
  have hallowance : limit - unclosed (text.take c.offset) = allowance := by
    rw [h.unclosed]
    omega
  rw [forgetful]
  cases hlookup : s.results.lookup c.offset with
  | none =>
      rw [run_remembering_of_none hlookup]
      rcases hafresh s s' hs with ⟨e, hrun, hrun'⟩ | ⟨a, t, t', hrun, hrun', ht, ha⟩
      · exact .inl ⟨e, by rw [hrun]; rfl, hrun'⟩
      · refine .inr ⟨a, { t with results := (c.offset, a) :: t.results }, t', by rw [hrun]; rfl, hrun', ?_, ha⟩
        refine ⟨ht.furthest, ht.expected, List.forall_mem_cons.mpr ⟨?_, ht.results⟩⟩
        exact recalled_of_run h hlimit (hforgetful.trans hrun')
  | some result =>
      obtain ⟨misses, hgives, hwithin⟩ := hs.results _ (mem_of_lookup hlookup)
      simp only [hallowance, ← h.rest] at hgives
      have hrun' := hgives s'
      rw [Trace.missAll_of_within hwithin, hforgetful] at hrun'
      rcases hafresh s s' hs with ⟨e, -, herror⟩ | ⟨a, t, t', -, hok, -, ha⟩
      · cases hrun'.symm.trans herror
      · obtain ⟨rfl, -⟩ := Prod.mk.inj (Except.ok.inj (hok.symm.trans hrun'))
        exact .inr ⟨a, s, s', run_remembering_of_some hlookup _, hrun', hs, ha⟩

theorem simulates_expression_remembering (text : List Char) (limit : Nat) :
    Simulates (Recalls text limit) (Holds (Ends text 0)) (expression remembering limit limit (.start text))
      (expression forgetful limit limit (.start text)) :=
  simulates_expression (fun _ _ kind n h => h.miss kind n) (fun _ _ _ h hlimit => simulates_remembering h hlimit)
    (behind_start text) (Nat.add_zero limit)

/-- Runs side by side from the start come to the same reading or the same error. -/
theorem reading_congr {R : Trace → Trace → Prop} {P : Option Match → Prop} {memory memory' : Memory} {limit : Nat}
    {text : List Char} (h : Simulates R P (expression memory limit limit (.start text))
      (expression memory' limit limit (.start text)))
    (hstart : R .start .start) (hR : ∀ s s', R s s' → s.furthest = s'.furthest ∧ s.expected = s'.expected) :
    reading memory limit text = reading memory' limit text := by
  rw [reading, reading]
  rcases h _ _ hstart with ⟨e, hrun, hrun'⟩ | ⟨a, t, t', hrun, hrun', ht, -⟩
  · rw [hrun, hrun']
  · obtain ⟨hfurthest, hexpected⟩ := hR t t' ht
    rw [hrun, hrun']
    cases a with
    | none =>
        show Except.error _ = Except.error _
        rw [hfurthest, hexpected]
    | some found => rfl

/-- Reading with and without memory comes to the same. -/
theorem reading_remembering (limit : Nat) (text : List Char) :
    reading remembering limit text = reading forgetful limit text := by
  refine reading_congr (simulates_expression_remembering text limit) ?_ fun s s' h => ⟨h.furthest, h.expected⟩
  exact ⟨rfl, rfl, fun entry hentry => absurd hentry List.not_mem_nil⟩

/-! ## The calls of a run -/

/-- Stops with the error where an expression is wanted at the place, with the number of brackets. -/
def interrupting (memory : Memory) (allowance : Nat) (c : Cursor) (e : SyntaxError) : Memory :=
  fun allowance' c' run => if allowance' = allowance ∧ c' = c then throw e else memory allowance' c' run

/-- The run over the text wants an expression at the place, with the number of brackets: it would stop there,
whatever the error is that it is stopped with. -/
def Calls (memory : Memory) (limit : Nat) (text : List Char) (allowance : Nat) (c : Cursor) : Prop :=
  ∀ e, reading (interrupting memory allowance c e) limit text = .error e

/-- Equal traces, all of whose results end at places of the text. -/
structure Agrees (text : List Char) (s s' : Trace) : Prop where
  eq : s = s'
  results : ∀ entry ∈ s.results, Holds (Ends text (unclosed (text.take entry.1))) entry.2

theorem Agrees.miss {text : List Char} {s s' : Trace} (h : Agrees text s s') (kind : TokenKind) (n : Nat) :
    Agrees text (s.miss kind n) (s'.miss kind n) := by
  refine ⟨congrArg (·.miss kind n) h.eq, fun entry hentry => h.results entry ?_⟩
  obtain ⟨-, -, hresults⟩ := Trace.miss_congr (congrArg Trace.furthest h.eq) (congrArg Trace.expected h.eq) kind n
  rwa [hresults] at hentry

/-- The memory keeps equal traces equal if reading afresh does. -/
def Steady (memory : Memory) : Prop :=
  ∀ (text : List Char) (allowance n : Nat) (c : Cursor) (run run' : Run (Option Match)), Behind text n c →
    Simulates (Agrees text) (Holds (Ends text n)) run run' →
      Simulates (Agrees text) (Holds (Ends text n)) (memory allowance c run) (memory allowance c run')

theorem steady_forgetful : Steady forgetful := fun _ _ _ _ _ _ _ h => h

theorem steady_remembering : Steady remembering := by
  intro text allowance n c run run' h hrun s s' hs
  obtain rfl := hs.eq
  cases hlookup : s.results.lookup c.offset with
  | some result =>
      have hends := hs.results _ (mem_of_lookup hlookup)
      rw [h.unclosed] at hends
      exact .inr ⟨result, s, s, run_remembering_of_some hlookup _, run_remembering_of_some hlookup _, hs, hends⟩
  | none =>
      rw [run_remembering_of_none hlookup, run_remembering_of_none hlookup]
      rcases hrun s s hs with ⟨e, hleft, hright⟩ | ⟨a, t, t', hleft, hright, ht, ha⟩
      · exact .inl ⟨e, by rw [hleft]; rfl, by rw [hright]; rfl⟩
      · obtain rfl := ht.eq
        refine .inr ⟨a, _, _, by rw [hleft]; rfl, by rw [hright]; rfl, ⟨rfl, ?_⟩, ha⟩
        refine List.forall_mem_cons.mpr ⟨?_, ht.results⟩
        rwa [h.unclosed]

/-- Interrupting where no call can be makes no difference. -/
theorem reading_interrupting {memory : Memory} (hmemory : Steady memory) {limit allowance : Nat} {text : List Char}
    {c : Cursor} (h : ∀ n, Behind text n c → allowance + n ≠ limit) (e : SyntaxError) :
    reading (interrupting memory allowance c e) limit text = reading memory limit text := by
  refine reading_congr (R := Agrees text) (P := Holds (Ends text 0)) ?_
    ⟨rfl, fun entry hentry => absurd hentry List.not_mem_nil⟩ fun s s' h =>
      ⟨congrArg Trace.furthest h.eq, congrArg Trace.expected h.eq⟩
  refine simulates_expression (fun s s' kind n h => h.miss kind n) (fun allowance' n c' hc' hlimit hafresh => ?_)
    (behind_start text) (Nat.add_zero limit)
  have hother : ¬(allowance' = allowance ∧ c' = c) := by
    rintro ⟨rfl, rfl⟩
    exact h n hc' hlimit
  rw [interrupting, if_neg hother]
  exact hmemory text allowance' n c' _ _ hc' hafresh

/-- At every call the brackets that may still be opened and those that are open make up the limit. -/
theorem behind_of_calls {memory : Memory} (hmemory : Steady memory) {limit allowance : Nat} {text : List Char}
    {c : Cursor} (h : Calls memory limit text allowance c) : ∃ n, Behind text n c ∧ allowance + n = limit := by
  by_contra hnone
  have hother (n : Nat) (hn : Behind text n c) : allowance + n ≠ limit := fun hlimit => hnone ⟨n, hn, hlimit⟩
  have herror (e : SyntaxError) : reading memory limit text = .error e := by
    rw [← reading_interrupting hmemory hother e]
    exact h e
  have heq := (herror ⟨.trailing, 0⟩).symm.trans (herror ⟨.trailing, 1⟩)
  exact nomatch heq

end Recognizer

namespace Formula

open Recognizer (Memory Calls forgetful remembering)

/-- The formula that a string writes, read with a memory of one's own choice. -/
def readWith (memory : Memory) (text : String) (limit : Int) : Except Fault Formula :=
  if limit < 1 then .error (Fault.nestingLimit limit).worded
  else do
    let reading ← (Recognizer.reading memory limit.toNat text.toList).mapError (.syntaxError text.toList)
    ofReading reading

theorem readWith_remembering (text : String) (limit : Int) : readWith remembering text limit = read text limit := rfl

/-- Reading with and without memory has the same outcome. With either memory, at every call the brackets that
are open and those that may still be opened make up the limit, so that no place is asked for twice with
different numbers of brackets. -/
theorem read_eq_forgetful (text : String) (limit : Int) :
    read text limit = readWith forgetful text limit ∧
      ∀ memory ∈ [remembering, forgetful], ∀ allowance c, Calls memory limit.toNat text.toList allowance c →
        (c.rest = text.toList.drop c.offset ∧
          allowance + unclosed (text.toList.take c.offset) = limit.toNat) ∧
        ∀ allowance' c', Calls memory limit.toNat text.toList allowance' c' → c'.offset = c.offset →
          allowance' = allowance ∧ c' = c := by
  constructor
  · rw [← readWith_remembering, readWith, readWith, Recognizer.reading_remembering]
  · intro memory hmemory allowance c hcall
    have hsteady : Recognizer.Steady memory := by
      simp only [List.mem_cons, List.not_mem_nil, or_false] at hmemory
      rcases hmemory with rfl | rfl
      · exact Recognizer.steady_remembering
      · exact Recognizer.steady_forgetful
    obtain ⟨n, hc, hn⟩ := Recognizer.behind_of_calls hsteady hcall
    refine ⟨⟨hc.rest, by rw [hc.unclosed, hn]⟩, fun allowance' c' hcall' hoffset => ?_⟩
    obtain ⟨n', hc', hn'⟩ := Recognizer.behind_of_calls hsteady hcall'
    obtain ⟨rfl, heq⟩ := hc'.unique hc hoffset
    exact ⟨by omega, heq⟩

/-- In `((x)+x)` the inner expression is called with one bracket open. -/
theorem read_eq_forgetful_nested :
    Calls remembering 3 ['(', '(', 'x', ')', '+', 'x', ')'] 2 ⟨1, ['(', 'x', ')', '+', 'x', ')']⟩ ∧
      2 + unclosed ['('] = 3 := by
  have htext : (String.ofList ['(', '(', 'x', ')', '+', 'x', ')']).toList =
      ['(', '(', 'x', ')', '+', 'x', ')'] := String.toList_ofList
  have hcall : Calls remembering 3 ['(', '(', 'x', ')', '+', 'x', ')'] 2 ⟨1, ['(', 'x', ')', '+', 'x', ')']⟩ :=
    fun e => rfl
  have hall := (read_eq_forgetful (String.ofList ['(', '(', 'x', ')', '+', 'x', ')']) 3).2 remembering
    List.mem_cons_self 2 ⟨1, ['(', 'x', ')', '+', 'x', ')']⟩
  rw [htext] at hall
  exact ⟨hcall, (hall hcall).1.2⟩

end Formula

end Progression
