import Mathlib.Algebra.Order.BigOperators.Group.List
import Progression.Proofs.Gauge.Ledger

/-! # Batches

Amounts that are added in turn, whatever their order, leave the gauge where one addition of their sum leaves it, and
what is handed back on the way makes up what the one addition hands back. The same holds of amounts that are
subtracted. A step that hands nothing back is undone by the opposite one. -/

namespace Progression.Gauge

/-- The run that asks for one action with every amount in turn. -/
def batch (a : Action) (amounts : List Int) : List (Action × Int) := amounts.map fun n => (a, n)

section Amounts

variable {a : Action} (ha : a = .add ∨ a = .sub)
include ha

/-- Nothing added, or nothing subtracted, leaves a gauge in its range. -/
theorem event_zero {g : Gauge} (hg : g.InRange) : (g.event a 0).after = g ∧ (g.event a 0).handedBack = 0 := by
  obtain ⟨c, m, rfl, hc, hm⟩ := hg
  rcases ha with rfl | rfl
  · rw [event_add (Int.le_refl 0), Int.add_zero]
    exact ⟨congrArg (ofInts · m) (min_eq_left hm), max_eq_left (by omega)⟩
  · rw [event_sub (Int.le_refl 0), Int.sub_zero]
    exact ⟨congrArg (ofInts · m) (max_eq_right hc), max_eq_left (by omega)⟩

/-- Where the first amount is cut off at an end of the range, so is the sum, and the second amount is handed back
whole. -/
theorem event_event {g : Gauge} (hg : g.InRange) {n k : Int} (hn : 0 ≤ n) (hk : 0 ≤ k) :
    ((g.event a n).after.event a k).after = (g.event a (n + k)).after ∧
      (g.event a n).handedBack + ((g.event a n).after.event a k).handedBack = (g.event a (n + k)).handedBack := by
  obtain ⟨c, m, rfl, hc, hm⟩ := hg
  have hsum : 0 ≤ n + k := Int.add_nonneg hn hk
  rcases ha with rfl | rfl
  · rw [event_add hsum, event_add hn, event_add hk]
    refine ⟨congrArg (ofInts · m) ?_, ?_⟩
    · omega
    · change max 0 (c + n - m) + max 0 (min (c + n) m + k - m) = max 0 (c + (n + k) - m)
      omega
  · rw [event_sub hsum, event_sub hn, event_sub hk]
    refine ⟨congrArg (ofInts · m) ?_, ?_⟩
    · omega
    · change max 0 (n - c) + max 0 (k - max 0 (c - n)) = max 0 (n + k - c)
      omega

/-- The rest of a batch has been put together when its first amount joins it. -/
theorem afterRun_batch {g : Gauge} (hg : g.InRange) {amounts : List Int} (hamounts : ∀ n ∈ amounts, 0 ≤ n) :
    g.afterRun (batch a amounts) = (g.event a amounts.sum).after ∧
      Event.total a Event.handedBack (g.history (batch a amounts)) = (g.event a amounts.sum).handedBack := by
  induction amounts generalizing g with
  | nil =>
      obtain ⟨hafter, hback⟩ := event_zero ha hg
      exact ⟨hafter.symm, hback.symm⟩
  | cons n amounts ih =>
      obtain ⟨hn, hmore⟩ := List.forall_mem_cons.mp hamounts
      have hrange : (g.event a n).after.InRange := hg.step a n
      have haction : (g.event a n).action = a := rfl
      obtain ⟨hafter, hback⟩ := event_event ha hg hn (List.sum_nonneg hmore)
      obtain ⟨ihafter, ihback⟩ := ih hrange hmore
      constructor
      · calc
          g.afterRun (batch a (n :: amounts)) = (g.event a n).after.afterRun (batch a amounts) := rfl
          _ = ((g.event a n).after.event a amounts.sum).after := ihafter
          _ = (g.event a (n :: amounts).sum).after := by rw [hafter, List.sum_cons]
      · calc
          Event.total a Event.handedBack (g.history (batch a (n :: amounts)))
              = (g.event a n).handedBack +
                  Event.total a Event.handedBack ((g.event a n).after.history (batch a amounts)) := by
            rw [batch, List.map_cons, history, Event.total_cons, if_pos haction, batch]
          _ = (g.event a n).handedBack + ((g.event a n).after.event a amounts.sum).handedBack := by rw [ihback]
          _ = (g.event a (n :: amounts).sum).handedBack := by rw [hback, List.sum_cons]

/-- Every amount of a batch is answered, with what is handed back of it. -/
theorem result_of_mem_history_batch {g : Gauge} (hg : g.InRange) {amounts : List Int}
    (hamounts : ∀ n ∈ amounts, 0 ≤ n) :
    ∀ e ∈ g.history (batch a amounts), e.result = .ok (.int e.handedBack) := by
  induction amounts generalizing g with
  | nil => exact fun e he => absurd he List.not_mem_nil
  | cons n amounts ih =>
      obtain ⟨hn, hmore⟩ := List.forall_mem_cons.mp hamounts
      obtain ⟨c, m, rfl, hc, hm⟩ := hg
      have hsound := sound_event hc hm a n
      exact List.forall_mem_cons.mpr ⟨(hsound.answered hn ha).2, ih hsound.inRange hmore⟩

end Amounts

section Undoing

variable {c m n : Int}

/-- An amount that is answered is not negative. -/
theorem nonneg_of_result {a : Action} {g : Gauge} {v : Value} (h : (g.event a n).result = .ok v) : 0 ≤ n := by
  by_contra hneg
  rw [event_of_neg (Int.not_le.mp hneg)] at h
  cases h

/-- An addition that hands nothing back has added its whole amount. -/
theorem event_add_of_result (h : ((ofInts c m).event .add n).result = .ok (.int 0)) :
    0 ≤ n ∧ ((ofInts c m).event .add n).after = ofInts (c + n) m := by
  have hn := nonneg_of_result h
  rw [event_add hn] at h ⊢
  simp only [Except.ok.injEq, Value.number.injEq, Number.int.injEq] at h
  exact ⟨hn, congrArg (ofInts · m) (min_eq_left (by omega))⟩

theorem event_sub_of_result (h : ((ofInts c m).event .sub n).result = .ok (.int 0)) :
    0 ≤ n ∧ ((ofInts c m).event .sub n).after = ofInts (c - n) m := by
  have hn := nonneg_of_result h
  rw [event_sub hn] at h ⊢
  simp only [Except.ok.injEq, Value.number.injEq, Number.int.injEq] at h
  exact ⟨hn, congrArg (ofInts · m) (max_eq_right (by omega))⟩

theorem sub_undoes_add (hc : 0 ≤ c) (h : ((ofInts c m).event .add n).result = .ok (.int 0)) :
    (((ofInts c m).event .add n).after.event .sub n).result = .ok (.int 0) ∧
      (((ofInts c m).event .add n).after.event .sub n).after = ofInts c m := by
  obtain ⟨hn, hafter⟩ := event_add_of_result h
  rw [hafter, event_sub hn]
  refine ⟨congrArg (Except.ok ∘ Value.int) (max_eq_left (by omega)), congrArg (ofInts · m) ?_⟩
  rw [Int.add_sub_cancel]
  exact max_eq_right hc

theorem add_undoes_sub (hm : c ≤ m) (h : ((ofInts c m).event .sub n).result = .ok (.int 0)) :
    (((ofInts c m).event .sub n).after.event .add n).result = .ok (.int 0) ∧
      (((ofInts c m).event .sub n).after.event .add n).after = ofInts c m := by
  obtain ⟨hn, hafter⟩ := event_sub_of_result h
  rw [hafter, event_add hn, Int.sub_add_cancel]
  exact ⟨congrArg (Except.ok ∘ Value.int) (max_eq_left (by omega)), congrArg (ofInts · m) (min_eq_left hm)⟩

end Undoing

/-- Batches do not matter. Added or subtracted in any order, amounts that are not negative leave the gauge that one
step with their sum leaves, and hand back as much in all. What was added with nothing handed back, a subtraction takes
away again with nothing handed back, and the other way round. -/
theorem batch_eq_once {c m : Int} {g : Gauge} (hg : ofParts (.int c) (.int m) = .ok g) :
    (∀ a : Action, a = .add ∨ a = .sub → ∀ amounts order : List Int, (∀ n ∈ amounts, 0 ≤ n) → order.Perm amounts →
      g.afterRun (batch a order) = (g.event a amounts.sum).after ∧
        Event.total a Event.handedBack (g.history (batch a order)) = (g.event a amounts.sum).handedBack ∧
        ∀ e ∈ g.event a amounts.sum :: g.history (batch a order), e.result = .ok (.int e.handedBack)) ∧
      (∀ n : Int, (g.event .add n).result = .ok (.int 0) →
        ((g.event .add n).after.event .sub n).result = .ok (.int 0) ∧ ((g.event .add n).after.event .sub n).after = g) ∧
      ∀ n : Int, (g.event .sub n).result = .ok (.int 0) →
        ((g.event .sub n).after.event .add n).result = .ok (.int 0) ∧
          ((g.event .sub n).after.event .add n).after = g := by
  have hrange := inRange_of_ofParts hg
  obtain ⟨hc, hm, rfl⟩ := ofParts_int_eq_ok_iff.mp hg
  refine ⟨?_, fun n => sub_undoes_add hc, fun n => add_undoes_sub hm⟩
  intro a ha amounts order hamounts hperm
  have horder : ∀ n ∈ order, 0 ≤ n := fun n hn => hamounts n (hperm.mem_iff.mp hn)
  have honce := (sound_event hc hm a amounts.sum).answered (List.sum_nonneg hamounts) ha
  obtain ⟨hafter, hback⟩ := afterRun_batch ha hrange horder
  rw [hperm.sum_eq] at hafter hback
  exact ⟨hafter, hback, List.forall_mem_cons.mpr ⟨honce.2, result_of_mem_history_batch ha hrange horder⟩⟩

/-- Of 5, 3 and 4 the gauge at 2 of 10 hands back 4, in whatever order. -/
theorem batch_eq_once_cut_off :
    ofParts (.int 2) (.int 10) = .ok (ofInts 2 10) ∧
      (ofInts 2 10).afterRun (batch .add [4, 5, 3]) = ofInts 10 10 ∧
      Event.total .add Event.handedBack ((ofInts 2 10).history (batch .add [4, 5, 3])) = 4 ∧
      (((ofInts 2 10).event .add 8).after.event .sub 8).after = ofInts 2 10 := by
  have hg : ofParts (.int 2) (.int 10) = .ok (ofInts 2 10) := ofParts_int 2 10
  obtain ⟨hbatch, hundone, -⟩ := batch_eq_once hg
  obtain ⟨hafter, hback, -⟩ := hbatch .add (.inl rfl) [5, 3, 4] [4, 5, 3] (by decide) (by decide)
  refine ⟨hg, ?_, ?_, (hundone 8 (by decide)).2⟩
  · rw [hafter]
    decide
  · rw [hback]
    decide

end Progression.Gauge
