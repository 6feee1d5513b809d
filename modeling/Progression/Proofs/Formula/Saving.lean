import Progression.Proofs.Formula.NestingLimit
import Progression.Proofs.Formula.RoundTrip

/-! # Saving formulas

A formula is saved as its text, and the text is read under the default limit, whatever limit the formula was first read
under. Its text nests brackets as deep as it nests applications. So it is restored exactly if it nests no more
applications than the default limit allows, and else the first bracket too many of its text is reported. -/

namespace Progression.Formula

/-- A formula with finite numbers is the same as itself. -/
theorem Finite.same_self {f : Formula} (hf : f.Finite) : f.same f := by
  induction f with
  | literal v =>
      cases v with
      | finite negative rank =>
          rw [same, Double.same, Double.position?]
          exact beq_self_eq_true _
      | infinite negative => cases hf
      | nan => cases hf
  | unknown => rfl
  | apply op left right ihleft ihright =>
      rw [same, beq_self_eq_true, ihleft hf.1, ihright hf.2]
      rfl

/-- A formula under a higher limit is one under the lower limit as well, unless that ends the reading at a bracket with
as many open in front of it as are allowed. -/
theorem parse_lower_limit {cs : List Char} {limit limit' : Nat} {f : Formula} (hpos : 1 ≤ limit) (hle : limit ≤ limit')
    (h : parse cs limit' = .ok f) :
    parse cs limit = .ok f ∨ ∃ place, parse cs limit = .error (.syntaxError cs ⟨.tooDeep limit, place⟩) ∧
      cs[place]? = some '(' ∧ unclosed (cs.take place) = limit := by
  rcases Recognizer.reading_upToLimit hle cs with heq | ⟨place, herror⟩
  · left
    rw [parse, heq]
    exact h
  · obtain ⟨-, -, -, hopen, hunclosed⟩ := precise_of_refused hpos (Recognizer.predict_of_reading_tooDeep herror)
    exact .inr ⟨place, parse_of_error herror, hopen, hunclosed⟩

theorem restore_save_eq (f : Formula) : restore f.save = parse f.chars defaultLimit := by
  show read f.toText defaultLimit = _
  rw [read_of_pos _ (by decide), toText, String.toList_ofList, Int.toNat_natCast]

/-- What is read under the default limit nests no more applications than that. -/
theorem depth_le_of_restore {f g : Formula} (h : restore f.save = .ok g) : g.depth ≤ defaultLimit := by
  obtain ⟨-, hdepth, hnesting⟩ := @finite_of_read f.toText defaultLimit g h
  omega

theorem Finite.restore_save {f : Formula} (hf : f.Finite) (hdepth : f.depth ≤ defaultLimit) :
    restore f.save = .ok f := by
  show read f.toText defaultLimit = .ok f
  exact read_toText_of_finite hf (by decide) (by omega)

/-- A formula with finite numbers that nests too many applications is not restored. -/
theorem Finite.restore_save_of_deep {f : Formula} (hf : f.Finite) (hdepth : defaultLimit < f.depth) :
    ∃ place, restore f.save = .error (.syntaxError f.chars ⟨.tooDeep defaultLimit, place⟩) ∧
      f.chars[place]? = some '(' ∧ unclosed (f.chars.take place) = defaultLimit := by
  have hpos : (1 : Int) ≤ f.depth := by omega
  have hread : parse f.chars f.depth = .ok f := by
    have h := read_toText_of_finite hf hpos (Int.le_refl _)
    rwa [read_of_pos _ hpos, toText, String.toList_ofList, Int.toNat_natCast] at h
  rcases parse_lower_limit (by decide) hdepth.le hread with hok | ⟨place, herror, hplace⟩
  · rw [← restore_save_eq] at hok
    exact absurd (depth_le_of_restore hok) (Nat.not_le.mpr hdepth)
  · rw [restore_save_eq]
    exact ⟨place, herror, hplace⟩

/-- A formula that was read under any limit is restored from what was saved of it exactly if it nests no more
applications than the default limit, as one does that was read under a limit no higher than that. It is then the same
as before. The text of any other one is refused at a bracket with as many open in front of it as the default limit
allows. -/
theorem restored_within_default_limit {text : String} {limit : Int} {f : Formula} (h : read text limit = .ok f) :
    (restore f.save = .ok f ↔ f.depth ≤ defaultLimit) ∧ (limit ≤ defaultLimit → f.depth ≤ defaultLimit) ∧ f.same f ∧
      (defaultLimit < f.depth →
        ∃ place, restore f.save = .error (.syntaxError f.chars ⟨.tooDeep defaultLimit, place⟩) ∧
          f.chars[place]? = some '(' ∧ unclosed (f.chars.take place) = defaultLimit) := by
  obtain ⟨hfinite, hdepth, hnesting⟩ := finite_of_read h
  refine ⟨⟨depth_le_of_restore, hfinite.restore_save⟩, fun hlimit => ?_, hfinite.same_self,
    hfinite.restore_save_of_deep⟩
  omega

/-- The unknown, added to itself again and again. -/
def tower : Nat → Formula
  | 0 => .unknown
  | n + 1 => .apply .add (tower n) .unknown

theorem depth_tower (n : Nat) : (tower n).depth = n := by
  induction n with
  | zero => rfl
  | succ n ih =>
      rw [tower, depth, ih, depth]
      omega

theorem finite_tower (n : Nat) : (tower n).Finite := by
  induction n with
  | zero => trivial
  | succ n ih => exact ⟨ih, trivial⟩

theorem read_tower {n : Nat} (hn : 1 ≤ n) : read (tower n).toText n = .ok (tower n) :=
  read_toText_of_finite (finite_tower n) (by omega) (by rw [depth_tower])

/-- The tower of a hundred applications is restored, and the next one is not. -/
theorem restored_within_default_limit_towers :
    read (tower 100).toText 100 = .ok (tower 100) ∧ restore (tower 100).save = .ok (tower 100) ∧
      read (tower 101).toText 101 = .ok (tower 101) ∧
      ∃ place, restore (tower 101).save = .error (.syntaxError (tower 101).chars ⟨.tooDeep 100, place⟩) := by
  have hundred := read_tower (show 1 ≤ 100 by decide)
  have hnext := read_tower (show 1 ≤ 101 by decide)
  refine ⟨hundred, ?_, hnext, ?_⟩
  · exact (restored_within_default_limit hundred).1.mpr (by rw [depth_tower]; decide)
  · obtain ⟨place, herror, -⟩ := (restored_within_default_limit hnext).2.2.2 (by rw [depth_tower]; decide)
    exact ⟨place, herror⟩

/-- A formula can be read, under a limit that is high enough for it, and yet not be restored. -/
theorem tower_not_restored :
    ¬∀ (text : String) (limit : Int) (f : Formula), 1 ≤ limit → read text limit = .ok f → restore f.save = .ok f := by
  intro h
  have hdepth := depth_le_of_restore (h _ 101 (tower 101) (by decide) (read_tower (by decide)))
  rw [depth_tower] at hdepth
  exact absurd hdepth (by decide)

end Progression.Formula
