/-
ChatSystem/Cut.lean

A text made of pieces, cut at a fixed length.  The pieces are joined by a
separator, possibly an empty one, and a writer with room for `n` symbols may

* leave the joined text cut to `n` symbols, wherever in a piece that is, or
* leave the longest run of whole pieces that fits (`wholePieces`).

The two agree exactly when everything fits or the cut falls on the end of a
piece (`take_intercalate_eq_iff`).  Nothing here knows what the pieces are.
-/
import Mathlib.Data.List.Basic
import Mathlib.Data.Nat.Find

namespace Cut

variable {α : Type*} {sep : List α} {ps : List (List α)} {n k : ℕ}

/-! ### Joined pieces -/

/-- Behind the first piece, each one comes with its separator. -/
theorem intercalate_cons_eq (sep p : List α) (ps : List (List α)) :
    sep.intercalate (p :: ps) = p ++ ps.flatMap (sep ++ ·) := by
  induction ps generalizing p with
  | nil => simp
  | cons p' ps ih => rw [List.intercalate_cons_cons, ih]; simp

/-- Around one of the pieces: those before it have the separator behind them,
those behind it in front. -/
theorem intercalate_append_cons (sep : List α) (ps : List (List α)) (p : List α)
    (qs : List (List α)) :
    sep.intercalate (ps ++ p :: qs) =
      ps.flatMap (· ++ sep) ++ (p ++ qs.flatMap (sep ++ ·)) := by
  induction ps with
  | nil =>
    rw [List.nil_append, intercalate_cons_eq]
    rfl
  | cons p' ps ih =>
    obtain ⟨q, rest, hrest⟩ := List.exists_cons_of_ne_nil (l := ps ++ p :: qs) (by simp)
    rw [List.cons_append, hrest, List.intercalate_cons_cons, ← hrest, ih]
    simp

/-- Fewer pieces join to a prefix. -/
theorem intercalate_prefix_take (sep : List α) (ps : List (List α)) (k : ℕ) :
    sep.intercalate (ps.take k) <+: sep.intercalate ps := by
  rcases ps with - | ⟨p, ps⟩
  · exact List.take_nil.symm ▸ List.prefix_rfl
  rcases k with - | k
  · exact List.nil_prefix
  rw [List.take_succ_cons, intercalate_cons_eq, intercalate_cons_eq,
    List.prefix_append_right_inj]
  conv_rhs => rw [← List.take_append_drop k ps, List.flatMap_append]
  exact List.prefix_append _ _

theorem intercalate_take_mono (sep : List α) (ps : List (List α)) {j k : ℕ} (hjk : j ≤ k) :
    (sep.intercalate (ps.take j)).length ≤ (sep.intercalate (ps.take k)).length := by
  have hpre := intercalate_prefix_take sep (ps.take k) j
  rw [List.take_take, Nat.min_eq_left hjk] at hpre
  exact hpre.length_le

/-! ### Whole pieces that fit -/

/-- How many leading pieces fit into `n` symbols, separators included. -/
def wholeCount (sep : List α) (n : ℕ) (ps : List (List α)) : ℕ :=
  Nat.findGreatest (fun k => (sep.intercalate (ps.take k)).length ≤ n) ps.length

/-- The longest run of leading pieces that fits into `n` symbols. -/
def wholePieces (sep : List α) (n : ℕ) (ps : List (List α)) : List (List α) :=
  ps.take (wholeCount sep n ps)

theorem length_wholePieces_le (sep : List α) (n : ℕ) (ps : List (List α)) :
    (sep.intercalate (wholePieces sep n ps)).length ≤ n :=
  Nat.findGreatest_spec (P := fun k => (sep.intercalate (ps.take k)).length ≤ n)
    (Nat.zero_le _) (Nat.zero_le _)

/-- No longer run fits. -/
theorem le_wholeCount (hk : k ≤ ps.length) (h : (sep.intercalate (ps.take k)).length ≤ n) :
    k ≤ wholeCount sep n ps :=
  Nat.le_findGreatest hk h

theorem wholePieces_of_fits (h : (sep.intercalate ps).length ≤ n) : wholePieces sep n ps = ps := by
  have hall : ps.length ≤ wholeCount sep n ps := le_wholeCount le_rfl (by rwa [List.take_length])
  exact List.take_of_length_le hall

/-- Of two prefixes of one list the length decides. -/
theorem take_eq_of_begins {p l : List α} (hp : p <+: l) :
    l.take n = p ↔ min n l.length = p.length := by
  constructor
  · rintro rfl
    exact (List.length_take).symm
  · intro hlen
    rw [List.take_eq_take_min, hlen]
    exact (List.prefix_iff_eq_take.mp hp).symm

/-- **A cut leaves whole pieces** exactly when nothing is cut off or a run of
leading pieces ends where the cut is. -/
theorem take_intercalate_eq_iff :
    (sep.intercalate ps).take n = sep.intercalate (wholePieces sep n ps) ↔
      (sep.intercalate ps).length ≤ n ∨ ∃ k, (sep.intercalate (ps.take k)).length = n := by
  have hfit := length_wholePieces_le sep n ps
  rw [take_eq_of_begins (p := sep.intercalate (wholePieces sep n ps))
    (intercalate_prefix_take sep ps _)]
  constructor
  · intro hlen
    rcases Nat.le_total (sep.intercalate ps).length n with hle | hle
    · exact .inl hle
    · rw [Nat.min_eq_left hle] at hlen
      exact .inr ⟨_, hlen.symm⟩
  · rintro (hle | ⟨k, hk⟩)
    · rw [Nat.min_eq_right hle, wholePieces_of_fits hle]
    · -- the run that ends at the cut is the longest that fits
      have hcount : min k ps.length ≤ wholeCount sep n ps := by
        refine le_wholeCount (Nat.min_le_right _ _) ?_
        rw [← hk, ← List.take_eq_take_min]
      have hmono := intercalate_take_mono sep ps hcount
      rw [← List.take_eq_take_min, hk] at hmono
      have hlen : n ≤ (sep.intercalate ps).length :=
        hk ▸ (intercalate_prefix_take sep ps k).length_le
      rw [Nat.min_eq_left hlen]
      exact Nat.le_antisymm hmono hfit

end Cut
