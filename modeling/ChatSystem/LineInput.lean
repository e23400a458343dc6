/-
ChatSystem/LineInput.lean

Reading a text piece by piece, a piece being as much of a line as fits.
Nothing here knows what the symbols are.

* `readPiece` — up to `k` symbols; a piece ends behind the end of a line;
* `lines_induction` — a text is its last line, or a line, its end and a text.

How `readPiece` meets a line depends on the length of the line alone: it reads
the line and its end, the line without its end, or a part of it.
-/
import Mathlib.Data.List.TakeWhile

namespace Lines

variable {α : Type*} [DecidableEq α] {eol : α}

/-- Read up to `k` symbols, and nothing behind the end of a line: what is read,
and what is left. -/
def readPiece (eol : α) : ℕ → List α → List α × List α
  | 0, input => ([], input)
  | _ + 1, [] => ([], [])
  | k + 1, a :: input =>
    if a = eol then ([a], input)
    else (a :: (readPiece eol k input).1, (readPiece eol k input).2)

/-- Nothing is lost. -/
theorem readPiece_append (eol : α) (k : ℕ) (input : List α) :
    (readPiece eol k input).1 ++ (readPiece eol k input).2 = input := by
  fun_induction readPiece eol k input with
  | case1 => rfl
  | case2 => rfl
  | case3 => rfl
  | case4 k a input ha ih => rw [List.cons_append, ih]

/-- The rest is shorter, if anything is read. -/
theorem length_readPiece_lt (eol : α) {k : ℕ} (hk : 0 < k) {input : List α} (hne : input ≠ []) :
    (readPiece eol k input).2.length < input.length := by
  have hle : ∀ (k : ℕ) (input : List α), (readPiece eol k input).2.length ≤ input.length := by
    intro k input
    fun_induction readPiece eol k input with
    | case1 => exact le_rfl
    | case2 => exact le_rfl
    | case3 => simp
    | case4 k a input ha ih => exact ih.trans (Nat.le_succ _)
  rcases k with - | k
  · exact absurd hk (Nat.lt_irrefl 0)
  · rcases input with - | ⟨a, input⟩
    · exact absurd rfl hne
    · rw [readPiece]
      split
      · exact Nat.lt_succ_self _
      · exact Nat.lt_succ_of_le (hle k input)

/-- A line that fits with its end. -/
theorem readPiece_line {line : List α} (h : eol ∉ line) {k : ℕ} (hk : line.length < k)
    (rest : List α) : readPiece eol k (line ++ eol :: rest) = (line ++ [eol], rest) := by
  induction line generalizing k with
  | nil =>
    obtain ⟨k, rfl⟩ := Nat.exists_eq_succ_of_ne_zero (Nat.ne_of_gt hk)
    simp [readPiece]
  | cons a line ih =>
    obtain ⟨ha, hline⟩ := List.ne_and_not_mem_of_not_mem_cons h
    obtain ⟨k, rfl⟩ := Nat.exists_eq_succ_of_ne_zero (Nat.ne_of_gt (Nat.zero_lt_of_lt hk))
    have := ih hline (Nat.lt_of_succ_lt_succ hk)
    simp [readPiece, Ne.symm ha, this]

/-- A part of a line, as long as what may be read. -/
theorem readPiece_part {part : List α} (h : eol ∉ part) (rest : List α) :
    readPiece eol part.length (part ++ rest) = (part, rest) := by
  induction part with
  | nil => rfl
  | cons a part ih =>
    obtain ⟨ha, hpart⟩ := List.ne_and_not_mem_of_not_mem_cons h
    simp [readPiece, Ne.symm ha, ih hpart]

/-- The last line, without an end. -/
theorem readPiece_last {line : List α} (h : eol ∉ line) {k : ℕ} (hk : line.length ≤ k) :
    readPiece eol k line = (line, []) := by
  induction line generalizing k with
  | nil => rcases k with - | k <;> rfl
  | cons a line ih =>
    obtain ⟨ha, hline⟩ := List.ne_and_not_mem_of_not_mem_cons h
    obtain ⟨k, rfl⟩ := Nat.exists_eq_succ_of_ne_zero (Nat.ne_of_gt (Nat.zero_lt_of_lt hk))
    have := ih hline (Nat.le_of_succ_le_succ hk)
    simp [readPiece, Ne.symm ha, this]

/-- A text is its last line, or a line, its end and a text. -/
theorem lines_induction (eol : α) {p : List α → Prop} (last : ∀ line, eol ∉ line → p line)
    (cons : ∀ line rest, eol ∉ line → p rest → p (line ++ eol :: rest)) (input : List α) :
    p input := by
  have hall : ∀ n (input : List α), input.length ≤ n → p input := by
    intro n
    induction n with
    | zero =>
      intro input hlen
      exact last input (by simp [List.length_eq_zero_iff.mp (Nat.le_zero.mp hlen)])
    | succ n ih =>
      intro input hlen
      by_cases hmem : eol ∈ input
      · obtain ⟨line, rest, rfl, hline⟩ := List.eq_append_cons_of_mem hmem
        rw [List.length_append, List.length_cons] at hlen
        exact cons line rest hline (ih rest (by omega))
      · exact last input hmem
  exact hall input.length input le_rfl

end Lines
