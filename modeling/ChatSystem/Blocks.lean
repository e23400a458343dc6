/-
ChatSystem/Blocks.lean

The consecutive blocks of a fixed size in a list: the specification of a
reader that cuts a stream into frames of `size` elements.  A last part
shorter than a block is no block.

* `blocks_eq_cons` — the first block, then the blocks of the rest;
* `blocks_grow` — more elements behind leave the blocks there are;
* `blocks_append` — whole blocks in front may be read first.
-/
import Mathlib.Data.List.Basic
import Mathlib.Tactic.Common

namespace Blocks

variable {α : Type*} {size : ℕ}

/-- The blocks of `size` elements in `xs`, in order. -/
def blocks (size : ℕ) (xs : List α) : List (List α) :=
  (List.range (xs.length / size)).map fun i => (xs.drop (i * size)).take size

theorem blocks_of_lt {xs : List α} (h : xs.length < size) : blocks size xs = [] := by
  unfold blocks
  rw [Nat.div_eq_of_lt h]
  rfl

theorem blocks_eq_cons (hsize : 0 < size) {xs : List α} (h : size ≤ xs.length) :
    blocks size xs = xs.take size :: blocks size (xs.drop size) := by
  have hdiv : xs.length / size = (xs.drop size).length / size + 1 := by
    rw [List.length_drop, Nat.div_eq_sub_div hsize h]
  unfold blocks
  rw [hdiv, List.range_succ_eq_map, List.map_cons, List.map_map]
  refine congrArg₂ List.cons (by simp) (List.map_congr_left fun i _ => ?_)
  show (xs.drop ((i + 1) * size)).take size = ((xs.drop size).drop (i * size)).take size
  rw [List.drop_drop, Nat.succ_mul, Nat.add_comm]

theorem length_of_mem_blocks (hsize : 0 < size) {xs b : List α} (h : b ∈ blocks size xs) :
    b.length = size := by
  obtain ⟨i, hi, rfl⟩ := List.mem_map.mp h
  have hle : (i + 1) * size ≤ xs.length :=
    (Nat.le_div_iff_mul_le hsize).mp (List.mem_range.mp hi)
  rw [Nat.succ_mul] at hle
  rw [List.length_take, List.length_drop]
  omega

/-- The blocks of a list stay when it grows. -/
theorem blocks_grow (hsize : 0 < size) (xs ys : List α) :
    blocks size xs <+: blocks size (xs ++ ys) := by
  rcases Nat.lt_or_ge xs.length size with hlt | hle
  · rw [blocks_of_lt hlt]
    exact List.nil_prefix
  · have hle' : size ≤ (xs ++ ys).length := by
      rw [List.length_append]
      exact Nat.le_add_right_of_le hle
    rw [blocks_eq_cons hsize hle, blocks_eq_cons hsize hle', List.take_append_of_le_length hle,
      List.drop_append_of_le_length hle]
    exact (List.prefix_cons_inj _).mpr (blocks_grow hsize (xs.drop size) ys)
termination_by xs.length
decreasing_by
  rw [List.length_drop]
  omega

/-- A block in front. -/
theorem blocks_block_append (hsize : 0 < size) {b : List α} (hb : b.length = size)
    (xs : List α) : blocks size (b ++ xs) = b :: blocks size xs := by
  rw [blocks_eq_cons hsize (by rw [List.length_append, hb]; exact Nat.le_add_right _ _),
    List.take_left' hb, List.drop_left' hb]

/-- Whole blocks in front may be read first. -/
theorem blocks_append (hsize : 0 < size) {bs : List (List α)} (hbs : ∀ b ∈ bs, b.length = size)
    (xs : List α) : blocks size (bs.flatten ++ xs) = bs ++ blocks size xs := by
  induction bs with
  | nil => rfl
  | cons b bs ih =>
    have hrest : ∀ b' ∈ bs, b'.length = size := fun b' hb' => hbs b' (List.mem_cons_of_mem _ hb')
    rw [List.flatten_cons, List.append_assoc, blocks_block_append hsize (hbs b List.mem_cons_self),
      ih hrest, List.cons_append]

end Blocks
