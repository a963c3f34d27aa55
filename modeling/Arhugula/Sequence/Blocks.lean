import Mathlib.Data.List.Basic
import Mathlib.Data.List.Infix

/-!
# Blocks of one length

`blocks n xs` cuts a list into blocks of `n`, and `rest n xs` is what is left over. What is cut is what was there
(`flatten_blocks`), and a list that comes in pieces is cut as it is in one (`blocks_append`, `rest_append`).
-/

namespace Sequence

variable {α : Type}

/-- The blocks of `n` in a list, at most so many. -/
def blocksIn (n : ℕ) : ℕ → List α → List (List α)
  | 0, _ => []
  | k + 1, xs => if n ≤ xs.length then xs.take n :: blocksIn n k (xs.drop n) else []

/-- **The blocks of `n` in a list.** -/
def blocks (n : ℕ) (xs : List α) : List (List α) := blocksIn n (xs.length / n) xs

/-- **What is left over.** -/
def rest (n : ℕ) (xs : List α) : List α := xs.drop (xs.length / n * n)

variable {n : ℕ} {xs ys : List α}

theorem blocks_of_lt (h : xs.length < n) : blocks n xs = [] := by
  unfold blocks
  rw [Nat.div_eq_of_lt h]
  rfl

theorem rest_of_lt (h : xs.length < n) : rest n xs = xs := by
  unfold rest
  rw [Nat.div_eq_of_lt h, Nat.zero_mul, List.drop_zero]

/-- The first block, and the others. -/
theorem blocks_of_le (hn : 0 < n) (h : n ≤ xs.length) : blocks n xs = xs.take n :: blocks n (xs.drop n) := by
  unfold blocks
  have hlen : xs.length / n = (xs.drop n).length / n + 1 := by
    rw [List.length_drop, ← Nat.div_eq_sub_div hn h]
  rw [hlen, blocksIn, if_pos h]

theorem rest_of_le (hn : 0 < n) (h : n ≤ xs.length) : rest n xs = rest n (xs.drop n) := by
  unfold rest
  have hlen : xs.length / n = (xs.drop n).length / n + 1 := by
    rw [List.length_drop, ← Nat.div_eq_sub_div hn h]
  rw [hlen, List.drop_drop, Nat.succ_mul, Nat.add_comm]

/-- Nothing is lost: the blocks, and what is left over. -/
theorem flatten_blocks (hn : 0 < n) (xs : List α) : (blocks n xs).flatten ++ rest n xs = xs := by
  induction hlen : xs.length using Nat.strong_induction_on generalizing xs with
  | _ m ih =>
    rcases Nat.lt_or_ge xs.length n with h | h
    · rw [blocks_of_lt h, rest_of_lt h]
      rfl
    · have hshort : (xs.drop n).length < m := by
        rw [List.length_drop]
        omega
      rw [blocks_of_le hn h, rest_of_le hn h, List.flatten_cons, List.append_assoc, ih _ hshort _ rfl,
        List.take_append_drop]

theorem length_of_mem_blocks (hn : 0 < n) (xs : List α) : ∀ b ∈ blocks n xs, b.length = n := by
  induction hlen : xs.length using Nat.strong_induction_on generalizing xs with
  | _ m ih =>
    intro b hb
    rcases Nat.lt_or_ge xs.length n with h | h
    · rw [blocks_of_lt h] at hb
      cases hb
    · rw [blocks_of_le hn h] at hb
      rcases List.mem_cons.1 hb with rfl | hb
      · rw [List.length_take]
        omega
      · have hshort : (xs.drop n).length < m := by
          rw [List.length_drop]
          omega
        exact ih _ hshort _ rfl b hb

/-- **A list that comes in pieces** is cut as it is in one: what is left over of a piece begins the next. -/
theorem blocks_append (hn : 0 < n) (xs ys : List α) :
    blocks n (xs ++ ys) = blocks n xs ++ blocks n (rest n xs ++ ys) ∧ rest n (xs ++ ys) = rest n (rest n xs ++ ys) := by
  induction hlen : xs.length using Nat.strong_induction_on generalizing xs with
  | _ m ih =>
    rcases Nat.lt_or_ge xs.length n with h | h
    · rw [blocks_of_lt h, rest_of_lt h]
      exact ⟨rfl, rfl⟩
    · have hshort : (xs.drop n).length < m := by
        rw [List.length_drop]
        omega
      obtain ⟨hblocks, hrest⟩ := ih _ hshort (xs.drop n) rfl
      have hle : n ≤ (xs ++ ys).length := by
        rw [List.length_append]
        omega
      rw [blocks_of_le hn hle, rest_of_le hn hle, blocks_of_le hn h, rest_of_le hn h, List.take_append_of_le_length h,
        List.drop_append_of_le_length h, hblocks, hrest]
      exact ⟨rfl, rfl⟩

end Sequence
