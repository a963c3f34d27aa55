import Mathlib.Data.Nat.Notation

/-!
# Bisection

`bisect` looks for the greatest number that passes a test, between one that does and one that bounds the rest. Where
every number below one that passes does too, it finds it (`bisect_iff`).
-/

namespace Sequence

/-- Halving of what is between `low` and `high`, at most so many times. -/
def bisect (test : ℕ → Bool) : ℕ → ℕ → ℕ → ℕ
  | 0, low, _ => low
  | n + 1, low, high =>
    if low < high then
      let middle := (low + high + 1) / 2
      if test middle then bisect test n middle high else bisect test n low (middle - 1)
    else low

variable {test : ℕ → Bool} {n low high m : ℕ}

theorem le_bisect (h : low ≤ high) : low ≤ bisect test n low high := by
  induction n generalizing low high with
  | zero => exact Nat.le_refl low
  | succ n ih =>
    rw [bisect]
    split
    · dsimp only
      split
      · have hrest : (low + high + 1) / 2 ≤ bisect test n ((low + high + 1) / 2) high := ih (by omega)
        omega
      · exact ih (by omega)
    · exact Nat.le_refl low

theorem bisect_le (h : low ≤ high) : bisect test n low high ≤ high := by
  induction n generalizing low high with
  | zero => exact h
  | succ n ih =>
    rw [bisect]
    split
    · dsimp only
      split
      · exact ih (by omega)
      · have hrest : bisect test n low ((low + high + 1) / 2 - 1) ≤ (low + high + 1) / 2 - 1 := ih (by omega)
        omega
    · exact h

/-- What the search ends with passes, if `low` does. -/
theorem bisect_passes (h : test low = true) : test (bisect test n low high) = true := by
  induction n generalizing low high with
  | zero => exact h
  | succ n ih =>
    rw [bisect]
    split
    · dsimp only
      split
      · rename_i hmid
        exact ih hmid
      · exact ih h
    · exact h

/-- **The result is the greatest that passes**, of those above `low`. -/
theorem bisect_iff (hdown : ∀ a b, a ≤ b → test b = true → test a = true) (hn : high - low ≤ n) (hle : low ≤ high)
    (hlow : low < m) (hhigh : m ≤ high) : test m = true ↔ m ≤ bisect test n low high := by
  induction n generalizing low high with
  | zero => omega
  | succ n ih =>
    rw [bisect, if_pos (by omega)]
    dsimp only
    by_cases hmid : test ((low + high + 1) / 2) = true
    · rw [if_pos hmid]
      by_cases hm : m ≤ (low + high + 1) / 2
      · -- below the middle everything passes, and the result is not below it
        have hresult : (low + high + 1) / 2 ≤ bisect test n ((low + high + 1) / 2) high := le_bisect (by omega)
        constructor
        · intro _
          omega
        · intro _
          exact hdown m _ hm hmid
      · exact ih (by omega) (by omega) (by omega) hhigh
    · rw [if_neg hmid]
      by_cases hm : m ≤ (low + high + 1) / 2 - 1
      · exact ih (by omega) (by omega) hlow hm
      · -- from the middle on nothing passes, and the result is below it
        have hresult : bisect test n low ((low + high + 1) / 2 - 1) ≤ (low + high + 1) / 2 - 1 := bisect_le (by omega)
        constructor
        · intro hpass
          exact absurd (hdown _ m (by omega) hpass) hmid
        · intro hm'
          omega

end Sequence
