import Mathlib.Data.Nat.Basic
import Mathlib.Tactic.Common

/-!
# The bytes of an array

`ByteArray.toList` goes from index to index, by a well-founded recursion that evaluates slowly. What it returns is the
list of the data (`toList_data`), which evaluates by structure.
-/

namespace Sequence

theorem loop_data (b : ByteArray) (i : ℕ) (r : List UInt8) (hi : i ≤ b.size) :
    ByteArray.toList.loop b i r = r.reverse ++ b.data.toList.drop i := by
  have hsize : b.data.toList.length = b.size := rfl
  induction hn : b.size - i generalizing i r with
  | zero =>
    have hend : b.data.toList.length ≤ i := by omega
    rw [ByteArray.toList.loop, if_neg (by omega), List.drop_eq_nil_of_le hend, List.append_nil]
  | succ n ih =>
    have hlt : i < b.size := by omega
    have hbyte : b.get! i = b.data.toList[i] := by
      show b.data[i]! = _
      rw [getElem!_pos b.data i hlt, Array.getElem_toList]
    rw [ByteArray.toList.loop, if_pos hlt, ih _ _ (by omega) (by omega), List.reverse_cons, List.append_assoc,
      List.singleton_append, List.drop_eq_getElem_cons hlt, hbyte]

/-- **The bytes of an array are its data.** -/
theorem toList_data (b : ByteArray) : b.toList = b.data.toList := by
  rw [ByteArray.toList, loop_data b 0 [] (Nat.zero_le _), List.reverse_nil, List.nil_append, List.drop_zero]

end Sequence
