import Mathlib.Data.List.Basic

/-!
# Fields that end with a terminator

A list of fields is written with a terminator after each. Split at the terminator, what was written is the fields and
an empty piece after the last one (`splitOn_terminated`); what is done to a text piece by piece is done to the fields
(`apply_terminated`).
-/

namespace Sequence

variable {α : Type} {sep : α} {fields fields' : List (List α)}

/-- Fields, each with its terminator. -/
def terminated (sep : α) (fields : List (List α)) : List α := fields.flatMap fun field => field ++ [sep]

theorem terminated_cons (field : List α) :
    terminated sep (field :: fields) = field ++ sep :: terminated sep fields := by
  unfold terminated
  rw [List.flatMap_cons, List.append_assoc]
  rfl

theorem terminated_append : terminated sep (fields ++ fields') = terminated sep fields ++ terminated sep fields' :=
  List.flatMap_append

/-- **Fields are read back**, where none has the terminator. -/
theorem splitOn_terminated [DecidableEq α] (h : ∀ field ∈ fields, sep ∉ field) :
    (terminated sep fields).splitOn sep = fields ++ [[]] := by
  induction fields with
  | nil => rfl
  | cons field fields ih =>
    have hfield : sep ∉ field := h field List.mem_cons_self
    have hrest : ∀ field ∈ fields, sep ∉ field := fun x hx => h x (List.mem_cons_of_mem _ hx)
    rw [terminated_cons, List.splitOn_append_cons_self_of_not_mem hfield, ih hrest, List.cons_append]

/-- What ends at a terminator is done to each field. -/
theorem apply_terminated {f : List α → List α} (hnil : f [] = [])
    (happend : ∀ a b, f (a ++ sep :: b) = f a ++ sep :: f b) :
    f (terminated sep fields) = terminated sep (fields.map f) := by
  induction fields with
  | nil => exact hnil
  | cons field fields ih => rw [terminated_cons, happend, ih, List.map_cons, terminated_cons]

end Sequence
