import Mathlib.Data.List.Forall2

/-!
# Lists of computations

`mapM` over a list gives a list exactly where every item gives its member of it, for computations that may give nothing
(`mapM_some_iff`) or raise (`mapM_ok_iff`).
-/

namespace Sequence

variable {α β ε : Type} {l : List α} {l' : List β}

/-- **All items give a value.** -/
theorem mapM_some_iff {f : α → Option β} : l.mapM f = some l' ↔ List.Forall₂ (fun x y => f x = some y) l l' := by
  induction l generalizing l' with
  | nil =>
    rw [List.mapM_nil, List.forall₂_nil_left_iff]
    exact ⟨fun h => (Option.some.inj h).symm, fun h => congrArg some h.symm⟩
  | cons x l ih =>
    rw [List.mapM_cons]
    constructor
    · intro h
      obtain ⟨y, hy, hrest⟩ := Option.bind_eq_some_iff.1 h
      obtain ⟨ys, hys, hcons⟩ := Option.bind_eq_some_iff.1 hrest
      cases hcons
      exact .cons hy (ih.1 hys)
    · intro h
      cases h with
      | cons hy hys =>
        rw [hy, ih.2 hys]
        rfl

/-- **No item raises.** -/
theorem mapM_ok_iff {f : α → Except ε β} : l.mapM f = .ok l' ↔ List.Forall₂ (fun x y => f x = .ok y) l l' := by
  induction l generalizing l' with
  | nil =>
    rw [List.mapM_nil, List.forall₂_nil_left_iff]
    exact ⟨fun h => (Except.ok.inj h).symm, fun h => congrArg Except.ok h.symm⟩
  | cons x l ih =>
    rw [List.mapM_cons]
    constructor
    · intro h
      cases hx : f x with
      | error e =>
        rw [hx] at h
        cases h
      | ok y =>
        rw [hx] at h
        cases hl : l.mapM f with
        | error e =>
          rw [hl] at h
          cases h
        | ok ys =>
          rw [hl] at h
          cases h
          exact .cons hx (ih.1 hl)
    · intro h
      cases h with
      | cons hy hys =>
        rw [hy, ih.2 hys]
        rfl

/-- Every item has its value, and every value its item. -/
theorem mem_of_mapM_ok {f : α → Except ε β} (h : l.mapM f = .ok l') :
    (∀ x ∈ l, ∃ y ∈ l', f x = .ok y) ∧ ∀ y ∈ l', ∃ x ∈ l, f x = .ok y := by
  have hall := mapM_ok_iff.1 h
  clear h
  induction hall with
  | nil => exact ⟨fun x hx => (by cases hx), fun y hy => by cases hy⟩
  | @cons x y l l' hy _ ih =>
    refine ⟨fun z hz => ?_, fun z hz => ?_⟩
    · rcases List.mem_cons.1 hz with rfl | hz
      · exact ⟨y, List.mem_cons_self, hy⟩
      · obtain ⟨u, hu, hf⟩ := ih.1 z hz
        exact ⟨u, List.mem_cons_of_mem _ hu, hf⟩
    · rcases List.mem_cons.1 hz with rfl | hz
      · exact ⟨x, List.mem_cons_self, hy⟩
      · obtain ⟨u, hu, hf⟩ := ih.2 z hz
        exact ⟨u, List.mem_cons_of_mem _ hu, hf⟩

end Sequence
