import Mathlib.Data.List.DropRight

/-!
# Scanning by windows

What is searched for is short. A text that is read in pieces is searched piece by piece, each with the end of what was
read before it: nothing is missed that is no longer than the end and one more (`occurs_append`).
-/

namespace Sequence

variable {α : Type} {P : List α → Prop} {k : ℕ} {a b l : List α}

/-- Something that is searched for occurs in the text. -/
def Occurs (P : List α → Prop) (l : List α) : Prop := ∃ m, P m ∧ m <:+: l

theorem Occurs.mono (h : Occurs P a) (hab : a <:+: b) : Occurs P b := by
  obtain ⟨m, hm, hinfix⟩ := h
  exact ⟨m, hm, hinfix.trans hab⟩

/-- The end of a text. -/
theorem rtake_suffix : l.rtake k <:+ l := List.drop_suffix _ _

/-- The end of a text is the end of its last piece, if that is long enough. -/
theorem rtake_append (h : k ≤ b.length) : (a ++ b).rtake k = b.rtake k := by
  unfold List.rtake
  rw [List.length_append, List.drop_append]
  have hle : a.length ≤ a.length + b.length - k := by omega
  rw [List.drop_eq_nil_of_le hle, List.nil_append]
  congr 1
  omega

/-- **Nothing is missed at a border**: what occurs in two pieces occurs in the first one, or in the end of the first
one and the second one. -/
theorem occurs_append (hP : ∀ m, P m → m.length ≤ k + 1) :
    Occurs P (a ++ b) ↔ Occurs P a ∨ Occurs P (a.rtake k ++ b) := by
  constructor
  · rintro ⟨m, hm, s, t, heq⟩
    have hlen := hP m hm
    by_cases hfit : s.length + m.length ≤ a.length
    · -- it ends before the border
      refine .inl ⟨m, hm, ?_⟩
      have hprefix : s ++ m <+: a := by
        have hwhole : s ++ m <+: a ++ b := ⟨t, heq⟩
        refine List.prefix_of_prefix_length_le hwhole ⟨b, rfl⟩ ?_
        rw [List.length_append]
        exact hfit
      exact (List.suffix_append s m).isInfix.trans hprefix.isInfix
    · -- it starts in the end of the first piece, or later
      refine .inr ⟨m, hm, ?_⟩
      have hstart : a.length - k ≤ s.length := by omega
      have hsuffix : m ++ t <:+ a.rtake k ++ b := by
        have hrest : a.rtake k ++ b = (a ++ b).drop (a.length - k) := by
          unfold List.rtake
          rw [List.drop_append_of_le_length (by omega)]
        rw [hrest, ← heq, List.append_assoc, List.drop_append_of_le_length hstart]
        exact List.suffix_append _ _
      exact (List.prefix_append m t).isInfix.trans hsuffix.isInfix
  · rintro (h | h)
    · exact h.mono (List.prefix_append a b).isInfix
    · refine h.mono (List.IsSuffix.isInfix ?_)
      obtain ⟨s, hs⟩ := rtake_suffix (l := a) (k := k)
      exact ⟨s, by rw [← List.append_assoc, hs]⟩

/-- What has no `x` does not end with it. -/
theorem occurs_concat {x : α} (hP : ∀ m, P m → x ∉ m) : Occurs P (a ++ [x]) ↔ Occurs P a := by
  constructor
  · rintro ⟨m, hm, s, t, heq⟩
    refine ⟨m, hm, ?_⟩
    rcases List.eq_nil_or_concat t with rfl | ⟨t', y, rfl⟩
    · rw [List.append_nil] at heq
      rcases List.eq_nil_or_concat m with rfl | ⟨m', y, rfl⟩
      · exact List.nil_infix
      · -- the last member of the text is `x`, which it does not have
        rw [List.concat_eq_append, ← List.append_assoc] at heq
        have hy : [y] = [x] := (List.append_inj' heq rfl).2
        rw [List.cons.injEq] at hy
        exact absurd (by simp [hy.1]) (hP _ hm)
    · rw [List.concat_eq_append, ← List.append_assoc] at heq
      exact ⟨s, t', (List.append_inj' heq rfl).1⟩
  · exact fun h => h.mono (List.prefix_append a [x]).isInfix

end Sequence
