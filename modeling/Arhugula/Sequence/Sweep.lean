import Mathlib.MeasureTheory.Measure.Lebesgue.Basic

/-!
# Sweeping intervals

`sweep` goes through intervals in the order of their starts and adds up what each has beyond what was reached. Over the
reals that is the measure of what they cover from where the sweep begins (`volume_cover`), so it does not depend on the
order of equal starts, grows with what is covered, and is at most the sum over the parts that cover it.
-/

namespace Sequence

section

variable {K : Type} [AddCommGroup K] [LinearOrder K]

/-- What intervals have beyond `reached`, each counted from the end of those before it. -/
def sweep (reached : K) : List (K × K) → K
  | [] => 0
  | (a, b) :: l => if reached < b then (b - max a reached) + sweep b l else sweep reached l

end

open MeasureTheory Set

/-- The points of intervals. -/
def cover (l : List (ℝ × ℝ)) : Set ℝ := {x | ∃ p ∈ l, p.1 ≤ x ∧ x < p.2}

variable {l l' : List (ℝ × ℝ)} {p : ℝ × ℝ} {r s e : ℝ}

theorem cover_cons : cover (p :: l) = Ico p.1 p.2 ∪ cover l := by
  ext x
  simp [cover]

theorem measurableSet_cover (l : List (ℝ × ℝ)) : MeasurableSet (cover l) := by
  induction l with
  | nil =>
    have hempty : cover [] = ∅ := by
      ext x
      simp [cover]
    rw [hempty]
    exact MeasurableSet.empty
  | cons p l ih =>
    rw [cover_cons]
    exact measurableSet_Ico.union ih

theorem volume_cover_ne_top (l : List (ℝ × ℝ)) : volume (cover l) ≠ ⊤ := by
  induction l with
  | nil =>
    have hempty : cover [] = ∅ := by
      ext x
      simp [cover]
    rw [hempty, measure_empty]
    exact ENNReal.zero_ne_top
  | cons p l ih =>
    rw [cover_cons]
    apply (measure_union_lt_top _ (lt_top_iff_ne_top.2 ih)).ne
    rw [Real.volume_Ico]
    exact ENNReal.ofReal_lt_top

theorem cover_subset_of_subset (hl : l ⊆ l') : cover l ⊆ cover l' := by
  rintro x ⟨p, hp, hx⟩
  exact ⟨p, hl hp, hx⟩

/-- Intervals end after they start. -/
def Proper (l : List (ℝ × ℝ)) : Prop := ∀ p ∈ l, p.1 ≤ p.2

/-- Intervals stand in the order of their starts. -/
def Started (l : List (ℝ × ℝ)) : Prop := l.Pairwise fun p q => p.1 ≤ q.1

theorem sweep_nonneg (hl : Proper l) : 0 ≤ sweep r l := by
  induction l generalizing r with
  | nil => exact le_refl 0
  | cons p l ih =>
    obtain ⟨a, b⟩ := p
    have hrest : Proper l := fun q hq => hl q (List.mem_cons_of_mem _ hq)
    have hab : a ≤ b := hl (a, b) List.mem_cons_self
    unfold sweep
    by_cases hr : r < b
    · rw [if_pos hr]
      have hmax : max a r ≤ b := max_le hab hr.le
      have hsweep : 0 ≤ sweep b l := ih hrest
      linarith
    · rw [if_neg hr]
      exact ih hrest

/-- **A sweep is a measure**: of what the intervals cover from where it begins. -/
theorem volume_cover (hl : Proper l) (hs : Started l) : volume (cover l ∩ Ici r) = ENNReal.ofReal (sweep r l) := by
  induction l generalizing r with
  | nil =>
    have hempty : cover [] ∩ Ici r = ∅ := by
      ext x
      simp [cover]
    rw [hempty, measure_empty]
    exact ENNReal.ofReal_zero.symm
  | cons p l ih =>
    obtain ⟨a, b⟩ := p
    have hrest : Proper l := fun q hq => hl q (List.mem_cons_of_mem _ hq)
    have hab : a ≤ b := hl (a, b) List.mem_cons_self
    obtain ⟨hfirst, hstarted⟩ := List.pairwise_cons.1 hs
    unfold sweep
    by_cases hr : r < b
    · rw [if_pos hr]
      have hmax : max a r ≤ b := max_le hab hr.le
      -- the rest starts after `a`, so what it has before `b` is covered already
      have hsplit : cover ((a, b) :: l) ∩ Ici r = Ico (max a r) b ∪ (cover l ∩ Ici b) := by
        ext x
        constructor
        · rintro ⟨hx, hrx⟩
          rw [cover_cons] at hx
          by_cases hxb : x < b
          · refine .inl ⟨?_, hxb⟩
            rcases hx with hx | ⟨q, hq, hqx, -⟩
            · exact max_le hx.1 hrx
            · exact max_le ((hfirst q hq).trans hqx) hrx
          · rcases hx with hx | hx
            · exact absurd hx.2 hxb
            · exact .inr ⟨hx, not_lt.1 hxb⟩
        · rintro (⟨hx, hxb⟩ | ⟨hx, hbx⟩)
          · refine ⟨?_, (le_max_right a r).trans hx⟩
            rw [cover_cons]
            exact .inl ⟨(le_max_left a r).trans hx, hxb⟩
          · refine ⟨?_, hr.le.trans hbx⟩
            rw [cover_cons]
            exact .inr hx
      have hdisjoint : Disjoint (Ico (max a r) b) (cover l ∩ Ici b) := by
        rw [Set.disjoint_left]
        rintro x ⟨-, hxb⟩ ⟨-, hbx⟩
        exact absurd hxb (not_lt.2 hbx)
      have hsum := ih (r := b) hrest hstarted
      rw [hsplit, measure_union hdisjoint ((measurableSet_cover l).inter measurableSet_Ici), hsum, Real.volume_Ico,
        ENNReal.ofReal_add (by linarith) (sweep_nonneg hrest)]
    · rw [if_neg hr]
      have hskip : cover ((a, b) :: l) ∩ Ici r = cover l ∩ Ici r := by
        ext x
        rw [cover_cons]
        constructor
        · rintro ⟨hx | hx, hrx⟩
          · exact absurd (lt_of_le_of_lt hrx hx.2) hr
          · exact ⟨hx, hrx⟩
        · rintro ⟨hx, hrx⟩
          exact ⟨.inr hx, hrx⟩
      rw [hskip]
      exact ih hrest hstarted

/-- **Where a sweep loses nothing**: it begins before every interval that has a length. -/
theorem volume_cover_eq_iff : volume (cover l ∩ Ici r) = volume (cover l) ↔ ∀ p ∈ l, p.1 < p.2 → r ≤ p.1 := by
  have hsplit := measure_inter_add_sdiff (μ := volume) (cover l) (measurableSet_Ici (a := r))
  constructor
  · intro heq p hp hlen
    by_contra hbefore
    -- what the interval has before `r` is lost
    have hlost : Ico p.1 (min p.2 r) ⊆ cover l \ Ici r := by
      rintro x ⟨hx, hlt⟩
      refine ⟨⟨p, hp, hx, hlt.trans_le (min_le_left _ _)⟩, ?_⟩
      intro hrx
      exact absurd (hlt.trans_le (min_le_right _ _)) (not_lt.2 hrx)
    have hzero : volume (cover l \ Ici r) = 0 := by
      rw [heq] at hsplit
      have hcancel : volume (cover l) + volume (cover l \ Ici r) = volume (cover l) + 0 := by rw [hsplit, add_zero]
      exact (ENNReal.add_right_inj (volume_cover_ne_top l)).1 hcancel
    have hnull := measure_mono_null hlost hzero
    rw [Real.volume_Ico, ENNReal.ofReal_eq_zero] at hnull
    have hmin : p.1 < min p.2 r := lt_min hlen (not_le.1 hbefore)
    linarith
  · intro hall
    have hinside : cover l ∩ Ici r = cover l := by
      apply inter_eq_left.2
      rintro x ⟨p, hp, hx, hlt⟩
      exact (hall p hp (hx.trans_lt hlt)).trans hx
    rw [hinside]

/-- A sweep grows with what is covered. -/
theorem sweep_le_of_subset (hl : Proper l) (hs : Started l) (hl' : Proper l') (hs' : Started l')
    (hsub : cover l ⊆ cover l') : sweep r l ≤ sweep r l' := by
  have hle : volume (cover l ∩ Ici r) ≤ volume (cover l' ∩ Ici r) := measure_mono (inter_subset_inter_left _ hsub)
  rw [volume_cover hl hs, volume_cover hl' hs'] at hle
  exact (ENNReal.ofReal_le_ofReal_iff (sweep_nonneg hl')).1 hle

/-- **A sweep does not depend on the order.** -/
theorem sweep_eq_of_perm (hl : Proper l) (hs : Started l) (hs' : Started l') (hp : l.Perm l') :
    sweep r l = sweep r l' := by
  have hl' : Proper l' := fun q hq => hl q (hp.mem_iff.2 hq)
  apply le_antisymm
  · exact sweep_le_of_subset hl hs hl' hs' (cover_subset_of_subset hp.subset)
  · exact sweep_le_of_subset hl' hs' hl hs (cover_subset_of_subset hp.symm.subset)

/-- What is covered between two points is not longer than from one to the other. -/
theorem sweep_le_sub (hl : Proper l) (hs : Started l) (hse : s ≤ e) (hin : ∀ p ∈ l, s ≤ p.1 ∧ p.2 ≤ e) :
    sweep r l ≤ e - s := by
  have hsub : cover l ∩ Ici r ⊆ Ico s e := by
    rintro x ⟨⟨p, hp, hx, hlt⟩, -⟩
    exact ⟨(hin p hp).1.trans hx, hlt.trans_le (hin p hp).2⟩
  have hle := measure_mono (μ := volume) hsub
  rw [volume_cover hl hs, Real.volume_Ico] at hle
  exact (ENNReal.ofReal_le_ofReal_iff (sub_nonneg.2 hse)).1 hle

/-- **Parts that cover it** come to at least as much. -/
theorem sweep_le_sum {parts : List (List (ℝ × ℝ))} (hl : Proper l) (hs : Started l)
    (hparts : ∀ q ∈ parts, Proper q ∧ Started q) (hcovered : ∀ x ∈ cover l, ∃ q ∈ parts, x ∈ cover q) :
    sweep r l ≤ (parts.map (sweep r)).sum := by
  have hnonneg : 0 ≤ (parts.map (sweep r)).sum := by
    apply List.sum_nonneg
    intro x hx
    obtain ⟨q, hq, rfl⟩ := List.mem_map.1 hx
    exact sweep_nonneg (hparts q hq).1
  have hbound : ∀ t : Set ℝ, (∀ x ∈ t, ∃ q ∈ parts, x ∈ cover q ∩ Ici r) →
      volume t ≤ ENNReal.ofReal (parts.map (sweep r)).sum := by
    clear hcovered hnonneg
    induction parts with
    | nil =>
      intro t ht
      have hempty : t = ∅ := by
        ext x
        simpa using ht x
      rw [hempty, measure_empty]
      exact bot_le
    | cons q parts ih =>
      intro t ht
      have hq := hparts q List.mem_cons_self
      have hrest : ∀ q' ∈ parts, Proper q' ∧ Started q' := fun q' hq' => hparts q' (List.mem_cons_of_mem _ hq')
      have hsub : t ⊆ (cover q ∩ Ici r) ∪ (t \ (cover q ∩ Ici r)) := by
        intro x hx
        by_cases hin : x ∈ cover q ∩ Ici r
        · exact .inl hin
        · exact .inr ⟨hx, hin⟩
      have hothers : volume (t \ (cover q ∩ Ici r)) ≤ ENNReal.ofReal (parts.map (sweep r)).sum := by
        apply ih hrest
        rintro x ⟨hx, hout⟩
        obtain ⟨q', hq', hx'⟩ := ht x hx
        rcases List.mem_cons.1 hq' with rfl | hmem
        · exact absurd hx' hout
        · exact ⟨q', hmem, hx'⟩
      have hsum : 0 ≤ (parts.map (sweep r)).sum := by
        apply List.sum_nonneg
        intro x hx
        obtain ⟨q', hq', rfl⟩ := List.mem_map.1 hx
        exact sweep_nonneg (hrest q' hq').1
      calc volume t ≤ volume ((cover q ∩ Ici r) ∪ (t \ (cover q ∩ Ici r))) := measure_mono hsub
        _ ≤ volume (cover q ∩ Ici r) + volume (t \ (cover q ∩ Ici r)) := measure_union_le _ _
        _ ≤ ENNReal.ofReal (sweep r q) + ENNReal.ofReal (parts.map (sweep r)).sum := by
          rw [volume_cover hq.1 hq.2]
          exact add_le_add_right hothers _
        _ = ENNReal.ofReal ((q :: parts).map (sweep r)).sum := by
          rw [List.map_cons, List.sum_cons, ENNReal.ofReal_add (sweep_nonneg hq.1) hsum]
  have hle : volume (cover l ∩ Ici r) ≤ ENNReal.ofReal (parts.map (sweep r)).sum := by
    apply hbound
    rintro x ⟨hx, hrx⟩
    obtain ⟨q, hq, hxq⟩ := hcovered x hx
    exact ⟨q, hq, hxq, hrx⟩
  rw [volume_cover hl hs] at hle
  exact (ENNReal.ofReal_le_ofReal_iff hnonneg).1 hle

/-- A rational interval, as a real one. -/
def realSpan (p : ℚ × ℚ) : ℝ × ℝ := (p.1, p.2)

/-- A sweep of rational intervals is one of real intervals. -/
theorem cast_sweep (r : ℚ) (l : List (ℚ × ℚ)) : ((sweep r l : ℚ) : ℝ) = sweep (r : ℝ) (l.map realSpan) := by
  induction l generalizing r with
  | nil => exact Rat.cast_zero
  | cons p l ih =>
    obtain ⟨a, b⟩ := p
    rw [List.map_cons, realSpan, sweep, sweep]
    by_cases hr : r < b
    · rw [if_pos hr, if_pos (Rat.cast_lt.2 hr), Rat.cast_add, ih, Rat.cast_sub, Rat.cast_max]
    · rw [if_neg hr, if_neg (mt Rat.cast_lt.1 hr), ih]

end Sequence
