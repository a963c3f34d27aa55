import Arhugula.Sequence.Traverse
import Arhugula.Sequence.Sweep
import Arhugula.Spec.WorkflowMetrics

/-!
# What the workflow metrics measure

`_covered` sweeps the intervals of the events in the order of their starts, from `datetime.min` in UTC. Where every
interval ends within the calendar, that is the measure of what they cover from there on, whatever their order
(`covered_known`), and so bounded by what the whole takes and by what its parts take.

A time that is ahead of UTC can be before `datetime.min` in UTC, and what an interval has there is lost. The figures are
what they say where no interval does (`metrics_iff`).
-/

namespace Arhugula

namespace WorkflowMetrics

open Sequence MeasureTheory Set

variable {events events' : List StageEvent} {e : StageEvent} {i : Interval} {l : List Interval} {total reached c : ℚ}
  {s : Stage}

/-! ## Intervals -/

/-- An interval, in UTC. -/
def Interval.span (i : Interval) : ℚ × ℚ := (i.utcStart.utc, i.utcStart.utc + i.seconds)

/-- The interval ends in the calendar. -/
def Interval.Representable (i : Interval) : Prop := i.utcStart.wall + i.seconds < wallEnd

/-- The interval ends in the calendar, and does not begin before `datetime.min` in UTC unless it is empty. -/
def Interval.Placed (i : Interval) : Prop := i.Representable ∧ (0 < i.seconds → datetimeMin ≤ i.utcStart.utc)

/-- Every timing is known. -/
def AllKnown (events : List StageEvent) : Prop := ∀ e ∈ events, ∃ i, e.timing = .known i

/-- What the events cover. -/
def recorded (events : List StageEvent) : Set ℝ :=
  {x | ∃ e ∈ events, ∃ i, e.timing = .known i ∧ (i.utcStart.utc : ℝ) ≤ x ∧ x < (i.utcStart.utc + i.seconds : ℚ)}

theorem utcEnd_ok (hr : i.Representable) : ∃ t, i.utcEnd = .ok t ∧ t.utc = i.span.2 := by
  unfold Interval.Representable at hr
  unfold Interval.utcEnd
  rw [dif_pos hr]
  refine ⟨_, rfl, ?_⟩
  unfold DateTime.utc Interval.span DateTime.utc
  ring

theorem utcEnd_error (hr : ¬ i.Representable) : i.utcEnd = .error .overflow := by
  unfold Interval.Representable at hr
  unfold Interval.utcEnd
  rw [dif_neg hr]

theorem interval_iff : e.interval = some i ↔ e.timing = .known i := by
  unfold StageEvent.interval
  cases e.timing with
  | known j => simp
  | unknown reason => simp

theorem reasons_nil_iff : events.filterMap StageEvent.reason = [] ↔ AllKnown events := by
  rw [List.filterMap_eq_nil_iff]
  constructor
  · intro hnone e he
    have hreason := hnone e he
    unfold StageEvent.reason at hreason
    cases ht : e.timing with
    | known i => exact ⟨i, rfl⟩
    | unknown reason =>
      rw [ht] at hreason
      cases hreason
  · intro hknown e he
    obtain ⟨i, hi⟩ := hknown e he
    unfold StageEvent.reason
    rw [hi]

/-- The intervals of events by their starts. -/
def ordered (events : List StageEvent) : List Interval :=
  (events.filterMap StageEvent.interval).insertionSort fun i j => i.utcStart.utc ≤ j.utcStart.utc

theorem mem_ordered : i ∈ ordered events ↔ ∃ e ∈ events, e.timing = .known i := by
  unfold ordered
  rw [(List.perm_insertionSort _ _).mem_iff, List.mem_filterMap]
  constructor
  · rintro ⟨e, he, hi⟩
    exact ⟨e, he, interval_iff.1 hi⟩
  · rintro ⟨e, he, hi⟩
    exact ⟨e, he, interval_iff.2 hi⟩

instance : Std.Total fun i j : Interval => i.utcStart.utc ≤ j.utcStart.utc :=
  ⟨fun i j => le_total i.utcStart.utc j.utcStart.utc⟩

instance : IsTrans Interval fun i j => i.utcStart.utc ≤ j.utcStart.utc :=
  ⟨fun _ _ _ hij hjk => le_trans hij hjk⟩

theorem ordered_pairwise (events : List StageEvent) :
    (ordered events).Pairwise fun i j => i.utcStart.utc ≤ j.utcStart.utc :=
  List.pairwise_insertionSort _ _

theorem ordered_perm (hp : events.Perm events') : (ordered events).Perm (ordered events') := by
  unfold ordered
  exact ((List.perm_insertionSort _ _).trans (hp.filterMap _)).trans (List.perm_insertionSort _ _).symm

/-! ## The real line -/

/-- The intervals of events on the real line. -/
def line (events : List StageEvent) : List (ℝ × ℝ) := ((ordered events).map Interval.span).map realSpan

theorem mem_line {p : ℝ × ℝ} : p ∈ line events ↔ ∃ i ∈ ordered events, p = realSpan i.span := by
  unfold line
  simp [eq_comm]

theorem line_proper (events : List StageEvent) : Proper (line events) := by
  intro p hp
  obtain ⟨i, -, rfl⟩ := mem_line.1 hp
  unfold realSpan Interval.span
  apply Rat.cast_le.2
  have hlen := i.seconds_nonneg
  linarith

theorem line_started (events : List StageEvent) : Started (line events) := by
  unfold Started line
  rw [List.pairwise_map, List.pairwise_map]
  exact (ordered_pairwise events).imp fun hij => Rat.cast_le.2 hij

theorem line_perm (hp : events.Perm events') : (line events).Perm (line events') :=
  ((ordered_perm hp).map _).map _

theorem recorded_eq (events : List StageEvent) : recorded events = cover (line events) := by
  ext x
  constructor
  · rintro ⟨e, he, i, hi, hx⟩
    exact ⟨realSpan i.span, mem_line.2 ⟨i, mem_ordered.2 ⟨e, he, hi⟩, rfl⟩, hx⟩
  · rintro ⟨p, hp, hx⟩
    obtain ⟨i, hi, rfl⟩ := mem_line.1 hp
    obtain ⟨e, he, hi⟩ := mem_ordered.1 hi
    exact ⟨e, he, i, hi, hx⟩

/-- What a sweep of the events comes to. -/
def figure (events : List StageEvent) : ℚ := sweep datetimeMin ((ordered events).map Interval.span)

theorem cast_figure (events : List StageEvent) : (figure events : ℝ) = sweep ((datetimeMin : ℚ) : ℝ) (line events) :=
  cast_sweep _ _

theorem figure_nonneg (events : List StageEvent) : 0 ≤ figure events := by
  have hreal : (0 : ℝ) ≤ figure events := by
    rw [cast_figure]
    exact sweep_nonneg (line_proper events)
  exact_mod_cast hreal

theorem figure_perm (hp : events.Perm events') : figure events = figure events' := by
  have hreal : (figure events : ℝ) = figure events' := by
    rw [cast_figure, cast_figure]
    exact sweep_eq_of_perm (line_proper events) (line_started events) (line_started events') (line_perm hp)
  exact_mod_cast hreal

theorem figure_le_of_subset (hsub : events ⊆ events') : figure events ≤ figure events' := by
  have hcover : cover (line events) ⊆ cover (line events') := by
    rw [← recorded_eq, ← recorded_eq]
    rintro x ⟨e, he, hx⟩
    exact ⟨e, hsub he, hx⟩
  have hreal : (figure events : ℝ) ≤ figure events' := by
    rw [cast_figure, cast_figure]
    exact sweep_le_of_subset (line_proper events) (line_started events) (line_proper events') (line_started events')
      hcover
  exact_mod_cast hreal

theorem figure_le_sum (parts : List (List StageEvent)) (hparts : ∀ e ∈ events, ∃ q ∈ parts, e ∈ q) :
    figure events ≤ (parts.map figure).sum := by
  have hcast : (((parts.map figure).sum : ℚ) : ℝ) = ((parts.map line).map (sweep ((datetimeMin : ℚ) : ℝ))).sum := by
    clear hparts
    induction parts with
    | nil => exact Rat.cast_zero
    | cons q parts ih =>
      simp only [List.map_cons, List.sum_cons, Rat.cast_add, ih, cast_figure]
  have hreal : (figure events : ℝ) ≤ ((parts.map figure).sum : ℚ) := by
    rw [hcast, cast_figure]
    apply sweep_le_sum (line_proper events) (line_started events)
    · intro q hq
      obtain ⟨part, -, rfl⟩ := List.mem_map.1 hq
      exact ⟨line_proper part, line_started part⟩
    · intro x hx
      rw [← recorded_eq] at hx
      obtain ⟨e, he, hx⟩ := hx
      obtain ⟨part, hpart, hep⟩ := hparts e he
      refine ⟨line part, List.mem_map_of_mem hpart, ?_⟩
      rw [← recorded_eq]
      exact ⟨e, hep, hx⟩
  exact_mod_cast hreal

theorem volume_recorded (events : List StageEvent) :
    volume (recorded events ∩ Ici ((datetimeMin : ℚ) : ℝ)) = ENNReal.ofReal (figure events) := by
  rw [recorded_eq, cast_figure]
  exact volume_cover (line_proper events) (line_started events)

/-- **What is measured is all there is** where no interval begins before the sweep. -/
theorem volume_recorded_iff :
    volume (recorded events) = ENNReal.ofReal (figure events) ↔
      ∀ e ∈ events, ∀ i, e.timing = .known i → 0 < i.seconds → datetimeMin ≤ i.utcStart.utc := by
  rw [← volume_recorded, recorded_eq, eq_comm, volume_cover_eq_iff]
  constructor
  · intro hall e he i hi hlen
    have hp := hall _ (mem_line.2 ⟨i, mem_ordered.2 ⟨e, he, hi⟩, rfl⟩)
    exact Rat.cast_le.1 (hp (Rat.cast_lt.2 (lt_add_of_pos_right _ hlen)))
  · intro hall p hp hlen
    obtain ⟨i, hi, rfl⟩ := mem_line.1 hp
    obtain ⟨e, he, hi⟩ := mem_ordered.1 hi
    have hpos : 0 < i.seconds := by
      have hlt : i.utcStart.utc < i.utcStart.utc + i.seconds := Rat.cast_lt.1 hlen
      linarith
    exact Rat.cast_le.2 (hall e he i hi hpos)

/-! ## The loop -/

theorem coveredFrom_ok (hl : ∀ i ∈ l, i.Representable) :
    coveredFrom total reached l = .ok (total + sweep reached (l.map Interval.span)) := by
  induction l generalizing total reached with
  | nil =>
    unfold coveredFrom
    rw [List.map_nil, sweep, add_zero]
  | cons i l ih =>
    obtain ⟨t, ht, hutc⟩ := utcEnd_ok (hl i List.mem_cons_self)
    have hrest : ∀ j ∈ l, j.Representable := fun j hj => hl j (List.mem_cons_of_mem _ hj)
    unfold coveredFrom
    rw [ht, List.map_cons]
    change (if reached < t.utc then _ else _) = _
    rw [hutc]
    by_cases hr : reached < i.span.2
    · rw [if_pos hr, ih hrest]
      have hsweep : sweep reached (i.span :: l.map Interval.span) =
          (i.span.2 - max i.span.1 reached) + sweep i.span.2 (l.map Interval.span) := if_pos hr
      rw [hsweep, add_assoc]
      rfl
    · rw [if_neg hr, ih hrest]
      have hsweep : sweep reached (i.span :: l.map Interval.span) = sweep reached (l.map Interval.span) := if_neg hr
      rw [hsweep]

theorem coveredFrom_error (hl : ∃ i ∈ l, ¬ i.Representable) : coveredFrom total reached l = .error .overflow := by
  induction l generalizing total reached with
  | nil =>
    obtain ⟨i, hi, -⟩ := hl
    cases hi
  | cons i l ih =>
    unfold coveredFrom
    by_cases hi : i.Representable
    · obtain ⟨t, ht, -⟩ := utcEnd_ok hi
      have hrest : ∃ j ∈ l, ¬ j.Representable := by
        obtain ⟨j, hj, hbad⟩ := hl
        rcases List.mem_cons.1 hj with rfl | hmem
        · exact absurd hi hbad
        · exact ⟨j, hmem, hbad⟩
      rw [ht]
      change (if reached < t.utc then _ else _) = _
      by_cases hr : reached < t.utc
      · rw [if_pos hr]
        exact ih hrest
      · rw [if_neg hr]
        exact ih hrest
    · rw [utcEnd_error hi]
      rfl

/-- Every interval ends in the calendar. -/
def AllRepresentable (events : List StageEvent) : Prop := ∀ e ∈ events, ∀ i, e.timing = .known i → i.Representable

theorem intervals_known (hk : AllKnown events) : intervals events = .known (ordered events) := by
  unfold intervals
  rw [if_neg (not_not.2 (reasons_nil_iff.2 hk))]
  rfl

/-- Why a figure of the events is unknown. -/
def whyUnknown (events : List StageEvent) : Strings.Text :=
  List.intercalate "; ".toList (Lit.sorted (events.filterMap StageEvent.reason))

theorem intervals_unknown (hk : ¬ AllKnown events) : intervals events = .unknown (whyUnknown events) := by
  unfold intervals
  rw [if_pos (mt reasons_nil_iff.1 hk)]
  rfl

theorem covered_unknown (hk : ¬ AllKnown events) : covered events = .ok (.unknown (whyUnknown events)) := by
  unfold covered
  rw [intervals_unknown hk]

/-- **What is covered** is the figure of the sweep. -/
theorem covered_known (hk : AllKnown events) (hr : AllRepresentable events) :
    covered events = .ok (.known (figure events)) := by
  unfold covered
  rw [intervals_known hk]
  have hordered : ∀ i ∈ ordered events, i.Representable := by
    intro i hi
    obtain ⟨e, he, hi⟩ := mem_ordered.1 hi
    exact hr e he i hi
  change (coveredFrom 0 datetimeMin (ordered events) >>= _) = _
  rw [coveredFrom_ok hordered, zero_add]
  rfl

theorem covered_error (hk : AllKnown events) (hr : ¬ AllRepresentable events) : covered events = .error .overflow := by
  unfold covered
  rw [intervals_known hk]
  have hbad : ∃ i ∈ ordered events, ¬ i.Representable := by
    by_contra hnone
    apply hr
    intro e he i hi
    by_contra hi'
    exact hnone ⟨i, mem_ordered.2 ⟨e, he, hi⟩, hi'⟩
  change (coveredFrom 0 datetimeMin (ordered events) >>= _) = _
  rw [coveredFrom_error hbad]
  rfl

theorem AllKnown.perm (hk : AllKnown events) (hp : events.Perm events') : AllKnown events' :=
  fun e he => hk e (hp.mem_iff.2 he)

theorem AllRepresentable.perm (hr : AllRepresentable events) (hp : events.Perm events') : AllRepresentable events' :=
  fun e he => hr e (hp.mem_iff.2 he)

theorem whyUnknown_perm (hp : events.Perm events') : whyUnknown events = whyUnknown events' := by
  have hreasons : (events.filterMap StageEvent.reason).dedup.Perm (events'.filterMap StageEvent.reason).dedup :=
    (hp.filterMap _).dedup
  have hsorted : Lit.sorted (events.filterMap StageEvent.reason) = Lit.sorted (events'.filterMap StageEvent.reason) := by
    unfold Lit.sorted
    exact ((List.perm_insertionSort _ _).trans (hreasons.trans (List.perm_insertionSort _ _).symm)).eq_of_pairwise'
      (List.pairwise_insertionSort _ _) (List.pairwise_insertionSort _ _)
  unfold whyUnknown
  rw [hsorted]

/-- **What is covered does not depend on the order of events.** -/
theorem covered_perm (hp : events.Perm events') : covered events = covered events' := by
  by_cases hk : AllKnown events
  · by_cases hr : AllRepresentable events
    · rw [covered_known hk hr, covered_known (hk.perm hp) (hr.perm hp), figure_perm hp]
    · rw [covered_error hk hr, covered_error (hk.perm hp) fun hr' => hr (hr'.perm hp.symm)]
  · rw [covered_unknown hk, covered_unknown fun hk' => hk (hk'.perm hp.symm), whyUnknown_perm hp]

theorem covered_ok_known (hc : covered events = .ok (.known c)) :
    AllKnown events ∧ AllRepresentable events ∧ c = figure events := by
  by_cases hk : AllKnown events
  · by_cases hr : AllRepresentable events
    · rw [covered_known hk hr] at hc
      cases hc
      exact ⟨hk, hr, rfl⟩
    · rw [covered_error hk hr] at hc
      cases hc
  · rw [covered_unknown hk] at hc
    cases hc

/-! ## What has passed -/

theorem elapsed_unknown (hk : ¬ AllKnown events) : elapsed events = .ok (.unknown (whyUnknown events)) := by
  unfold elapsed
  rw [intervals_unknown hk]

theorem mapM_ok {α β ε : Type} {f : α → Except ε β} {g : α → β} {l : List α} (hf : ∀ x ∈ l, f x = .ok (g x)) :
    l.mapM f = .ok (l.map g) := by
  rw [Sequence.mapM_ok_iff, List.forall₂_map_right_iff, List.forall₂_same]
  exact hf

theorem le_foldl_max (l : List ℚ) (a : ℚ) : a ≤ l.foldl max a ∧ ∀ x ∈ l, x ≤ l.foldl max a := by
  induction l generalizing a with
  | nil => exact ⟨le_refl a, fun x hx => by cases hx⟩
  | cons b l ih =>
    obtain ⟨hfirst, hrest⟩ := ih (max a b)
    refine ⟨(le_max_left a b).trans hfirst, ?_⟩
    intro x hx
    rcases List.mem_cons.1 hx with rfl | hmem
    · exact (le_max_right a x).trans hfirst
    · exact hrest x hmem

/-- The end of an interval, if it is in the calendar. -/
def Interval.endOf (i : Interval) : DateTime := i.utcEnd.toOption.getD i.utcStart

theorem utcEnd_endOf (hr : i.Representable) : i.utcEnd = .ok i.endOf ∧ i.endOf.utc = i.span.2 := by
  obtain ⟨t, ht, hutc⟩ := utcEnd_ok hr
  have hend : i.endOf = t := by
    unfold Interval.endOf
    rw [ht]
    rfl
  rw [hend]
  exact ⟨ht, hutc⟩

/-- **What has passed** is from a start to an end between which every interval is. -/
theorem elapsed_known (hne : events ≠ []) (hk : AllKnown events) (hr : AllRepresentable events) :
    ∃ first last, elapsed events = .ok (.known (last - first)) ∧ first ≤ last ∧
      ∀ i ∈ ordered events, first ≤ i.span.1 ∧ i.span.2 ≤ last := by
  have hordered : ∀ i ∈ ordered events, i.Representable := by
    intro i hi
    obtain ⟨e, he, hi⟩ := mem_ordered.1 hi
    exact hr e he i hi
  have hsorted := ordered_pairwise events
  unfold elapsed
  rw [intervals_known hk]
  cases hl : ordered events with
  | nil =>
    obtain ⟨e, events, rfl⟩ := List.exists_cons_of_ne_nil hne
    obtain ⟨i, hi⟩ := hk e List.mem_cons_self
    have hmem : i ∈ ordered (e :: events) := mem_ordered.2 ⟨e, List.mem_cons_self, hi⟩
    rw [hl] at hmem
    cases hmem
  | cons first l =>
    rw [hl] at hordered hsorted
    have hfirst := utcEnd_endOf (hordered first List.mem_cons_self)
    have hends : l.mapM Interval.utcEnd = .ok (l.map Interval.endOf) :=
      mapM_ok fun i hi => (utcEnd_endOf (hordered i (List.mem_cons_of_mem _ hi))).1
    obtain ⟨hstart, hlast⟩ := le_foldl_max ((l.map Interval.endOf).map DateTime.utc) first.endOf.utc
    refine ⟨first.utcStart.utc, ((l.map Interval.endOf).map DateTime.utc).foldl max first.endOf.utc, ?_, ?_, ?_⟩
    · change (first.utcEnd >>= _) = _
      rw [hfirst.1]
      change (l.mapM Interval.utcEnd >>= _) = _
      rw [hends]
      rfl
    · rw [hfirst.2] at hstart
      have hlen : first.utcStart.utc ≤ first.span.2 := le_add_of_nonneg_right first.seconds_nonneg
      exact hlen.trans (hfirst.2 ▸ hstart)
    · intro i hi
      rcases List.mem_cons.1 hi with rfl | hmem
      · exact ⟨le_refl _, by rw [← hfirst.2]; exact hstart⟩
      · refine ⟨(List.pairwise_cons.1 hsorted).1 i hmem, ?_⟩
        rw [← (utcEnd_endOf (hordered i hi)).2]
        exact hlast _ (List.mem_map_of_mem (List.mem_map_of_mem hmem))

/-- **No more is covered than has passed.** -/
theorem figure_le {first last : ℚ} (hle : first ≤ last)
    (hin : ∀ i ∈ ordered events, first ≤ i.span.1 ∧ i.span.2 ≤ last) : figure events ≤ last - first := by
  have hreal : (figure events : ℝ) ≤ (last - first : ℚ) := by
    rw [cast_figure, Rat.cast_sub]
    apply sweep_le_sub (line_proper events) (line_started events) (Rat.cast_le.2 hle)
    intro p hp
    obtain ⟨i, hi, rfl⟩ := mem_line.1 hp
    exact ⟨Rat.cast_le.2 (hin i hi).1, Rat.cast_le.2 (hin i hi).2⟩
  exact_mod_cast hreal

/-! ## Groups -/

/-- The events of a stage. -/
abbrev stageEvents (events : List StageEvent) (s : Stage) : List StageEvent := events.filter fun e => e.stage = s

/-- Each group has what it covers. -/
theorem grouped_ok {t : Table Stage (Known ℚ)} (hg : grouped StageEvent.stage events = .ok t) :
    t.keys = (Table.gather StageEvent.stage events).keys ∧
      (∀ m ∈ t, covered (stageEvents events m.1) = .ok m.2) := by
  have hall := Sequence.mapM_ok_iff.1 hg
  have hgroup : ∀ g ∈ Table.gather StageEvent.stage events, g.2 = stageEvents events g.1 :=
    fun g hg => Table.mem_gather hg
  unfold Table.keys
  clear hg
  generalize Table.gather StageEvent.stage events = groups at hall hgroup
  induction hall with
  | nil => exact ⟨rfl, fun m hm => by cases hm⟩
  | @cons g m groups t hfirst hrest ih =>
    obtain ⟨f, hf, hm⟩ := bind_ok hfirst
    cases hm
    obtain ⟨hkeys, hcovered⟩ := ih fun g' hg' => hgroup g' (List.mem_cons_of_mem _ hg')
    refine ⟨?_, ?_⟩
    · rw [List.map_cons, List.map_cons, hkeys]
    · intro m hm
      rcases List.mem_cons.1 hm with rfl | hmem
      · rw [← hf, hgroup g List.mem_cons_self]
      · exact hcovered m hmem

theorem grouped_of_ok (hall : ∀ s, ∃ f, covered (stageEvents events s) = .ok f) :
    ∃ t, grouped StageEvent.stage events = .ok t := by
  have hgroup : ∀ g ∈ Table.gather StageEvent.stage events, ∃ f, covered g.2 = .ok f := by
    intro g hg
    have hg2 : g.2 = stageEvents events g.1 := Table.mem_gather hg
    rw [hg2]
    exact hall g.1
  unfold grouped
  generalize Table.gather StageEvent.stage events = groups at hgroup
  induction groups with
  | nil => exact ⟨[], rfl⟩
  | cons g groups ih =>
    obtain ⟨f, hf⟩ := hgroup g List.mem_cons_self
    obtain ⟨t, ht⟩ := ih fun g' hg' => hgroup g' (List.mem_cons_of_mem _ hg')
    refine ⟨(g.1, f) :: t, ?_⟩
    rw [List.mapM_cons, ht, hf]
    rfl

/-! ## Figures -/

/-- A figure is the measure of what the events cover, or unknown where a timing is. -/
structure Measures (events : List StageEvent) (f : Except Exc (Known ℚ)) : Prop where
  unknown : ¬ AllKnown events → ∃ reason, f = .ok (.unknown reason)
  known : AllKnown events → ∃ q : ℚ, f = .ok (.known q) ∧ 0 ≤ q ∧ volume (recorded events) = ENNReal.ofReal q

/-- **When `_covered` measures.** -/
theorem measures_iff :
    Measures events (covered events) ↔ (AllKnown events → ∀ e ∈ events, ∀ i, e.timing = .known i → i.Placed) := by
  constructor
  · intro hm hk e he i hi
    obtain ⟨q, hq, -, hvolume⟩ := hm.known hk
    obtain ⟨-, hr, rfl⟩ := covered_ok_known hq
    exact ⟨hr e he i hi, volume_recorded_iff.1 hvolume e he i hi⟩
  · intro hplaced
    refine ⟨fun hk => ⟨_, covered_unknown hk⟩, ?_⟩
    intro hk
    have hr : AllRepresentable events := fun e he i hi => (hplaced hk e he i hi).1
    exact ⟨figure events, covered_known hk hr, figure_nonneg events,
      volume_recorded_iff.2 fun e he i hi => (hplaced hk e he i hi).2⟩

/-- **What the figures of a unit are to be.** -/
structure Faithful (events : List StageEvent) : Prop where
  order : ∀ events', events.Perm events' → covered events = covered events'
  unit : Measures events (covered events)
  stages : ∃ t, grouped StageEvent.stage events = .ok t ∧ t.keys.Nodup ∧
    (∀ s, s ∈ t.keys ↔ ∃ e ∈ events, e.stage = s) ∧ ∀ m ∈ t, Measures (stageEvents events m.1) (.ok m.2)
  unrecorded : ∀ c, covered events = .ok (.known c) → ∃ total, elapsed events = .ok (.known total) ∧
    c ≤ total ∧ difference (.known total) (.known c) = .known (total - c) ∧ 0 ≤ total - c
  unknown : ¬ AllKnown events → ∃ reason, elapsed events = .ok (.unknown reason) ∧
    covered events = .ok (.unknown reason) ∧ difference (.unknown reason) (.unknown reason) = .unknown reason
  parts : ∀ t c, grouped StageEvent.stage events = .ok t → covered events = .ok (.known c) →
    (∀ m ∈ t, ∃ q, m.2 = .known q ∧ q ≤ c) ∧ ∃ qs : List ℚ, t.map Prod.snd = qs.map .known ∧ c ≤ qs.sum

/-- Every interval of a stage whose timings are known is placed. -/
def StagesPlaced (events : List StageEvent) : Prop :=
  ∀ e ∈ events, AllKnown (stageEvents events e.stage) → ∀ i, e.timing = .known i → i.Placed

theorem stagesPlaced_of_faithful (hf : Faithful events) : StagesPlaced events := by
  intro e he hk i hi
  obtain ⟨t, hgrouped, -, hkeys, hmeasures⟩ := hf.stages
  obtain ⟨m, hm, hstage⟩ := List.mem_map.1 ((hkeys e.stage).2 ⟨e, he, rfl⟩)
  have hmeasure := hmeasures m hm
  rw [← (grouped_ok hgrouped).2 m hm, hstage] at hmeasure
  exact measures_iff.1 hmeasure hk e (List.mem_filter.2 ⟨he, decide_eq_true rfl⟩) i hi

/-- Groups are parts: each is at most the whole, which is at most their sum. -/
theorem parts_of_known {t : Table Stage (Known ℚ)} (hg : grouped StageEvent.stage events = .ok t)
    (hc : covered events = .ok (.known c)) :
    (∀ m ∈ t, ∃ q, m.2 = .known q ∧ q ≤ c) ∧ ∃ qs : List ℚ, t.map Prod.snd = qs.map .known ∧ c ≤ qs.sum := by
  obtain ⟨hk, hr, rfl⟩ := covered_ok_known hc
  obtain ⟨hkeys, hcovered⟩ := grouped_ok hg
  have hfigure : ∀ m ∈ t, m.2 = .known (figure (stageEvents events m.1)) := by
    intro m hm
    have hk' : AllKnown (stageEvents events m.1) := fun e he => hk e (List.mem_filter.1 he).1
    have hr' : AllRepresentable (stageEvents events m.1) := fun e he => hr e (List.mem_filter.1 he).1
    have hm' := hcovered m hm
    rw [covered_known hk' hr'] at hm'
    exact (Except.ok.inj hm').symm
  refine ⟨?_, t.keys.map fun s => figure (stageEvents events s), ?_, ?_⟩
  · intro m hm
    exact ⟨_, hfigure m hm, figure_le_of_subset fun e he => (List.mem_filter.1 he).1⟩
  · unfold Table.keys
    rw [List.map_map, List.map_map]
    exact List.map_congr_left hfigure
  · have hparts : ∀ e ∈ events, ∃ q ∈ t.keys.map (stageEvents events), e ∈ q := by
      intro e he
      have hstage : e.stage ∈ t.keys := by
        rw [hkeys]
        exact Table.mem_keys_gather.2 ⟨e, he, rfl⟩
      exact ⟨_, List.mem_map_of_mem hstage, List.mem_filter.2 ⟨he, decide_eq_true rfl⟩⟩
    have hsum := figure_le_sum _ hparts
    rw [List.map_map] at hsum
    exact hsum

theorem faithful_of_stagesPlaced (hne : events ≠ []) (hp : StagesPlaced events) : Faithful events := by
  have hstage : ∀ s, Measures (stageEvents events s) (covered (stageEvents events s)) := by
    intro s
    apply measures_iff.2
    intro hk e he i hi
    obtain ⟨hmem, hs⟩ := List.mem_filter.1 he
    exact hp e hmem (of_decide_eq_true hs ▸ hk) i hi
  have hunit : Measures events (covered events) := by
    apply measures_iff.2
    intro hk e he i hi
    exact hp e he (fun e' he' => hk e' (List.mem_filter.1 he').1) i hi
  obtain ⟨t, ht⟩ : ∃ t, grouped StageEvent.stage events = .ok t := by
    apply grouped_of_ok
    intro s
    by_cases hk : AllKnown (stageEvents events s)
    · obtain ⟨q, hq, -⟩ := (hstage s).known hk
      exact ⟨_, hq⟩
    · obtain ⟨reason, hreason⟩ := (hstage s).unknown hk
      exact ⟨_, hreason⟩
  obtain ⟨hkeys, hcovered⟩ := grouped_ok ht
  exact
    { order := fun _ hperm => covered_perm hperm
      unit := hunit
      stages := by
        refine ⟨t, ht, ?_, ?_, ?_⟩
        · rw [hkeys]
          exact Table.nodup_keys_gather _ _
        · intro s
          rw [hkeys]
          exact Table.mem_keys_gather
        · intro m hm
          rw [← hcovered m hm]
          exact hstage m.1
      unrecorded := by
        intro c hc
        obtain ⟨hk, hr, rfl⟩ := covered_ok_known hc
        obtain ⟨first, last, helapsed, hle, hin⟩ := elapsed_known hne hk hr
        have hfigure := figure_le hle hin
        exact ⟨last - first, helapsed, hfigure, rfl, sub_nonneg.2 hfigure⟩
      unknown := fun hk => ⟨whyUnknown events, elapsed_unknown hk, covered_unknown hk, rfl⟩
      parts := fun t c hg hc => parts_of_known hg hc }

/-- **When the figures of a unit are what they say.** -/
theorem metrics_iff (hne : events ≠ []) : Faithful events ↔ StagesPlaced events :=
  ⟨stagesPlaced_of_faithful, faithful_of_stagesPlaced hne⟩

/-! ## Two receipts -/

namespace Example

/-- A receipt of an hour that starts at `datetime.min` on a clock that is so many seconds ahead of UTC. -/
def receipt (utcoffset : ℚ) (hlt : -86400 < utcoffset) (hgt : utcoffset < 86400) : StageEvent where
  unit := ['u']
  behavior := none
  policyVersion := ['p']
  candidate := ['c']
  stage := .review
  activity := .active
  producer := ['p']
  session := ['s']
  run := ['r']
  outcome := .passed
  timing := .known ⟨⟨0, utcoffset, le_refl 0, by unfold wallEnd; norm_num, hlt, hgt⟩, 3600, by norm_num⟩
  inputs := ∅
  evidence := []

/-- The clock shows UTC. -/
def atUtc : StageEvent := receipt 0 (by norm_num) (by norm_num)

/-- The clock is fourteen hours ahead of UTC. -/
def ahead : StageEvent := receipt 50400 (by norm_num) (by norm_num)

end Example

/-- The figures of an hour in UTC are what they say. -/
theorem metrics_iff_utc : Faithful [Example.atUtc] := by
  apply (metrics_iff (List.cons_ne_nil _ _)).2
  intro e he _ i hi
  obtain rfl := List.mem_singleton.1 he
  cases hi
  refine ⟨?_, fun _ => ?_⟩
  · unfold Interval.Representable wallEnd
    norm_num
  · unfold datetimeMin DateTime.utc
    norm_num

/-- An hour that begins before `datetime.min` in UTC is lost. -/
theorem figures_lost : ¬ Faithful [Example.ahead] := by
  intro hf
  have hplaced := stagesPlaced_of_faithful hf Example.ahead List.mem_cons_self
  have hknown : AllKnown (stageEvents [Example.ahead] Example.ahead.stage) := by
    intro e he
    obtain rfl := List.mem_singleton.1 (List.mem_filter.1 he).1
    exact ⟨_, rfl⟩
  have hstart := (hplaced hknown _ rfl).2 (by norm_num)
  unfold datetimeMin DateTime.utc at hstart
  norm_num at hstart

end WorkflowMetrics

end Arhugula
