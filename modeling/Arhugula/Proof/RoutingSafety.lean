import Arhugula.Proof.BacklogSafety

/-!
# What the labels of ancestors change

`route` reads the labels of the ancestors twice: for the stop markers, and for the risk markers that impose the
floor of `security`. Everything else is read off the issue itself, so two collections of ancestors with the same
markers route alike.

A stop marker anywhere stops the issue (`route_stopped`), risky work never goes to the weaker class
(`Decided.strong`), and more markers never weaken the class. They do not only constrain: the floor classifies
work that its own labels do not (`route_floor`).
-/

namespace Arhugula

namespace Backlog

open Strings Lit

variable {g : Glyphs} {i : Issue} {above below : List Issue} {own : List Text} {m e : Option String} {c : String}

/-- The strength of a class. -/
def ModelClass.strength : ModelClass → ℕ
  | terra => 0
  | astra => 1

/-- The issue is ready. -/
def Route.IsReady (r : Route) : Prop := r.stopReason = none

/-- The route goes to a class. -/
def Route.Goes (r : Route) (c : ModelClass) : Prop := r.model = some c.model

/-- The labels of the issue and of its ancestors. -/
def allLabels (i : Issue) (above : List Issue) : List Text := labels i ++ above.flatMap labels

/-- There is a risk marker among them. -/
def IsRisky (all : List Text) : Prop := "security".toList ∈ all ∨ "high-risk".toList ∈ all

instance (all : List Text) : Decidable (IsRisky all) := inferInstanceAs (Decidable (_ ∨ _))

theorem ModelClass.model_inj {c d : ModelClass} (h : c.model = d.model) : c = d := by
  revert h
  cases c <;> cases d <;> decide

/-! ## The decision of an issue without stop markers -/

/-- The capability, and where it comes from. -/
def classify (g : Glyphs) (i : Issue) (risk : Bool) (capability : Option String) :
    Except Unit (Option String × Source) :=
  if risk then pure (some "security", .riskFloor)
  else
    match capability with
    | some c => pure (some c, .explicit)
    | none => return (← inferred g i, .default)

/-- The floor of a capability. -/
def floorOf (capability : String) : ModelClass := if high.contains capability then .astra else .terra

/-- The class of a capability, which an explicit model may promote. -/
def promoted (model : Option String) (capability : String) : ModelClass :=
  if model = some "astra" then .astra else floorOf capability

/-- What an issue without a stop marker is routed to: its capability, and its class. -/
structure Decided (g : Glyphs) (i : Issue) (risk : Bool) (r : Route) (m : Option String) (c : String) : Prop where
  model : field (labels i) "model" ["astra", "terra"] = .ok m
  classified : ∃ k source, field (labels i) "capability" (high ++ bounded) = .ok k ∧
    classify g i risk k = .ok (some c, source)
  kept : floorOf c = .astra → m ≠ some "terra"
  capability : r.capability = some c
  goes : r.Goes (promoted m c)
  reason : r.stopReason = if "autonomous-safe".toList ∈ labels i then none else some "autonomy-unclassified"

/-- The labels of the issue conflict, or leave its capability open. -/
def Route.IsUnclassified (r : Route) : Prop :=
  r.model = none ∧ (r.stopReason = some "routing-conflict" ∨ r.stopReason = some "routing-ambiguous")

theorem contains_risk {all : List Text} :
    (all.contains "security".toList || all.contains "high-risk".toList) = decide (IsRisky all) := by
  rw [Bool.eq_iff_iff]
  simp only [Bool.or_eq_true, List.contains_iff_mem, decide_eq_true_eq]
  rfl

/-- **What `route` returns** of an issue without a stop marker. -/
theorem route_decided (h : ∀ s ∈ stops, s.toList ∉ allLabels i above) :
    (route g i above).IsUnclassified ∨
      ∃ m c, Decided g i (decide (IsRisky (allLabels i above))) (route g i above) m c := by
  have hfind : (stops.find? fun s => (allLabels i above).contains s.toList) = none := by
    rw [List.find?_eq_none]
    intro s hs
    simpa using h s hs
  unfold route
  dsimp only
  rw [show (labels i ++ above.flatMap labels) = allLabels i above from rfl, hfind, contains_risk]
  dsimp only
  generalize decide (IsRisky (allLabels i above)) = risk
  split
  · exact .inl ⟨rfl, .inl rfl⟩
  · rename_i m e role k source heq
    obtain ⟨m', hm, heq⟩ := bind_ok heq
    obtain ⟨e', -, heq⟩ := bind_ok heq
    obtain ⟨role', -, heq⟩ := bind_ok heq
    obtain ⟨named, hnamed, heq⟩ := bind_ok heq
    have hclass : m' = m ∧ classify g i risk named = .ok (k, source) := by
      unfold classify
      by_cases hrisk : risk = true
      · rw [if_pos hrisk] at heq ⊢
        cases heq
        exact ⟨rfl, rfl⟩
      · rw [if_neg hrisk] at heq ⊢
        cases named with
        | some c =>
          cases heq
          exact ⟨rfl, rfl⟩
        | none =>
          obtain ⟨k', hk, heq⟩ := bind_ok heq
          cases heq
          refine ⟨rfl, ?_⟩
          dsimp only
          rw [hk]
          rfl
    obtain ⟨rfl, hclass⟩ := hclass
    cases k with
    | none => exact .inl ⟨rfl, .inr rfl⟩
    | some c =>
      dsimp only
      rw [show (if high.contains c = true then ModelClass.astra else .terra) = floorOf c from rfl,
        show (if m' = some "astra" then ModelClass.astra else floorOf c) = promoted m' c from rfl]
      by_cases hkept : (decide (floorOf c = .astra) && decide (m' = some "terra")) = true
      · rw [if_pos hkept]
        exact .inl ⟨rfl, .inl rfl⟩
      rw [if_neg hkept]
      by_cases heffort : (e.any fun x => decide (x ≠ (promoted m' c).effort)) = true
      · rw [if_pos heffort]
        exact .inl ⟨rfl, .inl rfl⟩
      rw [if_neg heffort]
      refine .inr ⟨m', c, hm, ⟨named, source, hnamed, hclass⟩, ?_, rfl, rfl, ?_⟩
      · intro hfloor hterra
        exact hkept (by simp [hfloor, hterra])
      · simp only [List.contains_iff_mem]

/-- A stop marker on the issue or on an ancestor stops it, and the issue is routed to nothing. -/
theorem route_stopped {s : String} (hs : s ∈ stops) (h : s.toList ∈ allLabels i above) :
    ∃ t ∈ stops, t.toList ∈ allLabels i above ∧ (route g i above).stopReason = some t ∧
      (route g i above).model = none := by
  have hfind : ((stops.find? fun s => (allLabels i above).contains s.toList)).isSome = true := by
    rw [List.find?_isSome]
    exact ⟨s, hs, List.contains_iff_mem.2 h⟩
  obtain ⟨t, ht⟩ := Option.isSome_iff_exists.1 hfind
  have hmem : t ∈ stops := List.mem_of_find?_eq_some ht
  have hlabel := List.find?_some ht
  refine ⟨t, hmem, List.contains_iff_mem.1 hlabel, ?_⟩
  unfold route
  dsimp only
  rw [show (labels i ++ above.flatMap labels) = allLabels i above from rfl, ht]
  exact ⟨rfl, rfl⟩

theorem ready_unstopped (h : (route g i above).IsReady) : ∀ s ∈ stops, s.toList ∉ allLabels i above := by
  intro s hs hlabel
  obtain ⟨t, -, -, hreason, -⟩ := route_stopped (g := g) hs hlabel
  unfold Route.IsReady at h
  rw [h] at hreason
  cases hreason

/-- The ancestors' labels only matter through their markers. -/
theorem route_congr (h : ∀ s ∈ stops, s.toList ∉ allLabels i above) (h' : ∀ s ∈ stops, s.toList ∉ allLabels i below)
    (hrisk : IsRisky (allLabels i above) ↔ IsRisky (allLabels i below)) : route g i above = route g i below := by
  have hfind : ∀ {all : List Issue}, (∀ s ∈ stops, s.toList ∉ allLabels i all) →
      (stops.find? fun s => (allLabels i all).contains s.toList) = none := by
    intro all hall
    rw [List.find?_eq_none]
    intro s hs
    simpa using hall s hs
  unfold route
  dsimp only
  rw [show (labels i ++ above.flatMap labels) = allLabels i above from rfl,
    show (labels i ++ below.flatMap labels) = allLabels i below from rfl, hfind h, hfind h', contains_risk, contains_risk,
    decide_eq_decide.2 hrisk]

/-- Risky work keeps to the stronger class. -/
theorem Decided.strong {r : Route} {risk : Bool} (hd : Decided g i risk r m c) (hc : risk = true ∨ c ∈ high) :
    promoted m c = .astra := by
  have hfloor : floorOf c = .astra := by
    have hmem : c ∈ high := by
      rcases hc with rfl | hmem
      · obtain ⟨k, source, -, hclass⟩ := hd.classified
        cases hclass
        decide
      · exact hmem
    unfold floorOf
    rw [if_pos (List.contains_iff_mem.2 hmem)]
  unfold promoted
  rw [hfloor, ite_self]

/-- **The labels of ancestors**: what a route keeps to under more of them. Where they add a risk marker, the floor
classifies work whose own labels conflict, or leave its capability open. -/
theorem route_floor (g : Glyphs) (i : Issue) (above : List Issue) :
    (∀ below, above.flatMap labels ⊆ below.flatMap labels → (route g i below).IsReady →
      ((route g i above).IsReady ∨ (IsRisky (allLabels i below) ∧ ¬ IsRisky (allLabels i above) ∧
        (route g i above).IsUnclassified)) ∧
      ((route g i above).IsReady → ∃ weak strong : ModelClass, (route g i above).Goes weak ∧
        (route g i below).Goes strong ∧ weak.strength ≤ strong.strength)) ∧
    (∀ s ∈ stops, s.toList ∈ allLabels i above → ¬ (route g i above).IsReady ∧
      ∃ t ∈ stops, t.toList ∈ allLabels i above ∧ (route g i above).stopReason = some t) ∧
    (IsRisky (allLabels i above) ∨ (∃ c ∈ high, (route g i above).capability = some c) →
      ¬ (route g i above).Goes .terra) := by
  refine ⟨?_, ?_, ?_⟩
  · intro below hsub hready
    have hall : allLabels i above ⊆ allLabels i below := by
      intro t ht
      rcases List.mem_append.1 ht with ht | ht
      · exact List.mem_append_left _ ht
      · exact List.mem_append_right _ (hsub ht)
    have hbelow := ready_unstopped hready
    have habove : ∀ s ∈ stops, s.toList ∉ allLabels i above := fun s hs ht => hbelow s hs (hall ht)
    have hmono : IsRisky (allLabels i above) → IsRisky (allLabels i below) := by
      rintro (h | h)
      · exact .inl (hall h)
      · exact .inr (hall h)
    have hunclassified : ∀ {r : Route}, r.IsUnclassified → ¬ r.IsReady := by
      rintro r ⟨-, h | h⟩ hr
      all_goals
        rw [Route.IsReady, h] at hr
        cases hr
    by_cases hrisk : IsRisky (allLabels i below) ∧ ¬ IsRisky (allLabels i above)
    · -- the floor of `security` holds under the larger collection alone
      rcases route_decided (g := g) hbelow with hun | ⟨m, c, hd⟩
      · exact absurd hready (hunclassified hun)
      rw [decide_eq_true hrisk.1] at hd
      have hstrong : (route g i below).Goes .astra := by
        have hgoes := hd.goes
        rwa [hd.strong (.inl rfl)] at hgoes
      rcases route_decided (g := g) habove with hun | ⟨m', c', hd'⟩
      · exact ⟨.inr ⟨hrisk.1, hrisk.2, hun⟩, fun h => absurd h (hunclassified hun)⟩
      · have hsafe : (route g i above).stopReason = (route g i below).stopReason := by
          rw [hd.reason, hd'.reason]
        refine ⟨.inl (hsafe.trans hready), fun _ => ⟨_, .astra, hd'.goes, hstrong, ?_⟩⟩
        cases promoted m' c' <;> decide
    · have heq : route g i above = route g i below := by
        refine route_congr habove hbelow ⟨hmono, fun h => ?_⟩
        by_contra hnot
        exact hrisk ⟨h, hnot⟩
      rw [heq]
      refine ⟨.inl hready, fun _ => ?_⟩
      rcases route_decided (g := g) hbelow with hun | ⟨m, c, hd⟩
      · exact absurd hready (hunclassified hun)
      · exact ⟨_, _, hd.goes, hd.goes, le_refl _⟩
  · intro s hs hlabel
    obtain ⟨t, ht, hmem, hreason, -⟩ := route_stopped (g := g) hs hlabel
    refine ⟨fun hready => ?_, t, ht, hmem, hreason⟩
    exact ready_unstopped hready s hs hlabel
  · intro hrisk hterra
    by_cases hstop : ∀ s ∈ stops, s.toList ∉ allLabels i above
    · rcases route_decided (g := g) hstop with hun | ⟨m, c, hd⟩
      · rw [Route.Goes, hun.1] at hterra
        cases hterra
      · have hstrong : promoted m c = .astra := by
          refine hd.strong ?_
          rcases hrisk with hrisk | ⟨c', hc', hcap⟩
          · exact .inl (decide_eq_true hrisk)
          · rw [hd.capability] at hcap
            exact .inr (Option.some.inj hcap ▸ hc')
        have hgoes := hd.goes
        rw [Route.Goes, hterra, hstrong] at hgoes
        exact absurd hgoes (by decide)
    · push Not at hstop
      obtain ⟨s, hs, hlabel⟩ := hstop
      obtain ⟨t, -, -, -, hnone⟩ := route_stopped (g := g) hs hlabel
      rw [Route.Goes, hnone] at hterra
      cases hterra

namespace Example

/-- A unit of bounded work. -/
def tests : Issue := ⟨"unit".toList, [("labels", .arr [.str "autonomous-safe", .str "capability:tests"])]⟩

/-- A unit that names no capability. -/
def unnamed : Issue := ⟨"unit".toList, [("labels", .arr [.str "autonomous-safe"])]⟩

/-- An epic with a risk marker. -/
def risky : Issue := ⟨"epic".toList, [("labels", .arr [.str "security"])]⟩

/-- An epic with a stop marker. -/
def held : Issue := ⟨"epic".toList, [("labels", .arr [.str "destructive"])]⟩

end Example

/-- The unit of bounded work with and without a risk marker above it, and under a stop marker. -/
theorem route_floor_example :
    (∃ weak strong : ModelClass, (route Example.ascii Example.tests []).Goes weak ∧
      (route Example.ascii Example.tests [Example.risky]).Goes strong ∧ weak.strength ≤ strong.strength) ∧
    (¬ (route Example.ascii Example.tests [Example.held]).IsReady) ∧
    ¬ (route Example.ascii Example.tests [Example.risky]).Goes .terra := by
  have hbelow : (route Example.ascii Example.tests [Example.risky]).stopReason = none := by decide +kernel
  have habove : (route Example.ascii Example.tests []).stopReason = none := by decide +kernel
  have hheld : "destructive".toList ∈ allLabels Example.tests [Example.held] := by decide +kernel
  have hrisky : IsRisky (allLabels Example.tests [Example.risky]) := by decide +kernel
  refine ⟨?_, ?_, ?_⟩
  · exact ((route_floor Example.ascii Example.tests []).1 [Example.risky] (List.nil_subset _) hbelow).2 habove
  · exact ((route_floor Example.ascii Example.tests [Example.held]).2.1 "destructive" (by decide) hheld).1
  · exact (route_floor Example.ascii Example.tests [Example.risky]).2.2 (.inl hrisky)

/-- **A risk marker makes work ready** that stops without it. -/
theorem route_enabled :
    ([] : List Issue).flatMap labels ⊆ [Example.risky].flatMap labels ∧
      (route Example.ascii Example.unnamed [Example.risky]).IsReady ∧ ¬ (route Example.ascii Example.unnamed []).IsReady := by
  refine ⟨List.nil_subset _, ?_, ?_⟩
  · show (route Example.ascii Example.unnamed [Example.risky]).stopReason = none
    decide +kernel
  · show ¬ (route Example.ascii Example.unnamed []).stopReason = none
    decide +kernel

end Backlog

end Arhugula
