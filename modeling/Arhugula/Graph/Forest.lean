import Arhugula.Graph.Closure

/-!
# Forests

Edges from children to parents. `climb` walks from a node to its root, and gives up where it comes to a node that
it has seen. Where every child has one parent and every walk ends, the edges are a `Forest`; there the walk is the
list of the ancestors (`mem_ancestors`), and its length bounds every recursion over children (`depth_lt`).
-/

namespace Graph

variable {α : Type} [DecidableEq α]

/-- The parent of a node. -/
def parent (edges : List (α × α)) (a : α) : Option α := (edges.find? fun e => e.1 = a).map Prod.snd

/-- The children of a node. -/
def children (edges : List (α × α)) (a : α) : List α := (edges.filter fun e => e.2 = a).map Prod.fst

/-- The walk from a node to its root, while it comes to nothing that was seen. -/
def climb (edges : List (α × α)) : ℕ → List α → α → Option (List α)
  | 0, _, _ => none
  | n + 1, seen, a =>
    match parent edges a with
    | none => some []
    | some p => if p ∈ seen then none else (climb edges n (p :: seen) p).map (p :: ·)

/-- The ancestors of a node, from its parent to its root. As many steps as there are edges are enough (`climb_fuel`). -/
def ancestors (edges : List (α × α)) (a : α) : Option (List α) := climb edges (edges.length + 1) [a] a

variable {edges : List (α × α)} {seen l : List α} {a b p : α} {n m : ℕ}

theorem mem_children : b ∈ children edges a ↔ Edge edges b a := by
  unfold children Edge
  simp only [List.mem_map, List.mem_filter, decide_eq_true_eq]
  constructor
  · rintro ⟨⟨x, y⟩, ⟨he, rfl⟩, rfl⟩
    exact he
  · intro he
    exact ⟨(b, a), ⟨he, rfl⟩, rfl⟩

theorem parent_edge (h : parent edges a = some p) : Edge edges a p := by
  unfold parent at h
  obtain ⟨⟨x, y⟩, hfind, rfl⟩ := Option.map_eq_some_iff.1 h
  have hx : x = a := by simpa using List.find?_some hfind
  rw [← hx]
  exact List.mem_of_find?_eq_some hfind

/-- **More steps change nothing** once there are as many as edges whose target is still to be seen. -/
theorem climb_fuel (h : missing edges seen.toFinset < n) : climb edges (n + 1) seen a = climb edges n seen a := by
  induction n generalizing seen a with
  | zero => omega
  | succ n ih =>
    rw [climb, climb]
    cases hp : parent edges a with
    | none => rfl
    | some p =>
      dsimp only
      by_cases hseen : p ∈ seen
      · rw [if_pos hseen, if_pos hseen]
      · rw [if_neg hseen, if_neg hseen]
        have hsub : edges.filter (fun e => e.2 ∉ (p :: seen).toFinset) =
            (edges.filter fun e => e.2 ∉ seen.toFinset).filter fun e => e.2 ∉ (p :: seen).toFinset := by
          rw [List.filter_filter]
          refine List.filter_congr fun e _ => ?_
          by_cases he : e.2 ∈ seen
          · simp [he]
          · simp [he]
        have hlt : missing edges (p :: seen).toFinset < missing edges seen.toFinset := by
          unfold missing
          rw [hsub, List.length_filter_lt_length_iff_exists]
          exact ⟨(a, p), List.mem_filter.2 ⟨parent_edge hp, by simpa using hseen⟩, by simp⟩
        rw [ih (by omega)]

theorem climb_enough (hn : edges.length < n) : climb edges n [a] a = ancestors edges a := by
  unfold ancestors
  induction n with
  | zero => omega
  | succ n ih =>
    by_cases heq : n = edges.length
    · rw [heq]
    · have hle : missing edges [a].toFinset ≤ edges.length := missing_le
      rw [climb_fuel (by omega), ih (by omega)]

theorem parent_iff (hu : (edges.map Prod.fst).Nodup) : parent edges a = some p ↔ Edge edges a p := by
  refine ⟨parent_edge, fun he => ?_⟩
  cases hp : parent edges a with
  | none =>
    unfold parent at hp
    rw [Option.map_eq_none_iff, List.find?_eq_none] at hp
    have hnot := hp (a, p) he
    simp at hnot
  | some q =>
    have hq : (a, q) ∈ edges := parent_edge hp
    have heq := List.inj_on_of_nodup_map hu hq he rfl
    rw [Prod.mk.injEq] at heq
    rw [heq.2]

/-- The walk goes along parents, and comes to nothing twice. -/
theorem climb_sound (h : climb edges n seen a = some l) :
    (∀ b ∈ l, Relation.TransGen (Edge edges) a b) ∧ (∀ b ∈ l, b ∉ seen) ∧ l.Nodup := by
  induction n generalizing seen a l with
  | zero => cases h
  | succ n ih =>
    rw [climb] at h
    cases hp : parent edges a with
    | none =>
      rw [hp] at h
      cases h
      simp
    | some p =>
      rw [hp] at h
      dsimp only at h
      split at h
      · cases h
      · rename_i hseen
        obtain ⟨rest, hrest, rfl⟩ := Option.map_eq_some_iff.1 h
        obtain ⟨hreach, hfresh, hnodup⟩ := ih hrest
        have hedge : Edge edges a p := parent_edge hp
        refine ⟨fun b hb => ?_, fun b hb => ?_, ?_⟩
        · rcases List.mem_cons.1 hb with rfl | hb
          · exact .single hedge
          · exact .head hedge (hreach b hb)
        · rcases List.mem_cons.1 hb with rfl | hb
          · exact hseen
          · exact fun hmem => hfresh b hb (List.mem_cons_of_mem p hmem)
        · exact List.nodup_cons.2 ⟨fun hmem => hfresh p hmem List.mem_cons_self, hnodup⟩

/-- Everything above a node is on its walk. -/
theorem climb_complete (hu : (edges.map Prod.fst).Nodup) (h : climb edges n seen a = some l) (hab : Relation.TransGen (Edge edges) a b) :
    b ∈ l := by
  induction n generalizing seen a l with
  | zero => cases h
  | succ n ih =>
    obtain ⟨p, hedge, hrest⟩ := Relation.TransGen.head'_iff.1 hab
    rw [climb, (parent_iff hu).2 hedge] at h
    dsimp only at h
    split at h
    · cases h
    · obtain ⟨rest, hclimb, rfl⟩ := Option.map_eq_some_iff.1 h
      rcases Relation.reflTransGen_iff_eq_or_transGen.1 hrest with rfl | htrans
      · exact List.mem_cons_self
      · exact List.mem_cons_of_mem p (ih hclimb htrans)

/-- **Forests.** -/
structure IsForest (edges : List (α × α)) : Prop where
  unique : (edges.map Prod.fst).Nodup
  ends : ∀ e ∈ edges, (ancestors edges e.1).isSome = true

namespace IsForest

/-- Every walk ends. -/
theorem ancestors_isSome (hf : IsForest edges) (a : α) : ∃ l, ancestors edges a = some l := by
  cases hp : parent edges a with
  | none => exact ⟨[], by rw [ancestors, climb, hp]⟩
  | some p => exact Option.isSome_iff_exists.1 (hf.ends (a, p) (parent_edge hp))

/-- **The walk is the list of the ancestors.** -/
theorem mem_ancestors (hf : IsForest edges) (h : ancestors edges a = some l) : b ∈ l ↔ Relation.TransGen (Edge edges) a b :=
  ⟨(climb_sound h).1 b, climb_complete hf.unique h⟩

/-- **No node is above itself.** -/
theorem irreflexive (hf : IsForest edges) : ¬ Relation.TransGen (Edge edges) a a := by
  intro haa
  obtain ⟨l, hl⟩ := hf.ancestors_isSome a
  exact (climb_sound hl).2.1 a ((hf.mem_ancestors hl).2 haa) List.mem_cons_self

end IsForest

/-- How far a node is from its root. -/
def depth (edges : List (α × α)) (a : α) : ℕ := ((ancestors edges a).getD []).length

theorem depth_of (h : ancestors edges a = some l) : depth edges a = l.length := by
  unfold depth
  rw [h]
  rfl

/-- A node is no further from its root than there are edges. -/
theorem depth_le : depth edges a ≤ edges.length := by
  cases h : ancestors edges a with
  | none =>
    unfold depth
    rw [h]
    exact Nat.zero_le _
  | some l =>
    obtain ⟨hreach, -, hnodup⟩ := climb_sound h
    have hsub : l ⊆ edges.map Prod.snd := by
      intro b hb
      obtain ⟨x, -, hedge⟩ := Relation.TransGen.tail'_iff.1 (hreach b hb)
      exact List.mem_map.2 ⟨(x, b), hedge, rfl⟩
    have hle := (hnodup.subperm hsub).length_le
    rw [List.length_map] at hle
    rw [depth_of h]
    exact hle

/-- **A child is one further.** -/
theorem IsForest.depth_child (hf : IsForest edges) (hba : Edge edges b a) : depth edges b = depth edges a + 1 := by
  obtain ⟨l, hl⟩ := hf.ancestors_isSome a
  obtain ⟨k, hk⟩ := hf.ancestors_isSome b
  have hmem : ∀ x, x ∈ k ↔ x ∈ a :: l := by
    intro x
    rw [hf.mem_ancestors hk, List.mem_cons, hf.mem_ancestors hl]
    constructor
    · intro hbx
      obtain ⟨p, hedge, hrest⟩ := Relation.TransGen.head'_iff.1 hbx
      have hpa : p = a := by
        have hparent := (parent_iff hf.unique).2 hedge
        rw [(parent_iff hf.unique).2 hba] at hparent
        exact (Option.some.inj hparent).symm
      rw [hpa] at hrest
      exact Relation.reflTransGen_iff_eq_or_transGen.1 hrest
    · rintro (rfl | hax)
      · exact .single hba
      · exact .head hba hax
  have hnodup : (a :: l).Nodup := List.nodup_cons.2 ⟨fun ha => hf.irreflexive ((hf.mem_ancestors hl).1 ha), (climb_sound hl).2.2⟩
  have hperm := (List.perm_ext_iff_of_nodup (climb_sound hk).2.2 hnodup).2 hmem
  rw [depth_of hk, depth_of hl, hperm.length_eq, List.length_cons]

/-- **A cycle is found**: the walk of a node that is above itself does not end. -/
theorem ancestors_cycle (hu : (edges.map Prod.fst).Nodup) (haa : Relation.TransGen (Edge edges) a a) :
    ancestors edges a = none := by
  cases h : ancestors edges a with
  | none => rfl
  | some l =>
    have hmem := climb_complete hu h haa
    exact absurd List.mem_cons_self ((climb_sound h).2.1 a hmem)

end Graph
