import Mathlib.Data.Finset.Image
import Mathlib.Logic.Relation

/-!
# Closures along edges

`closure edges scope` is what a loop computes that adds the targets of the edges whose source it has, until
nothing is new. It is what is reached from `scope` (`mem_closure`), and depends on the edges that leave it
only (`closure_congr`).
-/

namespace Graph

variable {α : Type} [DecidableEq α]

/-- An edge, as a relation. -/
def Edge (edges : List (α × α)) (a b : α) : Prop := (a, b) ∈ edges

/-- One round: the targets of the edges that leave `scope` are added. -/
def expand (edges : List (α × α)) (scope : Finset α) : Finset α :=
  scope ∪ ((edges.filter fun e => e.1 ∈ scope).map Prod.snd).toFinset

/-- Rounds until nothing is new, at most `n` of them. -/
def rounds (edges : List (α × α)) : ℕ → Finset α → Finset α
  | 0, scope => scope
  | n + 1, scope => if expand edges scope = scope then scope else rounds edges n (expand edges scope)

/-- **The closure.** As many rounds as there are edges are enough (`expand_closure`). -/
def closure (edges : List (α × α)) (scope : Finset α) : Finset α := rounds edges edges.length scope

variable {edges edges' : List (α × α)} {scope scope' : Finset α} {a b : α}

theorem mem_expand : b ∈ expand edges scope ↔ b ∈ scope ∨ ∃ a ∈ scope, Edge edges a b := by
  unfold expand Edge
  simp only [Finset.mem_union, List.mem_toFinset, List.mem_map, List.mem_filter, decide_eq_true_eq]
  constructor
  · rintro (h | ⟨⟨a, b⟩, ⟨he, ha⟩, rfl⟩)
    · exact .inl h
    · exact .inr ⟨a, ha, he⟩
  · rintro (h | ⟨a, ha, he⟩)
    · exact .inl h
    · exact .inr ⟨(a, b), ⟨he, ha⟩, rfl⟩

theorem subset_expand : scope ⊆ expand edges scope := fun _ h => mem_expand.2 (.inl h)

/-- The edges whose target is still missing. -/
def missing (edges : List (α × α)) (scope : Finset α) : ℕ := (edges.filter fun e => e.2 ∉ scope).length

theorem missing_le : missing edges scope ≤ edges.length := List.length_filter_le _ _

/-- A round that is not the last one adds a target. -/
theorem missing_expand (h : expand edges scope ≠ scope) : missing edges (expand edges scope) < missing edges scope := by
  obtain ⟨b, hb, hnew⟩ : ∃ b ∈ expand edges scope, b ∉ scope := by
    by_contra hall
    push Not at hall
    exact h (Finset.Subset.antisymm hall subset_expand)
  obtain ⟨a, -, he⟩ := (mem_expand.1 hb).resolve_left hnew
  have hsub : (edges.filter fun e => e.2 ∉ expand edges scope) =
      (edges.filter fun e => e.2 ∉ scope).filter fun e => e.2 ∉ expand edges scope := by
    rw [List.filter_filter]
    refine List.filter_congr fun e _ => ?_
    by_cases hs : e.2 ∈ scope
    · simp [hs, subset_expand hs]
    · simp [hs]
  unfold missing
  rw [hsub, List.length_filter_lt_length_iff_exists]
  exact ⟨(a, b), List.mem_filter.2 ⟨he, by simpa using hnew⟩, by simpa using hb⟩

theorem rounds_fixed {n : ℕ} (h : missing edges scope ≤ n) :
    expand edges (rounds edges n scope) = rounds edges n scope := by
  induction n generalizing scope with
  | zero =>
    by_contra hne
    have hlt := missing_expand hne
    rw [rounds] at hlt
    omega
  | succ n ih =>
    rw [rounds]
    split
    · assumption
    · rename_i hne
      have hlt := missing_expand hne
      exact ih (by omega)

/-- **The loop ends**: another round adds nothing. -/
theorem expand_closure : expand edges (closure edges scope) = closure edges scope := rounds_fixed missing_le

theorem rounds_sound {n : ℕ} (h : b ∈ rounds edges n scope) : ∃ a ∈ scope, Relation.ReflTransGen (Edge edges) a b := by
  induction n generalizing scope with
  | zero => exact ⟨b, h, .refl⟩
  | succ n ih =>
    rw [rounds] at h
    split at h
    · exact ⟨b, h, .refl⟩
    · obtain ⟨a, ha, hp⟩ := ih h
      rcases mem_expand.1 ha with ha | ⟨a₀, ha₀, he⟩
      · exact ⟨a, ha, hp⟩
      · exact ⟨a₀, ha₀, .head he hp⟩

theorem subset_rounds {n : ℕ} : scope ⊆ rounds edges n scope := by
  induction n generalizing scope with
  | zero => exact fun _ h => h
  | succ n ih =>
    rw [rounds]
    split
    · exact fun _ h => h
    · exact fun _ h => ih (subset_expand h)

theorem subset_closure : scope ⊆ closure edges scope := subset_rounds

/-- The closure is closed. -/
theorem closure_step (ha : a ∈ closure edges scope) (he : Edge edges a b) : b ∈ closure edges scope := by
  rw [← expand_closure]
  exact mem_expand.2 (.inr ⟨a, ha, he⟩)

/-- **The closure is what is reached.** -/
theorem mem_closure : b ∈ closure edges scope ↔ ∃ a ∈ scope, Relation.ReflTransGen (Edge edges) a b := by
  constructor
  · exact rounds_sound
  · rintro ⟨a, ha, hp⟩
    induction hp with
    | refl => exact subset_closure ha
    | tail _ he ih => exact closure_step ih he

theorem closure_mono (h : scope ⊆ scope') : closure edges scope ⊆ closure edges scope' := by
  intro b hb
  obtain ⟨a, ha, hp⟩ := mem_closure.1 hb
  exact mem_closure.2 ⟨a, h ha, hp⟩

/-- A set that the edges do not leave holds the closure. -/
theorem closure_subset (hs : scope ⊆ scope') (hclosed : ∀ a ∈ scope', ∀ b, Edge edges a b → b ∈ scope') :
    closure edges scope ⊆ scope' := by
  intro b hb
  obtain ⟨a, ha, hp⟩ := mem_closure.1 hb
  induction hp with
  | refl => exact hs ha
  | tail _ he ih => exact hclosed _ (ih (mem_closure.2 ⟨a, ha, by assumption⟩)) _ he

/-- **Only the edges that leave the closure matter.** -/
theorem closure_congr (h : ∀ a ∈ closure edges scope, ∀ b, Edge edges a b ↔ Edge edges' a b) :
    closure edges' scope = closure edges scope := by
  refine Finset.Subset.antisymm ?_ ?_
  · exact closure_subset subset_closure fun a ha b he => closure_step ha ((h a ha b).2 he)
  · intro b hb
    obtain ⟨a, ha, hp⟩ := mem_closure.1 hb
    induction hp with
    | refl => exact subset_closure ha
    | @tail x y hx he ih =>
      have hmem : x ∈ closure edges scope := mem_closure.2 ⟨a, ha, hx⟩
      exact closure_step (ih hmem) ((h x hmem y).1 he)

end Graph
