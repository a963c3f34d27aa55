import Mathlib.Data.Finset.Image
import Mathlib.Logic.Relation

/-!
# Lineages

Nodes in the order in which they were added, each with its parents. Where every node is new and its parents come
before it (`Ordered`), one pass over the list finds what is below a node (`mem_descend`), and one pass backwards what
is above it (`mem_ascend`).
-/

namespace Graph

variable {α : Type}

/-- The nodes of a list. -/
def keys (nodes : List (α × List α)) : List α := nodes.map Prod.fst

/-- **Ordered nodes**: a node is new, and its parents come before it. -/
inductive Ordered : List (α × List α) → Prop
  | nil : Ordered []
  | snoc {nodes : List (α × List α)} {a : α} {ps : List α} (h : Ordered nodes) (hnew : a ∉ keys nodes)
      (hps : ∀ p ∈ ps, p ∈ keys nodes) : Ordered (nodes ++ [(a, ps)])

/-- `p` is a parent of `a`. -/
def Parent (nodes : List (α × List α)) (p a : α) : Prop := ∃ ps, (a, ps) ∈ nodes ∧ p ∈ ps

/-- `b` is `a` or below it. -/
def Reaches (nodes : List (α × List α)) : α → α → Prop := Relation.ReflTransGen (Parent nodes)

/-- One pass: a node below one that was reached is reached. -/
def descend [DecidableEq α] (nodes : List (α × List α)) (reach : Finset α) : Finset α :=
  nodes.foldl (fun reach n => if n.2.any (· ∈ reach) then insert n.1 reach else reach) reach

/-- One pass backwards: the parents of a node that was reached are reached. -/
def ascend [DecidableEq α] (nodes : List (α × List α)) (reach : Finset α) : Finset α :=
  nodes.foldr (fun n reach => if n.1 ∈ reach then reach ∪ n.2.toFinset else reach) reach

/-- A node without children. -/
def IsHead (nodes : List (α × List α)) (a : α) : Prop := a ∈ keys nodes ∧ ∀ b, ¬ Parent nodes a b

/-- A node without parents. -/
def IsRoot (nodes : List (α × List α)) (a : α) : Prop := (a, []) ∈ nodes

variable {nodes : List (α × List α)} {a b c p : α} {ps : List α}

theorem mem_keys_append : b ∈ keys (nodes ++ [(a, ps)]) ↔ b ∈ keys nodes ∨ b = a := by
  simp [keys]

theorem parent_append : Parent (nodes ++ [(c, ps)]) p a ↔ Parent nodes p a ∨ a = c ∧ p ∈ ps := by
  unfold Parent
  constructor
  · rintro ⟨qs, hmem, hp⟩
    rcases List.mem_append.1 hmem with hmem | hmem
    · exact .inl ⟨qs, hmem, hp⟩
    · rw [List.mem_singleton, Prod.mk.injEq] at hmem
      exact .inr ⟨hmem.1, hmem.2 ▸ hp⟩
  · rintro (⟨qs, hmem, hp⟩ | ⟨rfl, hp⟩)
    · exact ⟨qs, List.mem_append_left _ hmem, hp⟩
    · exact ⟨ps, List.mem_append_right _ List.mem_cons_self, hp⟩

/-- A child is a node. -/
theorem Parent.child_mem (h : Parent nodes p a) : a ∈ keys nodes := by
  obtain ⟨qs, hmem, -⟩ := h
  exact List.mem_map.2 ⟨(a, qs), hmem, rfl⟩

/-- A parent is a node. -/
theorem Ordered.parent_mem (h : Ordered nodes) (hp : Parent nodes p a) : p ∈ keys nodes := by
  induction h with
  | nil =>
    obtain ⟨qs, hmem, -⟩ := hp
    cases hmem
  | snoc h hnew hps ih =>
    rw [mem_keys_append]
    rcases parent_append.1 hp with hp | ⟨-, hp⟩
    · exact .inl (ih hp)
    · exact .inl (hps p hp)

theorem Ordered.nodup (h : Ordered nodes) : (keys nodes).Nodup := by
  induction h with
  | nil => exact List.nodup_nil
  | @snoc nodes c ps h hnew hps ih =>
    have hkeys : keys (nodes ++ [(c, ps)]) = keys nodes ++ [c] := by simp [keys]
    rw [hkeys, ← List.concat_eq_append]
    exact ih.concat hnew

theorem Reaches.grow (h : Reaches nodes a b) : Reaches (nodes ++ [(c, ps)]) a b := by
  induction h with
  | refl => exact .refl
  | tail _ hedge ih => exact ih.tail (parent_append.2 (.inl hedge))

/-- **What a new node reaches**, and what reaches it: it has no children, so it is the end of a path. -/
theorem reaches_append (h : Ordered nodes) (hnew : c ∉ keys nodes) (hps : ∀ p ∈ ps, p ∈ keys nodes) :
    Reaches (nodes ++ [(c, ps)]) a b ↔ Reaches nodes a b ∨ b = c ∧ ∃ p ∈ ps, Reaches nodes a p := by
  constructor
  · intro hpath
    induction hpath with
    | refl => exact .inl .refl
    | @tail x y _ hedge ih =>
      -- the new node is no parent, so the path came to `x` before
      have hx : x ≠ c → Reaches nodes a x := by
        intro hne
        rcases ih with ih | ⟨rfl, -⟩
        · exact ih
        · exact absurd rfl hne
      rcases parent_append.1 hedge with hedge | ⟨rfl, hmem⟩
      · have hne : x ≠ c := fun heq => hnew (heq ▸ h.parent_mem hedge)
        exact .inl ((hx hne).tail hedge)
      · have hne : x ≠ y := fun heq => hnew (heq ▸ hps x hmem)
        exact .inr ⟨rfl, x, hmem, hx hne⟩
  · rintro (hpath | ⟨rfl, p, hp, hpath⟩)
    · exact hpath.grow
    · exact hpath.grow.tail (parent_append.2 (.inr ⟨rfl, hp⟩))

/-- Every node is below a root. -/
theorem Ordered.exists_root (h : Ordered nodes) (ha : a ∈ keys nodes) : ∃ r, IsRoot nodes r ∧ Reaches nodes r a := by
  induction h generalizing a with
  | nil => cases ha
  | @snoc nodes c ps h hnew hps ih =>
    have hold : ∀ {x}, x ∈ keys nodes → ∃ r, IsRoot (nodes ++ [(c, ps)]) r ∧ Reaches (nodes ++ [(c, ps)]) r x := by
      intro x hx
      obtain ⟨r, hr, hpath⟩ := ih hx
      exact ⟨r, List.mem_append_left _ hr, hpath.grow⟩
    rcases mem_keys_append.1 ha with ha | rfl
    · exact hold ha
    · cases ps with
      | nil => exact ⟨a, List.mem_append_right _ List.mem_cons_self, .refl⟩
      | cons p ps =>
        obtain ⟨r, hr, hpath⟩ := hold (hps p List.mem_cons_self)
        exact ⟨r, hr, hpath.tail (parent_append.2 (.inr ⟨rfl, List.mem_cons_self⟩))⟩

/-- Every node is above a head. -/
theorem Ordered.exists_head (h : Ordered nodes) (ha : a ∈ keys nodes) : ∃ b, IsHead nodes b ∧ Reaches nodes a b := by
  induction h generalizing a with
  | nil => cases ha
  | @snoc nodes c ps h hnew hps ih =>
    have hlast : IsHead (nodes ++ [(c, ps)]) c := by
      refine ⟨mem_keys_append.2 (.inr rfl), fun b hb => ?_⟩
      rcases parent_append.1 hb with hb | ⟨-, hb⟩
      · exact hnew (h.parent_mem hb)
      · exact hnew (hps c hb)
    rcases mem_keys_append.1 ha with ha | rfl
    · obtain ⟨b, ⟨hmem, hnone⟩, hpath⟩ := ih ha
      by_cases hb : b ∈ ps
      · -- the head that was is superseded by the new node
        exact ⟨c, hlast, hpath.grow.tail (parent_append.2 (.inr ⟨rfl, hb⟩))⟩
      · refine ⟨b, ⟨mem_keys_append.2 (.inl hmem), fun x hx => ?_⟩, hpath.grow⟩
        rcases parent_append.1 hx with hx | ⟨-, hx⟩
        · exact hnone x hx
        · exact hb hx
    · exact ⟨a, hlast, .refl⟩

variable [DecidableEq α]

/-- **One pass is enough**: it finds what is below a node. -/
theorem mem_descend (h : Ordered nodes) : b ∈ descend nodes {a} ↔ Reaches nodes a b := by
  induction h generalizing b with
  | nil =>
    have hnil : Reaches ([] : List (α × List α)) a b ↔ b = a := by
      refine ⟨fun hpath => ?_, fun heq => heq ▸ .refl⟩
      induction hpath with
      | refl => rfl
      | tail _ hedge _ =>
        obtain ⟨qs, hmem, -⟩ := hedge
        cases hmem
    simp [descend, hnil]
  | @snoc nodes c ps h hnew hps ih =>
    rw [reaches_append h hnew hps, ← ih]
    have hstep : descend (nodes ++ [(c, ps)]) {a} =
        if ps.any (· ∈ descend nodes {a}) then insert c (descend nodes {a}) else descend nodes {a} := by
      unfold descend
      rw [List.foldl_append]
      rfl
    have hany : ps.any (· ∈ descend nodes {a}) = true ↔ ∃ p ∈ ps, Reaches nodes a p := by
      rw [List.any_eq_true]
      simp only [decide_eq_true_eq, ih]
    rw [hstep]
    by_cases hreached : ps.any (· ∈ descend nodes {a}) = true
    · rw [if_pos hreached, Finset.mem_insert]
      have hex := hany.1 hreached
      constructor
      · rintro (rfl | hb)
        · exact .inr ⟨rfl, hex⟩
        · exact .inl hb
      · rintro (hb | ⟨rfl, -⟩)
        · exact .inr hb
        · exact .inl rfl
    · rw [if_neg hreached]
      constructor
      · exact .inl
      · rintro (hb | ⟨-, hex⟩)
        · exact hb
        · exact absurd (hany.2 hex) hreached

/-- **One pass backwards is enough**: it finds what is above the nodes of a set. -/
theorem mem_ascend {reach : Finset α} (h : Ordered nodes) : b ∈ ascend nodes reach ↔ ∃ a ∈ reach, Reaches nodes b a := by
  induction h generalizing reach with
  | nil =>
    have hnil : ∀ a, Reaches ([] : List (α × List α)) b a ↔ a = b := by
      intro a
      refine ⟨fun hpath => ?_, fun heq => heq ▸ .refl⟩
      induction hpath with
      | refl => rfl
      | tail _ hedge _ =>
        obtain ⟨qs, hmem, -⟩ := hedge
        cases hmem
    simp [ascend, hnil]
  | @snoc nodes c ps h hnew hps ih =>
    have hstep : ascend (nodes ++ [(c, ps)]) reach =
        ascend nodes (if c ∈ reach then reach ∪ ps.toFinset else reach) := by
      unfold ascend
      rw [List.foldr_append]
      rfl
    rw [hstep, ih]
    simp only [reaches_append h hnew hps]
    by_cases hc : c ∈ reach
    · rw [if_pos hc]
      constructor
      · rintro ⟨a, ha, hpath⟩
        rcases Finset.mem_union.1 ha with ha | ha
        · exact ⟨a, ha, .inl hpath⟩
        · exact ⟨c, hc, .inr ⟨rfl, a, List.mem_toFinset.1 ha, hpath⟩⟩
      · rintro ⟨a, ha, hpath | ⟨-, p, hp, hpath⟩⟩
        · exact ⟨a, Finset.mem_union_left _ ha, hpath⟩
        · exact ⟨p, Finset.mem_union_right _ (List.mem_toFinset.2 hp), hpath⟩
    · rw [if_neg hc]
      constructor
      · rintro ⟨a, ha, hpath⟩
        exact ⟨a, ha, .inl hpath⟩
      · rintro ⟨a, ha, hpath | ⟨rfl, -⟩⟩
        · exact ⟨a, ha, hpath⟩
        · exact absurd ha hc

end Graph
