import Mathlib.Data.List.Perm.Basic
import Arhugula.Spec.Lit

/-!
# What a fingerprint says

A ticket `Depends` on what the relations lead to from it. The scope of a fingerprint is what the ticket and the goal
depend on (`mem_scope`), what is excluded depends on what is quarantined (`mem_excludedScope`), and two exports with
the same relations at the scope agree on what the ticket depends on (`depends_congr`).
-/

namespace Arhugula

namespace Lit

open Strings Graph

variable {data data' before after : Export} {ticket goal a b : Text}

/-! ## Dependence -/

/-- A relation leads on: from a child to its parent, or from a blocked issue to its prerequisite. -/
def Leads (data : Export) (a b : Text) : Prop :=
  ∃ r ∈ data.relations, (r.type = "blocks" ∨ r.type = "parent-child") ∧ r.src = a ∧ r.dst = b

/-- **An issue depends on another**, itself included. -/
def Depends (data : Export) : Text → Text → Prop := Relation.ReflTransGen (Leads data)

theorem edge_edges {types : List String} :
    Edge (data.edges types) a b ↔ ∃ r ∈ data.relations, r.type ∈ types ∧ r.src = a ∧ r.dst = b := by
  unfold Edge Export.edges
  simp only [List.mem_map, List.mem_filter, List.contains_iff_mem, Prod.mk.injEq]
  constructor
  · rintro ⟨r, ⟨hr, ht⟩, hsrc, hdst⟩
    exact ⟨r, hr, ht, hsrc, hdst⟩
  · rintro ⟨r, hr, ht, hsrc, hdst⟩
    exact ⟨r, ⟨hr, ht⟩, hsrc, hdst⟩

theorem edge_leads : Edge (data.edges ["parent-child", "blocks"]) a b ↔ Leads data a b := by
  rw [edge_edges]
  unfold Leads
  simp only [List.mem_cons, List.not_mem_nil, or_false]
  refine exists_congr fun r => and_congr_right fun _ => and_congr_left fun _ => ?_
  exact or_comm

theorem edge_backward : Edge (data.backward ["blocks", "parent-child"]) a b ↔ Leads data b a := by
  have hswap : Edge (data.backward ["blocks", "parent-child"]) a b ↔
      Edge (data.edges ["blocks", "parent-child"]) b a := by
    unfold Edge Export.backward
    rw [List.mem_map]
    constructor
    · rintro ⟨⟨x, y⟩, he, hxy⟩
      cases hxy
      exact he
    · exact fun he => ⟨(b, a), he, rfl⟩
  rw [hswap, edge_edges]
  unfold Leads
  simp only [List.mem_cons, List.not_mem_nil, or_false]

/-- **The scope of a ticket** is what it or the goal depends on. -/
theorem mem_scope : a ∈ scope data ticket goal ↔ Depends data ticket a ∨ Depends data goal a := by
  have hlead : Relation.ReflTransGen (Edge (data.edges ["parent-child", "blocks"])) = Depends data := by
    unfold Depends
    congr 1
    funext x y
    exact propext edge_leads
  unfold scope
  rw [mem_closure, hlead]
  simp

/-- **What is excluded** depends on what is quarantined. -/
theorem mem_excludedScope {quarantined : List Text} :
    a ∈ excludedScope data quarantined ↔ ∃ b ∈ quarantined, Depends data a b := by
  have hlead : ∀ b, Relation.ReflTransGen (Edge (data.backward ["blocks", "parent-child"])) b a ↔ Depends data a b := by
    intro b
    unfold Depends
    rw [← Relation.reflTransGen_swap]
    have hswap : Edge (data.backward ["blocks", "parent-child"]) = Function.swap (Leads data) := by
      funext x y
      exact propext edge_backward
    rw [hswap]
  unfold excludedScope
  rw [mem_closure]
  simp only [List.mem_toFinset, hlead]

theorem ticket_mem : ticket ∈ scope data ticket goal := mem_scope.2 (.inl .refl)

/-- The scope is not left. -/
theorem scope_step (ha : a ∈ scope data ticket goal) (hl : Leads data a b) : b ∈ scope data ticket goal :=
  closure_step ha (edge_leads.2 hl)

/-! ## The relations at a scope -/

/-- The relations that `fingerprint` hashes. -/
def touching (data : Export) (ticket goal : Text) : List Relation :=
  data.relations.filter fun r => r.src ∈ scope data ticket goal || r.dst ∈ scope data ticket goal

theorem mem_touching {r : Relation} : r ∈ touching data ticket goal ↔
    r ∈ data.relations ∧ (r.src ∈ scope data ticket goal ∨ r.dst ∈ scope data ticket goal) := by
  unfold touching
  rw [List.mem_filter, Bool.or_eq_true, decide_eq_true_eq, decide_eq_true_eq]

section Congruence

variable (h : (touching data ticket goal).Perm (touching data' ticket goal))
include h

theorem mem_relations {r : Relation} (hr : r ∈ data.relations) (hs : r.src ∈ scope data ticket goal) :
    r ∈ data'.relations :=
  (mem_touching.1 (h.mem_iff.1 (mem_touching.2 ⟨hr, .inl hs⟩))).1

theorem leads_congr (ha : a ∈ scope data ticket goal) (hl : Leads data a b) : Leads data' a b := by
  obtain ⟨r, hr, htype, rfl, hdst⟩ := hl
  exact ⟨r, mem_relations h hr ha, htype, rfl, hdst⟩

/-- What is reached in the scope is reached in the other export. -/
theorem Depends.congr (ha : a ∈ scope data ticket goal) (hd : Depends data a b) : Depends data' a b := by
  have hboth : Depends data' a b ∧ b ∈ scope data ticket goal := by
    induction hd with
    | refl => exact ⟨.refl, ha⟩
    | tail _ hl ih => exact ⟨ih.1.tail (leads_congr h ih.2 hl), scope_step ih.2 hl⟩
  exact hboth.1

theorem scope_subset : scope data ticket goal ⊆ scope data' ticket goal := by
  intro x hx
  have hgoal : goal ∈ scope data ticket goal := mem_scope.2 (.inr .refl)
  rw [mem_scope] at hx ⊢
  exact hx.imp (Depends.congr h ticket_mem) (Depends.congr h hgoal)

end Congruence

/-- **The relations at a scope give the scope.** -/
theorem scope_congr (h : (touching data ticket goal).Perm (touching data' ticket goal)) :
    scope data ticket goal = scope data' ticket goal :=
  Finset.Subset.antisymm (scope_subset h) (scope_subset h.symm)

/-- **What a ticket depends on** is a matter of the relations at its scope. -/
theorem depends_congr (h : (touching data ticket goal).Perm (touching data' ticket goal)) :
    Depends data ticket b ↔ Depends data' ticket b :=
  ⟨Depends.congr h ticket_mem, Depends.congr h.symm ticket_mem⟩

/-- Exports that are hashed alike. -/
theorem hashed_touching (h : hashed data ticket goal = hashed data' ticket goal) :
    (touching data ticket goal).Perm (touching data' ticket goal) :=
  Multiset.coe_eq_coe.1 (congrArg Hashed.relations h)

end Lit

end Arhugula
