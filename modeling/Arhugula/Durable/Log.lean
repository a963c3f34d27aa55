import Mathlib.Data.List.Sort
import Mathlib.Data.List.Nodup
import Mathlib.Data.List.Range
import Mathlib.Tactic.Common

/-!
# Logs whose items have keys

A log keeps items of different keys in the order in which they were added, and numbers them from one. Adding an item
again returns its number, and adding another of its key is refused.
-/

namespace Durable

/-- **A log**: no two of its items have one key. -/
structure Log {κ α : Type} (key : α → κ) where
  items : List α
  distinct : (items.map key).Nodup

/-- Items with their numbers. -/
def numbered {α : Type} (items : List α) : List (ℕ × α) := items.mapIdx fun i a => (i + 1, a)

section Numbered

variable {α : Type} {items : List α} {a : α} {n : ℕ}

@[simp] theorem length_numbered : (numbered items).length = items.length := List.length_mapIdx

theorem numbered_append : numbered (items ++ [a]) = numbered items ++ [(items.length + 1, a)] := by
  unfold numbered
  rw [List.mapIdx_concat]

theorem mem_numbered : (n, a) ∈ numbered items ↔ ∃ i, items[i]? = some a ∧ n = i + 1 := by
  unfold numbered
  rw [List.mem_mapIdx]
  constructor
  · rintro ⟨i, hi, heq⟩
    injection heq with hn ha
    exact ⟨i, by rw [List.getElem?_eq_getElem hi, ha], hn.symm⟩
  · rintro ⟨i, hi, rfl⟩
    obtain ⟨hlt, ha⟩ := List.getElem?_eq_some_iff.1 hi
    exact ⟨i, hlt, by rw [ha]⟩

theorem numbered_snd : (numbered items).map Prod.snd = items := by
  refine List.ext_getElem (by simp) fun i hi hi' => ?_
  simp [numbered]

theorem snd_mem (h : (n, a) ∈ numbered items) : a ∈ items := by
  have hmem := List.mem_map_of_mem (f := Prod.snd) h
  rwa [numbered_snd] at hmem

/-- The numbers grow. -/
theorem numbered_sorted : (numbered items).Pairwise fun x y => x.1 < y.1 := by
  rw [List.pairwise_iff_getElem]
  intro i j hi hj hij
  simp only [numbered, List.getElem_mapIdx]
  omega

/-- What is numbered above `n` is what follows the first `n`. -/
theorem numbered_since : (numbered items).filter (fun x => n < x.1) = (numbered items).drop n := by
  have hsplit := List.take_append_drop n (numbered items)
  have htake : ((numbered items).take n).filter (fun x => n < x.1) = [] := by
    rw [List.filter_eq_nil_iff]
    intro x hx
    obtain ⟨i, hi, rfl⟩ := List.mem_iff_getElem.1 hx
    have hlt : i < n := by
      rw [List.length_take] at hi
      omega
    simp only [List.getElem_take, numbered, List.getElem_mapIdx, decide_eq_true_eq]
    omega
  have hdrop : ((numbered items).drop n).filter (fun x => n < x.1) = (numbered items).drop n := by
    rw [List.filter_eq_self]
    intro x hx
    obtain ⟨i, hi, rfl⟩ := List.mem_iff_getElem.1 hx
    simp only [List.getElem_drop, numbered, List.getElem_mapIdx, decide_eq_true_eq]
    omega
  conv_lhs => rw [← hsplit, List.filter_append, htake, hdrop, List.nil_append]

end Numbered

namespace Log

variable {κ α : Type} [DecidableEq κ] {key : α → κ}

/-- A log of nothing. -/
def empty (key : α → κ) : Log key := ⟨[], List.nodup_nil⟩

variable (l : Log key)

/-- The item of a key, with its number. -/
def find (k : κ) : Option (ℕ × α) := (numbered l.items).find? fun x => key x.2 = k

variable {l} {k : κ} {a b : α} {n : ℕ}

theorem find_mem (h : l.find k = some (n, a)) : (n, a) ∈ numbered l.items ∧ key a = k := by
  unfold find at h
  have hk : key a = k := by simpa using List.find?_some h
  exact ⟨List.mem_of_find?_eq_some h, hk⟩

theorem find_none (h : l.find k = none) : ∀ a ∈ l.items, key a ≠ k := by
  intro a ha
  obtain ⟨i, hi⟩ := List.mem_iff_getElem?.1 ha
  have hmem : (i + 1, a) ∈ numbered l.items := mem_numbered.2 ⟨i, hi, rfl⟩
  unfold find at h
  simpa using List.find?_eq_none.1 h _ hmem

/-- What is added at the end has a key of its own. -/
def push (a : α) (h : l.find (key a) = none) : Log key where
  items := l.items ++ [a]
  distinct := by
    rw [List.map_append, List.nodup_append]
    refine ⟨l.distinct, List.nodup_singleton _, fun x hx y hy hxy => ?_⟩
    obtain ⟨b, hb, rfl⟩ := List.mem_map.1 hx
    have hy' : y = key a := by simpa using hy
    exact find_none h b hb (hxy.trans hy')

variable (l)

open Classical in
/-- **Adding an item**, with its number, unless another has its key. -/
noncomputable def add (a : α) : Log key × Option ℕ :=
  match h : l.find (key a) with
  | none => (push a h, some (l.items.length + 1))
  | some (n, b) => if b = a then (l, some n) else (l, none)

/-- What was added after the first `n`. -/
def since (n : ℕ) : List (ℕ × α) := (numbered l.items).drop n

variable {l}

theorem add_new (h : l.find (key a) = none) : l.add a = (push a h, some (l.items.length + 1)) := by
  unfold add
  split
  · rfl
  · rename_i hfound
    rw [h] at hfound
    cases hfound

/-- An item that is added again has the number that it had. -/
theorem add_again (h : l.find (key a) = some (n, a)) : l.add a = (l, some n) := by
  unfold add
  split
  · rename_i hnone
    rw [h] at hnone
    cases hnone
  · rename_i hfound
    rw [h] at hfound
    cases hfound
    exact if_pos rfl

/-- Another item of a key is refused, and the log is what it was. -/
theorem add_other (h : l.find (key a) = some (n, b)) (hne : b ≠ a) : l.add a = (l, none) := by
  unfold add
  split
  · rename_i hnone
    rw [h] at hnone
    cases hnone
  · rename_i hfound
    rw [h] at hfound
    cases hfound
    exact if_neg hne

end Log

end Durable
