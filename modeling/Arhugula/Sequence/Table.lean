import Mathlib.Algebra.Ring.Nat
import Mathlib.Algebra.BigOperators.Group.List.Basic
import Mathlib.Data.List.Induction
import Mathlib.Data.List.Nodup

/-!
# Tables

A table is a list of keys and values, where the first value of a key counts. `put` gives a key a value: where it was, or
at the end. `gather` makes a table of the elements of a list by a key of each (`find_gather`).
-/

namespace Sequence

/-- Keys and values. -/
abbrev Table (α β : Type) := List (α × β)

namespace Table

variable {α β : Type} [DecidableEq α] {t : Table α β} {key other : α} {value : β}

/-- The value of a key. -/
def find : Table α β → α → Option β
  | [], _ => none
  | (k, v) :: t, key => if k = key then some v else find t key

/-- A key gets a value. -/
def put : Table α β → α → β → Table α β
  | [], key, value => [(key, value)]
  | (k, v) :: t, key, value => if k = key then (key, value) :: t else (k, v) :: put t key value

/-- The keys. -/
def keys (t : Table α β) : List α := t.map Prod.fst

/-- What the values come to. -/
def total (f : β → ℕ) (t : Table α β) : ℕ := (t.map fun m => f m.2).sum

@[simp] theorem find_put_self : (t.put key value).find key = some value := by
  induction t with
  | nil => simp [put, find]
  | cons m t ih =>
    obtain ⟨k, v⟩ := m
    by_cases hk : k = key
    · simp [put, find, hk]
    · simp [put, find, hk, ih]

theorem find_put_other (hne : other ≠ key) : (t.put key value).find other = t.find other := by
  induction t with
  | nil => simp [put, find, hne.symm]
  | cons m t ih =>
    obtain ⟨k, v⟩ := m
    by_cases hk : k = key
    · subst hk
      simp [put, find, hne.symm]
    · simp [put, find, hk, ih]

theorem mem_keys_put : other ∈ (t.put key value).keys ↔ other = key ∨ other ∈ t.keys := by
  induction t with
  | nil => simp [put, keys]
  | cons m t ih =>
    obtain ⟨k, v⟩ := m
    unfold keys at ih ⊢
    by_cases hk : k = key
    · subst hk
      simp [put]
    · simp only [put, hk, if_false, List.map_cons, List.mem_cons, ih]
      tauto

theorem nodup_keys_put (ht : t.keys.Nodup) : (t.put key value).keys.Nodup := by
  induction t with
  | nil => simp [put, keys]
  | cons m t ih =>
    obtain ⟨k, v⟩ := m
    obtain ⟨hnew, hrest⟩ := List.nodup_cons.1 ht
    by_cases hk : k = key
    · subst hk
      have hput : put ((k, v) :: t) k value = (k, value) :: t := by simp [put]
      rw [hput]
      exact ht
    · have hput : put ((k, v) :: t) key value = (k, v) :: put t key value := by simp [put, hk]
      rw [hput]
      apply List.nodup_cons.2
      refine ⟨?_, ih hrest⟩
      intro hmem
      rcases mem_keys_put.1 hmem with heq | hold
      · exact hk heq
      · exact hnew hold

/-- **A total changes by what the value of the key does.** -/
theorem total_put (f : β → ℕ) (t : Table α β) (key : α) (value : β) :
    total f (t.put key value) + ((t.find key).map f).getD 0 = total f t + f value := by
  induction t with
  | nil => simp [put, find, total]
  | cons m t ih =>
    obtain ⟨k, v⟩ := m
    unfold total at ih ⊢
    by_cases hk : k = key
    · simp [put, find, hk]
      omega
    · simp only [put, find, hk, if_false, List.map_cons, List.sum_cons]
      omega

/-- A total does not fall when a value does not. -/
theorem total_le_put {f : β → ℕ} (hle : ((t.find key).map f).getD 0 ≤ f value) :
    total f t ≤ total f (t.put key value) := by
  have hput := total_put f t key value
  omega

/-- A key that occurs once has its value. -/
theorem find_of_mem (ht : t.keys.Nodup) (hm : (key, value) ∈ t) : t.find key = some value := by
  induction t with
  | nil => cases hm
  | cons m t ih =>
    obtain ⟨k, v⟩ := m
    obtain ⟨hnew, hrest⟩ := List.nodup_cons.1 ht
    rcases List.mem_cons.1 hm with heq | hmem
    · cases heq
      simp [find]
    · have hk : k ≠ key := by
        intro hkey
        have hin : key ∈ keys t := List.mem_map_of_mem hmem
        exact hnew (hkey ▸ hin)
      simp only [find, hk, if_false]
      exact ih hrest hmem

/-! ## Groups -/

variable {γ : Type}

/-- The elements of a list by their keys, each group in the order of the list. -/
def gather (f : γ → α) (l : List γ) : Table α (List γ) :=
  l.foldl (fun t e => t.put (f e) ((t.find (f e)).getD [] ++ [e])) []

theorem gather_concat (f : γ → α) (l : List γ) (e : γ) :
    gather f (l ++ [e]) = (gather f l).put (f e) (((gather f l).find (f e)).getD [] ++ [e]) := by
  unfold gather
  rw [List.foldl_append]
  rfl

theorem nodup_keys_gather (f : γ → α) (l : List γ) : (gather f l).keys.Nodup := by
  induction l using List.reverseRecOn with
  | nil => exact List.nodup_nil
  | append_singleton l e ih =>
    rw [gather_concat]
    exact nodup_keys_put ih

theorem mem_keys_gather {f : γ → α} {l : List γ} : key ∈ (gather f l).keys ↔ ∃ e ∈ l, f e = key := by
  induction l using List.reverseRecOn with
  | nil => simp [gather, keys]
  | append_singleton l e ih =>
    rw [gather_concat, mem_keys_put, ih]
    constructor
    · rintro (rfl | ⟨e', he', rfl⟩)
      · exact ⟨e, by simp, rfl⟩
      · exact ⟨e', by simp [he'], rfl⟩
    · rintro ⟨e', he', rfl⟩
      rcases List.mem_append.1 he' with hold | hnew
      · exact .inr ⟨e', hold, rfl⟩
      · rw [List.mem_singleton.1 hnew]
        exact .inl rfl

/-- **A group** is what a key has in the list. -/
theorem find_gather (f : γ → α) (l : List γ) (key : α) :
    ((gather f l).find key).getD [] = l.filter fun e => f e = key := by
  induction l using List.reverseRecOn with
  | nil => rfl
  | append_singleton l e ih =>
    rw [gather_concat, List.filter_append]
    by_cases hkey : key = f e
    · subst hkey
      rw [find_put_self, Option.getD_some, ih]
      simp
    · rw [find_put_other hkey, ih]
      simp [Ne.symm hkey]

theorem mem_gather {f : γ → α} {l : List γ} {group : List γ} (hm : (key, group) ∈ gather f l) :
    group = l.filter fun e => f e = key := by
  rw [← find_gather, find_of_mem (nodup_keys_gather f l) hm]
  rfl

end Table

end Sequence
