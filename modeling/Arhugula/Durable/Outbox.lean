import Mathlib.Data.List.Nodup
import Mathlib.Tactic.Common

/-!
# Logs that take an item once

An item is added to the end of a log unless one of its key is there (`note`), so that items that are noted again, after
a crash, leave the log as it is. What is written is a list of writes, of which a crash leaves the first ones; an
assertion holds after each of them where it is kept by each (`Through`).
-/

namespace Durable

section Notes

variable {κ α : Type} [DecidableEq κ] (key : α → κ)

/-- An item, unless one of its key is there. -/
def note (l : List α) (a : α) : List α := if key a ∈ l.map key then l else l ++ [a]

/-- Items, one after the other. -/
def notes (l : List α) (as : List α) : List α := as.foldl (note key) l

variable {key} {l as bs : List α} {a b : α} {k : κ}

theorem note_known (h : key a ∈ l.map key) : note key l a = l := if_pos h

theorem note_new (h : key a ∉ l.map key) : note key l a = l ++ [a] := if_neg h

@[simp] theorem notes_nil : notes key l [] = l := rfl

theorem notes_cons : notes key l (a :: as) = notes key (note key l a) as := rfl

theorem notes_append : notes key l (as ++ bs) = notes key (notes key l as) bs := List.foldl_append

theorem notes_concat : notes key l (as ++ [a]) = note key (notes key l as) a := notes_append

theorem mem_note (h : b ∈ note key l a) : b ∈ l ∨ b = a := by
  unfold note at h
  split at h
  · exact .inl h
  · exact (List.mem_append.1 h).imp_right List.mem_singleton.1

/-- What is in the log was there, or was noted. -/
theorem mem_notes (h : b ∈ notes key l as) : b ∈ l ∨ b ∈ as := by
  induction as generalizing l with
  | nil => exact .inl h
  | cons a as ih =>
    rcases ih h with hb | hb
    · refine (mem_note hb).imp_right fun heq => ?_
      rw [heq]
      exact List.mem_cons_self
    · exact .inr (List.mem_cons_of_mem _ hb)

theorem key_mem_note : k ∈ (note key l a).map key ↔ k ∈ l.map key ∨ k = key a := by
  unfold note
  split
  · rename_i hk
    exact ⟨.inl, fun h => h.elim id fun heq => heq ▸ hk⟩
  · rw [List.map_append, List.mem_append, List.map_singleton, List.mem_singleton]

/-- **The keys of a log** are those that it had, and those of what was noted. -/
theorem key_mem_notes : k ∈ (notes key l as).map key ↔ k ∈ l.map key ∨ k ∈ as.map key := by
  induction as generalizing l with
  | nil => simp
  | cons a as ih => rw [notes_cons, ih, key_mem_note, List.map_cons, List.mem_cons, or_assoc]

theorem note_nodup (h : (l.map key).Nodup) : ((note key l a).map key).Nodup := by
  unfold note
  split
  · exact h
  · rename_i hk
    rw [List.map_append, List.map_singleton, List.nodup_append]
    refine ⟨h, List.nodup_singleton _, fun x hx y hy hxy => hk ?_⟩
    rw [List.mem_singleton] at hy
    rwa [hxy, hy] at hx

/-- **No key twice.** -/
theorem notes_nodup (h : (l.map key).Nodup) : ((notes key l as).map key).Nodup := by
  induction as generalizing l with
  | nil => exact h
  | cons a as ih => exact ih (note_nodup h)

/-- Items that say nothing of something do not change what the log says of it. -/
theorem filterMap_notes {β : Type} {f : α → Option β} (h : ∀ a ∈ as, f a = none) :
    (notes key l as).filterMap f = l.filterMap f := by
  induction as generalizing l with
  | nil => rfl
  | cons a as ih =>
    rw [notes_cons, ih fun b hb => h b (List.mem_cons_of_mem _ hb)]
    unfold note
    split
    · rfl
    · rw [List.filterMap_append, List.filterMap_cons_none (h a List.mem_cons_self), List.filterMap_nil, List.append_nil]

/-- Where no key is there twice, an item is the only one of its key. -/
theorem filter_key (h : (l.map key).Nodup) (ha : a ∈ l) : l.filter (fun x => key x = key a) = [a] := by
  induction l with
  | nil => cases ha
  | cons x l ih =>
    rw [List.map_cons, List.nodup_cons] at h
    rcases List.mem_cons.1 ha with rfl | ha
    · rw [List.filter_cons_of_pos (by simp), List.filter_eq_nil_iff.2]
      intro y hy hsame
      rw [decide_eq_true_eq] at hsame
      exact h.1 (hsame ▸ List.mem_map_of_mem hy)
    · rw [List.filter_cons_of_neg, ih h.2 ha]
      intro hsame
      rw [decide_eq_true_eq] at hsame
      exact h.1 (hsame ▸ List.mem_map_of_mem ha)

end Notes

section Through

variable {σ ω : Type} (write : σ → ω → σ) (I : Option ω → σ → Prop) (s : σ)

/-- **An assertion through some writes**: it holds after the first ones of them, however many, and of the last of these,
if there is one. -/
def Through (ws : List ω) : Prop := ∀ n, I (ws.take n).getLast? ((ws.take n).foldl write s)

variable {write I s} {ws : List ω} {w : ω}

theorem Through.nil (h : I none s) : Through write I s [] := by
  intro n
  rw [List.take_nil]
  exact h

/-- One more write that keeps it. -/
theorem Through.concat (h : Through write I s ws) (hw : I (some w) ((ws ++ [w]).foldl write s)) :
    Through write I s (ws ++ [w]) := by
  intro n
  by_cases hn : n ≤ ws.length
  · rw [List.take_append_of_le_length hn]
    exact h n
  · have hall : (ws ++ [w]).length ≤ n := by
      rw [List.length_append, List.length_singleton]
      omega
    rw [List.take_of_length_le hall, List.getLast?_concat]
    exact hw

end Through

end Durable
