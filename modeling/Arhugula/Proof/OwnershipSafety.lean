import Arhugula.Spec.Ownership

/-!
# Overlap and coverage

Paths have one spelling (`paths_canonical`), and of two declared paths that are above one path, one is above the
other. So two declarations overlap on the paths they list if they overlap on any path.
-/

namespace Arhugula

namespace Ownership

open Strings

variable {left right : Finset Text} {d e path a : Text} {record : Mapping Json}

/-- Of two declared paths that are above one path, one is above the other. -/
theorem isUnder_total (hd : isUnder d path = true) (he : isUnder e path = true) :
    isUnder d e = true ∨ isUnder e d = true := by
  simp only [isUnder, Bool.or_eq_true, Bool.and_eq_true, decide_eq_true_eq, List.isPrefixOf_iff_prefix] at *
  rcases hd with rfl | ⟨htree, hgrown⟩
  · exact .inr he
  rcases he with rfl | ⟨htree', hgrown'⟩
  · exact .inl (.inr ⟨htree, hgrown⟩)
  rcases List.prefix_or_prefix_of_prefix hgrown hgrown' with h | h
  · exact .inl (.inr ⟨htree, h⟩)
  · exact .inr (.inr ⟨htree', h⟩)

/-- **Where `_overlap` finds nothing, no path is covered twice.** -/
theorem overlap_eq_false (h : overlap left right = false) :
    ¬ (covers left path = true ∧ covers right path = true) := by
  rintro ⟨hl, hr⟩
  simp only [overlap, covers, Bool.or_eq_false_iff, decide_eq_false_iff_not, decide_eq_true_eq] at *
  obtain ⟨d, hd, hdp⟩ := hl
  obtain ⟨e, he, hep⟩ := hr
  rcases isUnder_total hdp hep with hde | hed
  · exact h.1 ⟨e, he, d, hd, hde⟩
  · exact h.2 ⟨d, hd, e, he, hed⟩

/-! ## Canonical paths -/

/-- Every path that `_paths` accepts has its one spelling. -/
theorem paths_canonical (h : paths record = .ok left) (hp : path ∈ left) : isCanonical path = true := by
  unfold paths at h
  cases hn : names record "paths" with
  | error e =>
    rw [hn] at h
    cases h
  | ok declared =>
    rw [hn] at h
    dsimp only [bind, Except.bind] at h
    split at h
    · cases h
    · rename_i hnone
      have hall : ∀ x ∈ declared, isCanonical x = true := by simpa using hnone
      cases h
      exact hall path (List.mem_toFinset.1 hp)

/-- Parts are those on both sides of a slash. -/
theorem parts_append (a b : Text) : parts (a ++ '/' :: b) = parts a ++ parts b := by
  unfold parts
  rw [List.splitOn_append_cons_self, List.filter_append]

theorem intercalate_append {α : Type} {s : List α} {xs ys : List (List α)} (hx : xs ≠ []) (hy : ys ≠ []) :
    s.intercalate (xs ++ ys) = s.intercalate xs ++ s ++ s.intercalate ys := by
  induction xs with
  | nil => exact absurd rfl hx
  | cons x xs ih =>
    by_cases hxs : xs = []
    · subst hxs
      rw [List.singleton_append, List.intercalate_cons_of_ne_nil hy, List.intercalate_singleton]
    · have hne : xs ++ ys ≠ [] := by simp [hxs]
      rw [List.cons_append, List.intercalate_cons_of_ne_nil hne, ih hxs, List.intercalate_cons_of_ne_nil hxs]
      simp only [List.append_assoc]

theorem asPosix_append {a b : Text} (ha : parts a ≠ []) (hb : parts b ≠ []) :
    asPosix (a ++ '/' :: b) = asPosix a ++ '/' :: asPosix b := by
  unfold asPosix
  rw [parts_append, intercalate_append ha hb, List.append_assoc]
  rfl

/-- A tree is a path and a slash. -/
theorem tree_eq (h : isTree d = true) : ∃ a, d = a ++ ['/'] := by
  have hlast : d.getLast? = some '/' := by simpa [isTree] using h
  exact List.getLast?_eq_some_iff.1 hlast

/-- The file `x` of a tree is canonical. -/
theorem canonical_file (h : isCanonical (a ++ ['/']) = true) :
    isCanonical (a ++ ['/', 'x']) = true ∧ isTree (a ++ ['/', 'x']) = false := by
  have hx : parts ['x'] = [['x']] := by decide
  have hnil : parts [] = [] := by decide
  have hd : parts (a ++ ['/']) = parts a := by rw [parts_append, hnil, List.append_nil]
  have htree : isTree (a ++ ['/']) = true := by simp [isTree]
  have hfile : isTree (a ++ ['/', 'x']) = false := by simp [isTree]
  unfold isCanonical at h
  rw [hd, htree] at h
  have hposix : asPosix (a ++ ['/']) = asPosix a := by
    unfold asPosix
    rw [hd]
  rw [hposix] at h
  simp only [Bool.and_eq_true, decide_eq_true_eq, if_true, Bool.not_eq_true'] at h
  obtain ⟨⟨⟨hhead, hparts⟩, hdots⟩, heq⟩ := h
  have hself : a = asPosix a := List.append_cancel_right heq
  have hne : a ≠ [] := by
    rintro rfl
    exact hparts hnil
  refine ⟨?_, hfile⟩
  unfold isCanonical
  rw [hfile]
  have happ : parts (a ++ ['/', 'x']) = parts a ++ [['x']] := by rw [parts_append, hx]
  have hpos : asPosix (a ++ ['/', 'x']) = a ++ ['/', 'x'] := by
    rw [asPosix_append hparts (by rw [hx]; simp), ← hself]
    rfl
  rw [happ, hpos]
  simp only [Bool.and_eq_true, decide_eq_true_eq, Bool.not_eq_true']
  refine ⟨⟨⟨?_, by simp⟩, ?_⟩, by simp⟩
  · rw [List.head?_append_of_ne_nil _ hne] at hhead ⊢
    exact hhead
  · simp at hdots ⊢
    exact hdots

/-! ## Overlap -/

theorem mem_covers : covers left path = true ↔ ∃ d ∈ left, isUnder d path = true := by
  unfold covers
  rw [decide_eq_true_eq]

/-- A declared path covers itself. -/
theorem covers_self (h : d ∈ left) : covers left d = true :=
  mem_covers.2 ⟨d, h, by simp [isUnder]⟩

/-- What is in a tree of a covered tree is covered. -/
theorem covers_file (h : covers left (a ++ ['/']) = true) : covers left (a ++ ['/', 'x']) = true := by
  obtain ⟨d, hd, hunder⟩ := mem_covers.1 h
  refine mem_covers.2 ⟨d, hd, ?_⟩
  have hlonger : a ++ ['/'] <+: a ++ ['/', 'x'] := ⟨['x'], by simp⟩
  simp only [isUnder, Bool.or_eq_true, Bool.and_eq_true, decide_eq_true_eq, List.isPrefixOf_iff_prefix] at *
  rcases hunder with rfl | ⟨htree, hgrown⟩
  · exact .inr ⟨by simp [isTree], hlonger⟩
  · exact .inr ⟨htree, hgrown.trans hlonger⟩

/-- Where there is an overlap, a declared path is covered by both. -/
theorem overlap_declared (h : overlap left right = true) :
    ∃ p ∈ left ∪ right, covers left p = true ∧ covers right p = true := by
  unfold overlap at h
  rw [Bool.or_eq_true, decide_eq_true_eq, decide_eq_true_eq] at h
  rcases h with ⟨p, hp, hcovered⟩ | ⟨p, hp, hcovered⟩
  · exact ⟨p, Finset.mem_union_right _ hp, hcovered, covers_self hp⟩
  · exact ⟨p, Finset.mem_union_left _ hp, covers_self hp, hcovered⟩

/-! ## Dirty paths -/

theorem covers_union {ds : List (Finset Text)} :
    covers (ds.foldr (· ∪ ·) ∅) path = true ↔ ∃ d ∈ ds, covers d path = true := by
  induction ds with
  | nil => simp [covers]
  | cons d ds ih =>
    rw [List.foldr_cons, mem_covers]
    constructor
    · rintro ⟨p, hp, hunder⟩
      rcases Finset.mem_union.1 hp with hp | hp
      · exact ⟨d, List.mem_cons_self, mem_covers.2 ⟨p, hp, hunder⟩⟩
      · obtain ⟨e, he, hcovered⟩ := ih.1 (mem_covers.2 ⟨p, hp, hunder⟩)
        exact ⟨e, List.mem_cons_of_mem d he, hcovered⟩
    · rintro ⟨e, he, hcovered⟩
      rcases List.mem_cons.1 he with rfl | he
      · obtain ⟨p, hp, hunder⟩ := mem_covers.1 hcovered
        exact ⟨p, Finset.mem_union_left _ hp, hunder⟩
      · obtain ⟨p, hp, hunder⟩ := mem_covers.1 (ih.2 ⟨e, he, hcovered⟩)
        exact ⟨p, Finset.mem_union_right _ hp, hunder⟩

/-- **What `undeclared` reports.** -/
theorem mem_undeclared {resolve : Text → Text} {active : List Reservation} {checkout : Text} {dirty : Finset Text} :
    path ∈ undeclared resolve active checkout dirty ↔ path ∈ dirty ∧
      ∀ r ∈ active, resolve checkout ∈ r.worktrees → covers r.declaredDirty path = false := by
  unfold undeclared
  rw [Finset.mem_filter, ← Bool.not_eq_true, covers_union]
  refine and_congr_right fun _ => ?_
  constructor
  · intro hnone r hr hw
    rw [← Bool.not_eq_true]
    intro hcovered
    exact hnone ⟨r.declaredDirty, List.mem_map_of_mem (List.mem_filter.2 ⟨hr, by simpa using hw⟩), hcovered⟩
  · rintro hall ⟨d, hd, hcovered⟩
    obtain ⟨r, hr, rfl⟩ := List.mem_map.1 hd
    obtain ⟨hmem, hw⟩ := List.mem_filter.1 hr
    rw [hall r hmem (by simpa using hw)] at hcovered
    cases hcovered

/-- **Overlap is exact**: two declarations that `_paths` accepts overlap if a canonical path is covered by both, and
then a file is. What is dirty is undeclared unless an active reservation of the checkout covers it. -/
theorem overlap_exact {l r : Mapping Json} (hl : paths l = .ok left) (hr : paths r = .ok right) :
    (overlap left right = true ↔
      ∃ path, isCanonical path = true ∧ covers left path = true ∧ covers right path = true) ∧
    (overlap left right = true →
      ∃ path, isCanonical path = true ∧ isTree path = false ∧ covers left path = true ∧ covers right path = true) ∧
    ∀ resolve active checkout dirty path, path ∈ undeclared resolve active checkout dirty ↔
      path ∈ dirty ∧ ¬ ∃ r ∈ active, resolve checkout ∈ r.worktrees ∧ covers r.declaredDirty path = true := by
  have hcanonical : ∀ p ∈ left ∪ right, isCanonical p = true := by
    intro p hp
    rcases Finset.mem_union.1 hp with hp | hp
    · exact paths_canonical hl hp
    · exact paths_canonical hr hp
  refine ⟨⟨fun h => ?_, ?_⟩, fun h => ?_, fun resolve active checkout dirty path => ?_⟩
  · obtain ⟨p, hp, hleft, hright⟩ := overlap_declared h
    exact ⟨p, hcanonical p hp, hleft, hright⟩
  · rintro ⟨path, -, hleft, hright⟩
    by_contra hno
    rw [Bool.not_eq_true] at hno
    exact overlap_eq_false hno ⟨hleft, hright⟩
  · obtain ⟨p, hp, hleft, hright⟩ := overlap_declared h
    by_cases htree : isTree p = true
    · -- a tree that both cover holds a file that both cover
      obtain ⟨a, rfl⟩ := tree_eq htree
      obtain ⟨hfile, hnot⟩ := canonical_file (hcanonical _ hp)
      exact ⟨_, hfile, hnot, covers_file hleft, covers_file hright⟩
    · exact ⟨p, hcanonical p hp, Bool.not_eq_true _ ▸ htree, hleft, hright⟩
  · rw [mem_undeclared]
    simp

namespace Example

/-- A record that declares one path. -/
def declares (path : String) : Mapping Json := [("paths", .arr [.str path])]

end Example

theorem overlap_exact_nested : ∃ path, isCanonical path = true ∧ isTree path = false ∧
    covers {"ops/".toList} path = true ∧ covers {"ops/loop/".toList} path = true :=
  (overlap_exact (l := Example.declares "ops/") (r := Example.declares "ops/loop/") rfl rfl).2.1 (by decide)

end Ownership

end Arhugula
