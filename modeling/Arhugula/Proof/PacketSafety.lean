import Arhugula.Spec.AssignmentPacket

/-!
# Effective views are reachability

An index that is accepted is ordered (`admitAll_ordered`), so that the passes of `_descendants` and `_lineage` are
those of `Graph.Lineage`. An artifact is below an original and above a current head; where each original has one
current head, so has each artifact, and the lineages are disjoint.
-/

namespace Arhugula

namespace AssignmentPacket

open Strings Graph

/-! ## The graph of an index -/

variable {index : ArtifactIndex} {a b p root head : Text}

namespace ArtifactIndex

/-- An artifact supersedes another one. -/
def Supersedes (index : ArtifactIndex) (parent child : Text) : Prop :=
  ∃ artifact ∈ index.artifacts, artifact.sha256 = child ∧ parent ∈ artifact.supersedes

/-- `b` is `a`, or amends it through any number of artifacts. -/
def Amends (index : ArtifactIndex) : Text → Text → Prop := Relation.ReflTransGen index.Supersedes

/-- An original: it supersedes nothing. -/
def IsOriginal (index : ArtifactIndex) (root : Text) : Prop :=
  ∃ artifact ∈ index.artifacts, artifact.sha256 = root ∧ artifact.supersedes = []

/-- A current head: nothing supersedes it. -/
def IsCurrent (index : ArtifactIndex) (head : Text) : Prop := head ∈ index.hashes ∧ ∀ b, ¬ index.Supersedes head b

/-- The artifacts as nodes, with their parents. -/
def nodes (index : ArtifactIndex) : List (Text × List Text) := index.artifacts.map fun a => (a.sha256, a.supersedes)

end ArtifactIndex

theorem keys_nodes : keys index.nodes = index.hashes := by
  unfold keys ArtifactIndex.nodes ArtifactIndex.hashes
  rw [List.map_map]
  rfl

theorem parent_iff : Parent index.nodes p a ↔ index.Supersedes p a := by
  unfold Parent ArtifactIndex.Supersedes ArtifactIndex.nodes
  constructor
  · rintro ⟨ps, hmem, hp⟩
    obtain ⟨artifact, ha, heq⟩ := List.mem_map.1 hmem
    rw [Prod.mk.injEq] at heq
    exact ⟨artifact, ha, heq.1, heq.2 ▸ hp⟩
  · rintro ⟨artifact, ha, rfl, hp⟩
    exact ⟨artifact.supersedes, List.mem_map.2 ⟨artifact, ha, rfl⟩, hp⟩

theorem reaches_iff : Reaches index.nodes a b ↔ index.Amends a b := by
  have heq : Parent index.nodes = index.Supersedes := by
    funext p a
    exact propext parent_iff
  unfold Reaches ArtifactIndex.Amends
  rw [heq]

/-- **What `__post_init__` accepts is ordered.** -/
theorem admitAll_ordered {before : List (Text × List Text)} {seen : Finset Text} {rest : List Artifact}
    (hb : Ordered before) (hs : ∀ x, x ∈ seen ↔ x ∈ keys before) (h : admitAll seen rest = .ok ()) :
    Ordered (before ++ rest.map fun a => (a.sha256, a.supersedes)) := by
  induction rest generalizing before seen with
  | nil =>
    rw [List.map_nil, List.append_nil]
    exact hb
  | cons artifact rest ih =>
    rw [admitAll] at h
    by_cases hbad : artifact.sha256 ∈ seen ∨ artifact.supersedes.filter (· ∉ seen) ≠ []
    · rw [if_pos hbad] at h
      cases h
    · rw [if_neg hbad] at h
      push Not at hbad
      obtain ⟨hnew, hknown⟩ := hbad
      have hps : ∀ p ∈ artifact.supersedes, p ∈ keys before := by
        intro p hp
        have hseen := List.filter_eq_nil_iff.1 hknown p hp
        exact (hs p).1 (by simpa using hseen)
      have hgrown : Ordered (before ++ [(artifact.sha256, artifact.supersedes)]) :=
        .snoc hb (fun hmem => hnew ((hs _).2 hmem)) hps
      have hkeys : ∀ x, x ∈ insert artifact.sha256 seen ↔
          x ∈ keys (before ++ [(artifact.sha256, artifact.supersedes)]) := by
        intro x
        rw [Finset.mem_insert, mem_keys_append, hs, or_comm]
      have hrest := ih hgrown hkeys h
      rw [List.append_assoc] at hrest
      exact hrest

theorem nodes_ordered : Ordered index.nodes := by
  have h := admitAll_ordered Ordered.nil (by simp [keys]) index.admitted
  rw [List.nil_append] at h
  exact h

theorem hashes_nodup : index.hashes.Nodup := by
  rw [← keys_nodes]
  exact nodes_ordered.nodup

/-- **`_descendants` is reachability.** -/
theorem mem_descendants : b ∈ index.descendants a ↔ index.Amends a b := by
  have heq : index.descendants a = descend index.nodes {a} := by
    unfold ArtifactIndex.descendants descend ArtifactIndex.nodes
    rw [List.foldl_map]
  rw [heq, mem_descend nodes_ordered, reaches_iff]

/-- **`_lineage` is what the head amends**, in index order. -/
theorem mem_lineage : a ∈ index.lineage head ↔ a ∈ index.hashes ∧ index.Amends a head := by
  unfold ArtifactIndex.lineage
  have heq : index.artifacts.reverse.foldl (fun reach artifact =>
      if artifact.sha256 ∈ reach then reach ∪ artifact.supersedes.toFinset else reach) ({head} : Finset Text) =
      ascend index.nodes {head} := by
    unfold ascend ArtifactIndex.nodes
    rw [List.foldl_reverse, List.foldr_map]
  rw [heq, List.mem_filter, decide_eq_true_eq, mem_ascend nodes_ordered]
  simp [reaches_iff]

theorem lineage_sublist : (index.lineage head).Sublist index.hashes := List.filter_sublist

theorem mem_heads : head ∈ index.heads ↔ index.IsCurrent head := by
  have hsuper : head ∈ index.superseded ↔ ∃ b, index.Supersedes head b := by
    unfold ArtifactIndex.superseded ArtifactIndex.Supersedes
    rw [List.mem_toFinset, List.mem_flatMap]
    constructor
    · rintro ⟨artifact, ha, hp⟩
      exact ⟨_, artifact, ha, rfl, hp⟩
    · rintro ⟨-, artifact, ha, -, hp⟩
      exact ⟨artifact, ha, hp⟩
  unfold ArtifactIndex.heads ArtifactIndex.IsCurrent
  rw [List.mem_filter, decide_eq_true_eq, hsuper, not_exists]

theorem mem_roots : root ∈ index.roots ↔ index.IsOriginal root := by
  unfold ArtifactIndex.roots ArtifactIndex.IsOriginal
  rw [List.mem_map]
  constructor
  · rintro ⟨artifact, ha, rfl⟩
    obtain ⟨hmem, hnone⟩ := List.mem_filter.1 ha
    exact ⟨artifact, hmem, rfl, by simpa using hnone⟩
  · rintro ⟨artifact, ha, rfl, hnone⟩
    exact ⟨artifact, List.mem_filter.2 ⟨ha, by simpa using hnone⟩, rfl⟩

/-- An artifact amends an original. -/
theorem exists_original (ha : a ∈ index.hashes) : ∃ root, index.IsOriginal root ∧ index.Amends root a := by
  rw [← keys_nodes] at ha
  obtain ⟨r, hr, hpath⟩ := nodes_ordered.exists_root ha
  obtain ⟨artifact, hmem, heq⟩ := List.mem_map.1 hr
  rw [Prod.mk.injEq] at heq
  exact ⟨r, ⟨artifact, hmem, heq.1, heq.2⟩, reaches_iff.1 hpath⟩

/-- An artifact is amended by a current head. -/
theorem exists_current (ha : a ∈ index.hashes) : ∃ head, index.IsCurrent head ∧ index.Amends a head := by
  rw [← keys_nodes] at ha
  obtain ⟨b, ⟨hmem, hnone⟩, hpath⟩ := nodes_ordered.exists_head ha
  rw [keys_nodes] at hmem
  exact ⟨b, ⟨hmem, fun c hc => hnone c (parent_iff.2 hc)⟩, reaches_iff.1 hpath⟩

/-! ## The views -/

/-- A filter of a list without repetition has one member if one member passes. -/
theorem length_filter_eq_one {l : List Text} (hl : l.Nodup) {q : Text → Bool} :
    (l.filter q).length = 1 ↔ ∃! x, x ∈ l ∧ q x = true := by
  rw [List.length_eq_one_iff]
  constructor
  · rintro ⟨x, hx⟩
    have hmem : ∀ y, y ∈ l ∧ q y = true ↔ y = x := by
      intro y
      rw [← List.mem_filter, hx, List.mem_singleton]
    exact ⟨x, (hmem x).2 rfl, fun y hy => (hmem y).1 hy⟩
  · rintro ⟨x, hx, honly⟩
    refine ⟨x, List.perm_singleton.1 ?_⟩
    refine (List.perm_ext_iff_of_nodup (hl.filter q) (List.nodup_singleton x)).2 fun y => ?_
    rw [List.mem_filter, List.mem_singleton]
    exact ⟨fun hy => honly y hy, fun hy => hy ▸ hx⟩

/-- An original is tested for one current head. -/
theorem length_current : (index.current root).length = 1 ↔ ∃! head, index.IsCurrent head ∧ index.Amends root head := by
  have hnodup : index.heads.Nodup := hashes_nodup.filter _
  unfold ArtifactIndex.current
  rw [length_filter_eq_one hnodup]
  simp only [decide_eq_true_eq, mem_heads, mem_descendants]

theorem effectiveViews_ok {views : List EffectiveView} : effectiveViews index = .ok views ↔
    (∀ root, index.IsOriginal root → ∃! head, index.IsCurrent head ∧ index.Amends root head) ∧
      views = index.heads.map fun head => ⟨head, index.lineage head⟩ := by
  unfold effectiveViews
  cases hfind : index.roots.find? fun root => (index.current root).length ≠ 1 with
  | some root =>
    have hroot := mem_roots.1 (List.mem_of_find?_eq_some hfind)
    have hbad : (index.current root).length ≠ 1 := by simpa using List.find?_some hfind
    constructor
    · intro h
      cases h
    · rintro ⟨hall, -⟩
      exact absurd (length_current.2 (hall root hroot)) hbad
  | none =>
    have hall : ∀ root, index.IsOriginal root → ∃! head, index.IsCurrent head ∧ index.Amends root head := by
      intro root hroot
      have hone := List.find?_eq_none.1 hfind root (mem_roots.2 hroot)
      exact length_current.1 (by simpa using hone)
    constructor
    · intro h
      cases h
      exact ⟨hall, rfl⟩
    · rintro ⟨-, rfl⟩
      rfl

/-- Where each original has one current head, each artifact has. -/
theorem unique_current (hone : ∀ root, index.IsOriginal root → ∃! head, index.IsCurrent head ∧ index.Amends root head)
    (ha : a ∈ index.hashes) : ∃! head, index.IsCurrent head ∧ index.Amends a head := by
  obtain ⟨root, hroot, hpath⟩ := exists_original ha
  obtain ⟨head, -, honly⟩ := hone root hroot
  obtain ⟨h, hcurrent, hamends⟩ := exists_current ha
  have hsame : ∀ x, index.IsCurrent x ∧ index.Amends a x → x = head :=
    fun x hx => honly x ⟨hx.1, hpath.trans hx.2⟩
  refine ⟨h, ⟨hcurrent, hamends⟩, fun x hx => ?_⟩
  rw [hsame x hx, hsame h ⟨hcurrent, hamends⟩]

/-- **`effective_views` computes reachability.** The passes find what is below and what is above an artifact. There
are views if every original has exactly one head below it, and then each artifact is in the lineage of exactly one of
them; a lineage is in index order. -/
theorem effectiveViews_exact (index : ArtifactIndex) :
    (∀ a b, b ∈ index.descendants a ↔ index.Amends a b) ∧
    (∀ a head, a ∈ index.lineage head ↔ a ∈ index.hashes ∧ index.Amends a head) ∧
    ((∃ views, effectiveViews index = .ok views) ↔
      ∀ root, index.IsOriginal root → ∃! head, index.IsCurrent head ∧ index.Amends root head) ∧
    ∀ views, effectiveViews index = .ok views →
      (∀ head, head ∈ views.map EffectiveView.document ↔ index.IsCurrent head) ∧
      (∀ v ∈ views, v.lineage.Sublist index.hashes ∧ v.document ∈ v.lineage) ∧
      (views.map EffectiveView.document).Nodup ∧ ∀ a ∈ index.hashes, ∃! v, v ∈ views ∧ a ∈ v.lineage := by
  refine ⟨fun a b => mem_descendants, fun a head => mem_lineage, ?_, fun views hviews => ?_⟩
  · constructor
    · rintro ⟨views, hviews⟩
      exact (effectiveViews_ok.1 hviews).1
    · intro hone
      exact ⟨_, effectiveViews_ok.2 ⟨hone, rfl⟩⟩
  · obtain ⟨hone, rfl⟩ := effectiveViews_ok.1 hviews
    have hdocuments : (index.heads.map fun head => (⟨head, index.lineage head⟩ : EffectiveView)).map
        EffectiveView.document = index.heads := by
      rw [List.map_map]
      exact List.map_id index.heads
    rw [hdocuments]
    refine ⟨fun head => mem_heads, fun v hv => ?_, hashes_nodup.filter _, fun a ha => ?_⟩
    · obtain ⟨head, hhead, rfl⟩ := List.mem_map.1 hv
      exact ⟨lineage_sublist, mem_lineage.2 ⟨(mem_heads.1 hhead).1, .refl⟩⟩
    · obtain ⟨head, ⟨hcurrent, hamends⟩, honly⟩ := unique_current hone ha
      refine ⟨⟨head, index.lineage head⟩, ⟨List.mem_map.2 ⟨head, mem_heads.2 hcurrent, rfl⟩, mem_lineage.2 ⟨ha, hamends⟩⟩, ?_⟩
      rintro v ⟨hv, hmem⟩
      obtain ⟨other, hother, rfl⟩ := List.mem_map.1 hv
      have heq : other = head := honly other ⟨mem_heads.1 hother, (mem_lineage.1 hmem).2⟩
      rw [heq]

end AssignmentPacket

end Arhugula
