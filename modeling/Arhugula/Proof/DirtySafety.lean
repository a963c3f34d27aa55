import Arhugula.Spec.LocalAdapter

/-!
# What the status of a checkout is read as

Whatever the records are, the paths that `dirty` returns are the paths they name, each with its line ends translated
(`dirty_serialise`): renames and copies shift nothing. So the paths are the ones named if and only if none of them has a
carriage return (`dirty_iff`).
-/

namespace Arhugula

namespace Local

open Strings Sequence

variable {paths : Finset Text}

/-! ## Line ends -/

theorem joinBreaks_cons {c : Char} (hc : c ≠ '\r') (t : Text) : joinBreaks (c :: t) = c :: joinBreaks t := by
  rw [joinBreaks]
  intro t' heq
  exact absurd heq hc

/-- A carriage return and a newline are not joined over another character. -/
theorem joinBreaks_append {d : Char} (hd : d ≠ '\n') (a b : Text) :
    joinBreaks (a ++ d :: b) = joinBreaks a ++ joinBreaks (d :: b) := by
  induction a using joinBreaks.induct with
  | case1 t ih =>
    rw [List.cons_append, List.cons_append, joinBreaks, joinBreaks, ih, List.cons_append]
  | case2 c t hne ih =>
    have hmore : ∀ t', c = '\r' → t ++ d :: b = '\n' :: t' → False := by
      intro t' hc heq
      cases t with
      | nil => exact hd (List.cons.inj heq).1
      | cons x t => exact hne t hc (by rw [(List.cons.inj heq).1])
    rw [List.cons_append, joinBreaks, joinBreaks, ih, List.cons_append]
    · exact hne
    · exact hmore
  | case3 => rfl

theorem joinBreaks_subset (t : Text) : joinBreaks t ⊆ t := by
  induction t using joinBreaks.induct with
  | case1 t ih =>
    rw [joinBreaks]
    intro c hc
    rcases List.mem_cons.1 hc with rfl | hc
    · exact List.mem_cons_of_mem _ List.mem_cons_self
    · exact List.mem_cons_of_mem _ (List.mem_cons_of_mem _ (ih hc))
  | case2 c t hne ih =>
    rw [joinBreaks]
    · exact List.cons_subset_cons c ih
    · exact hne
  | case3 => exact List.Subset.refl _

theorem joinBreaks_self {t : Text} (ht : '\r' ∉ t) : joinBreaks t = t := by
  induction t with
  | nil => rfl
  | cons c t ih =>
    have hc : c ≠ '\r' := fun heq => ht (heq ▸ List.mem_cons_self)
    rw [joinBreaks_cons hc, ih fun hm => ht (List.mem_cons_of_mem _ hm)]

theorem translate_cons {c : Char} (hc : c ≠ '\r') (t : Text) :
    translateNewlines (c :: t) = c :: translateNewlines t := by
  unfold translateNewlines
  rw [joinBreaks_cons hc, List.map_cons, if_neg hc]

theorem translate_append (a b : Text) :
    translateNewlines (a ++ '\x00' :: b) = translateNewlines a ++ '\x00' :: translateNewlines b := by
  have hcons : '\x00' :: translateNewlines b = translateNewlines ('\x00' :: b) := (translate_cons (by decide) b).symm
  rw [hcons]
  unfold translateNewlines
  rw [joinBreaks_append (by decide), List.map_append]

theorem translate_self {t : Text} (ht : '\r' ∉ t) : translateNewlines t = t := by
  unfold translateNewlines
  rw [joinBreaks_self ht]
  refine (List.map_congr_left fun c hc => ?_).trans (List.map_id t)
  have hne : c ≠ '\r' := fun heq => ht (heq ▸ hc)
  rw [if_neg hne]
  rfl

/-- No carriage return is left. -/
theorem return_not_mem (t : Text) : '\r' ∉ translateNewlines t := by
  intro hm
  obtain ⟨c, -, hc⟩ := List.mem_map.1 hm
  split at hc
  · cases hc
  · rename_i hne
    exact hne hc

/-- No terminator is made. -/
theorem nul_not_mem {t : Text} (ht : '\x00' ∉ t) : '\x00' ∉ translateNewlines t := by
  intro hm
  obtain ⟨c, hin, hc⟩ := List.mem_map.1 hm
  split at hc
  · cases hc
  · exact ht (joinBreaks_subset t (hc ▸ hin))

/-! ## Records -/

theorem Letter.char_nul (l : Letter) : l.char ≠ '\x00' := by
  cases l <;> decide

theorem Letter.char_return (l : Letter) : l.char ≠ '\r' := by
  cases l <;> decide

theorem Letter.char_moved (l : Letter) : (l.char = 'R' || l.char = 'C') = l.moved := by
  cases l <;> decide

/-- A record as it is read. -/
def Entry.translated (e : Entry) : Entry where
  index := e.index
  worktree := e.worktree
  path := translateNewlines e.path
  source := e.source.map translateNewlines
  sourced := by rw [Option.isSome_map, e.sourced]
  path_text := nul_not_mem e.path_text
  source_text := by
    intro s hs
    obtain ⟨s', hs', rfl⟩ := Option.map_eq_some_iff.1 hs
    exact nul_not_mem (e.source_text s' hs')

theorem Entry.fields_translated (e : Entry) : e.translated.fields = e.fields.map translateNewlines := by
  have hsource : e.translated.source.toList = e.source.toList.map translateNewlines := Option.toList_map
  unfold fields
  rw [hsource, List.map_cons, translate_cons e.index.char_return, translate_cons e.worktree.char_return,
    translate_cons (by decide)]
  rfl

theorem Entry.names_translated (e : Entry) : e.translated.names = e.names.map translateNewlines := by
  have hsource : e.translated.source.toList = e.source.toList.map translateNewlines := Option.toList_map
  unfold names
  rw [hsource, List.map_cons]
  rfl

theorem Entry.fields_nul (e : Entry) : ∀ field ∈ e.fields, '\x00' ∉ field := by
  intro field hfield
  rcases List.mem_cons.1 hfield with rfl | hsource
  · intro hm
    rcases List.mem_cons.1 hm with hindex | hm
    · exact e.index.char_nul hindex.symm
    rcases List.mem_cons.1 hm with hworktree | hm
    · exact e.worktree.char_nul hworktree.symm
    rcases List.mem_cons.1 hm with hblank | hm
    · exact absurd hblank (by decide)
    · exact e.path_text hm
  · exact e.source_text field (Option.mem_toList.1 hsource)

theorem Entry.moves_fields (e : Entry) : moves (e.index.char :: e.worktree.char :: ' ' :: e.path) = e.source.isSome := by
  rw [e.sourced, ← e.index.char_moved, ← e.worktree.char_moved]
  show ([e.index.char, e.worktree.char].any fun c => c = 'R' || c = 'C') = _
  rw [List.any_cons, List.any_cons, List.any_nil, Bool.or_false]

/-- What was written is read in its turn, record by record. -/
theorem translate_serialise (entries : List Entry) :
    translateNewlines (serialise entries) = serialise (entries.map Entry.translated) := by
  unfold serialise
  rw [apply_terminated rfl translate_append, List.map_flatMap, List.flatMap_map]
  congr 2
  funext e
  exact e.fields_translated.symm

theorem collect_one {record : Text} (hm : moves record = false) (records : List Text) :
    collect paths (record :: records) = collect (insert (record.drop 3) paths) records := by
  cases records with
  | nil => simp [collect, hm]
  | cons source records => simp [collect, hm]

theorem collect_two {record : Text} (hm : moves record = true) (source : Text) (records : List Text) :
    collect paths (record :: source :: records) = collect (insert source (insert (record.drop 3) paths)) records := by
  rw [collect, if_pos hm]

/-- One record: its paths are added, and what is left are the records after it. -/
theorem collect_fields (e : Entry) (paths : Finset Text) (records : List Text) :
    collect paths (e.fields ++ records) = collect (e.names.toFinset ∪ paths) records := by
  have hmoves := e.moves_fields
  unfold Entry.fields Entry.names
  cases hsource : e.source with
  | none =>
    rw [hsource] at hmoves
    rw [Option.toList_none, List.cons_append, List.nil_append, collect_one hmoves]
    congr 1
  | some source =>
    rw [hsource] at hmoves
    rw [Option.toList_some, List.cons_append, List.singleton_append, collect_two hmoves]
    congr 1
    ext path
    simp only [Finset.mem_insert, Finset.mem_union, List.mem_toFinset, List.mem_cons, List.drop_succ_cons, List.drop_zero,
      List.not_mem_nil, or_false]
    tauto

theorem collect_flatMap (entries : List Entry) (paths : Finset Text) :
    collect paths (entries.flatMap Entry.fields) = .ok (named entries ∪ paths) := by
  induction entries generalizing paths with
  | nil =>
    show Except.ok paths = .ok (∅ ∪ paths)
    rw [Finset.empty_union]
  | cons e entries ih =>
    have hnamed : named (e :: entries) = e.names.toFinset ∪ named entries := by
      unfold named
      rw [List.flatMap_cons, List.toFinset_append]
    rw [List.flatMap_cons, collect_fields, ih, hnamed, ← Finset.union_assoc, Finset.union_comm (named entries)]

theorem named_translated (entries : List Entry) :
    named (entries.map Entry.translated) = (named entries).image translateNewlines := by
  ext path
  unfold named
  simp only [List.mem_toFinset, List.mem_flatMap, List.mem_map, Finset.mem_image]
  constructor
  · rintro ⟨_, ⟨e, he, rfl⟩, hpath⟩
    rw [e.names_translated] at hpath
    obtain ⟨name, hname, rfl⟩ := List.mem_map.1 hpath
    exact ⟨name, ⟨e, he, hname⟩, rfl⟩
  · rintro ⟨name, ⟨e, he, hname⟩, rfl⟩
    refine ⟨e.translated, ⟨e, he, rfl⟩, ?_⟩
    rw [e.names_translated]
    exact List.mem_map_of_mem hname

/-- **What is read**: the paths that are named, each translated. -/
theorem dirty_serialise (entries : List Entry) (stderr : Text) :
    dirty ⟨0, serialise entries, stderr⟩ = .ok ((named entries).image translateNewlines) := by
  have hnul : ∀ field ∈ (entries.map Entry.translated).flatMap Entry.fields, '\x00' ∉ field := by
    intro field hfield
    obtain ⟨e, -, hin⟩ := List.mem_flatMap.1 hfield
    exact e.fields_nul field hin
  have hsplit : ((translateNewlines (serialise entries)).splitOn '\x00').dropLast =
      (entries.map Entry.translated).flatMap Entry.fields := by
    rw [translate_serialise]
    unfold serialise
    rw [splitOn_terminated hnul, List.dropLast_concat]
  show collect ∅ ((translateNewlines (serialise entries)).splitOn '\x00').dropLast = _
  rw [hsplit, collect_flatMap, named_translated, Finset.union_empty]

/-- **Dirty paths are complete** if and only if no path that is named, sources included, has a carriage return. -/
theorem dirty_iff (entries : List Entry) (stderr : Text) :
    dirty ⟨0, serialise entries, stderr⟩ = .ok (named entries) ↔ ∀ path ∈ named entries, '\r' ∉ path := by
  rw [dirty_serialise, Except.ok.injEq]
  constructor
  · intro heq path hpath
    rw [← heq] at hpath
    obtain ⟨name, -, rfl⟩ := Finset.mem_image.1 hpath
    exact return_not_mem name
  · intro hall
    have hsame : ∀ path ∈ named entries, translateNewlines path = id path := fun path hpath =>
      translate_self (hall path hpath)
    rw [Finset.image_congr hsame, Finset.image_id]

namespace Example

/-- A file that git does not track, with a carriage return in its name. -/
def returned : Entry where
  index := .untracked
  worktree := .untracked
  path := ['a', '\r', 'b']
  source := none
  sourced := rfl
  path_text := by decide
  source_text := by
    intro s hs
    cases hs

end Example

/-- The file is read under another name. -/
theorem dirty_renames : ¬ ∀ (entries : List Entry) (stderr : Text),
    dirty ⟨0, serialise entries, stderr⟩ = .ok (named entries) := by
  intro hall
  have hread : dirty ⟨0, serialise [Example.returned], []⟩ = .ok {['a', '\n', 'b']} := by
    decide +kernel
  have hnamed : named [Example.returned] = {['a', '\r', 'b']} := by
    decide +kernel
  have heq := hall [Example.returned] []
  rw [hread, hnamed, Except.ok.injEq, Finset.singleton_inj] at heq
  exact absurd heq (by decide)

end Local

end Arhugula
