import Arhugula.Spec.Backlog

/-!
# Which tickets are free of prerequisites

`select_ticket` and `route_backlog` ask whether each prerequisite is complete, `open_dependencies` whether it is
closed. An epic that is complete through its children is what they differ by.
-/

namespace Arhugula

namespace Backlog

open Strings Lit Graph

variable {x : Index} {data : Export} {version : Option Json} {i : Issue} {id : Text} {n : ℕ}

/-! ## The index -/

theorem indexBacklog_data (h : indexBacklog version data = .ok x) : x.data = data := by
  unfold indexBacklog at h
  split at h
  · cases h
  split at h
  · split at h
    · split at h
      · cases h
        rfl
      · cases h
    · cases h
  · cases h

theorem Index.forest (x : Index) : IsForest (parents x.data) where
  unique := x.unique
  ends e he := x.ends e.1 (x.known e he).1

theorem find_mem (h : x.find id = some i) : i ∈ x.data.issues ∧ i.id = id := by
  unfold Index.find at h
  have hid : i.id = id := by simpa using List.find?_some h
  exact ⟨List.mem_of_find?_eq_some h, hid⟩

theorem find_of_mem (h : i ∈ x.data.issues) : x.find i.id = some i := by
  cases hf : x.find i.id with
  | none =>
    unfold Index.find at hf
    rw [List.find?_eq_none] at hf
    have hnot := hf i h
    simp at hnot
  | some j =>
    obtain ⟨hj, hid⟩ := find_mem hf
    rw [List.inj_on_of_nodup_map x.distinct hj h hid]

theorem find_ids (h : id ∈ ids x.data) : ∃ j, x.find id = some j ∧ j.id = id := by
  obtain ⟨j, hj, rfl⟩ := List.mem_map.1 h
  exact ⟨j, find_of_mem hj, rfl⟩

/-- Issues that are looked up by their ids keep them. -/
theorem map_find {l : List Text} (h : ∀ a ∈ l, a ∈ ids x.data) : (l.filterMap x.find).map Issue.id = l := by
  induction l with
  | nil => rfl
  | cons a l ih =>
    obtain ⟨j, hj, hid⟩ := find_ids (h a List.mem_cons_self)
    have hrest := ih fun b hb => h b (List.mem_cons_of_mem a hb)
    rw [List.filterMap_cons, hj]
    simp [hid, hrest]

/-- **The scope of an issue** is what `prerequisites` computes: the issue and what is above it. -/
theorem mem_scope : id ∈ x.scope i.id ↔ id ∈ closure (parents x.data) {i.id} := by
  obtain ⟨l, hl⟩ := x.forest.ancestors_isSome i.id
  have hknown : ∀ a ∈ l, a ∈ ids x.data := by
    intro a ha
    obtain ⟨b, -, hedge⟩ := Relation.TransGen.tail'_iff.1 ((x.forest.mem_ancestors hl).1 ha)
    exact (x.known (b, a) hedge).2
  unfold Index.scope Index.chain
  rw [hl, Option.getD_some, map_find hknown, List.mem_cons, x.forest.mem_ancestors hl, mem_closure]
  simp only [Finset.mem_singleton, exists_eq_left]
  rw [Relation.reflTransGen_iff_eq_or_transGen]

/-- **All three ask about the same prerequisites.** -/
theorem blockers_eq : blockers x i.id = prerequisites x.data i.id := by
  unfold blockers prerequisites
  congr 1
  refine List.filter_congr fun e _ => ?_
  by_cases he : e.1 ∈ closure (parents x.data) {i.id}
  · have hscope := mem_scope.2 he
    have hclosure : e.1 ∈ closure (x.data.edges ["parent-child"]) {i.id} := he
    simp [hscope, hclosure]
  · have hscope : e.1 ∉ x.scope i.id := fun hmem => he (mem_scope.1 hmem)
    have hclosure : e.1 ∉ closure (x.data.edges ["parent-child"]) {i.id} := he
    simp [hscope, hclosure]

/-! ## Completeness -/

theorem mem_index_children : i ∈ x.children id ↔ i ∈ x.data.issues ∧ Edge (parents x.data) i.id id := by
  unfold Index.children
  rw [List.mem_filterMap]
  constructor
  · rintro ⟨a, ha, hfind⟩
    obtain ⟨hmem, rfl⟩ := find_mem hfind
    exact ⟨hmem, mem_children.1 ha⟩
  · rintro ⟨hmem, hedge⟩
    exact ⟨i.id, mem_children.2 hedge, find_of_mem hmem⟩

/-- More levels change nothing once no child is further down. -/
theorem isCompleteIn_enough (h : (parents x.data).length + 1 ≤ n + depth (parents x.data) i.id) :
    isCompleteIn x (n + 1) i = isCompleteIn x n i := by
  induction n generalizing i with
  | zero =>
    have hle : depth (parents x.data) i.id ≤ (parents x.data).length := depth_le
    omega
  | succ n ih =>
    have hchildren : ∀ c ∈ (x.children i.id).filter (!isRetired ·), isCompleteIn x (n + 1) c = isCompleteIn x n c := by
      intro c hc
      have hedge := (mem_index_children.1 (List.mem_of_mem_filter hc)).2
      have hdepth := x.forest.depth_child hedge
      exact ih (by omega)
    have hall : ((x.children i.id).filter (!isRetired ·)).all (isCompleteIn x (n + 1)) =
        ((x.children i.id).filter (!isRetired ·)).all (isCompleteIn x n) := by
      rw [Bool.eq_iff_iff, List.all_eq_true, List.all_eq_true]
      constructor
      · intro hc c hm
        rw [← hchildren c hm]
        exact hc c hm
      · intro hc c hm
        rw [hchildren c hm]
        exact hc c hm
    rw [isCompleteIn]
    dsimp only
    rw [hall]
    rfl

/-- **`is_complete`, as it is written**: closed, or an epic whose children that are not retired are complete. -/
theorem isComplete_eq : isComplete x i = if i.isClosed then true else if !isEpic i then false else
    (x.children i.id).filter (!isRetired ·) ≠ [] && ((x.children i.id).filter (!isRetired ·)).all (isComplete x) := by
  have henough : isComplete x i = isCompleteIn x ((parents x.data).length + 2) i := by
    unfold isComplete
    exact (isCompleteIn_enough (by omega)).symm
  rw [henough]
  rfl

/-- What is closed is complete. -/
theorem isComplete_closed (h : i.isClosed = true) : isComplete x i = true := by
  rw [isComplete_eq, if_pos h]

theorem isDone_closed (hknown : id ∈ ids x.data) (h : id ∈ closed x.data) : isDone x id = true := by
  obtain ⟨j, hj, hid⟩ := find_ids hknown
  obtain ⟨k, hk, hkid⟩ := List.mem_map.1 h
  have hmem := List.mem_filter.1 hk
  have hfind := find_of_mem hmem.1
  rw [hkid] at hfind
  unfold isDone
  rw [hfind]
  exact isComplete_closed hmem.2

/-! ## The leaf -/

/-- A ticket that is worked on: no container, no epic, and active. -/
structure IsActiveLeaf (data : Export) (i : Issue) : Prop where
  issue : i ∈ data.issues
  leaf : i.id ∉ (parents data).map Prod.snd
  task : isEpic i = false
  active : i.isActive = true

/-- The output of LIT names this issue, and no other. -/
structure Names (data : Export) (output : Text) (id : Text) : Prop where
  named : ∃ line ∈ splitlines output, firstWord line = some id
  only : ∀ line ∈ splitlines output, ∀ word ∈ firstWord line, word ∈ ids data → word = id

theorem children_leaf (hl : IsActiveLeaf x.data i) : x.children i.id = [] := by
  rw [List.eq_nil_iff_forall_not_mem]
  intro c hc
  have hedge := (mem_index_children.1 hc).2
  exact hl.leaf (List.mem_map.2 ⟨_, hedge, rfl⟩)

theorem named_of (hi : i ∈ x.data.issues) {output : Text} (hn : Names x.data output i.id) :
    ∃ rest, named x output = i.id :: rest ∧ ∀ a ∈ rest, a = i.id := by
  have hall : ∀ a ∈ named x output, a = i.id := by
    intro a ha
    obtain ⟨line, hline, hword⟩ := List.mem_filterMap.1 ha
    obtain ⟨hfirst, hsome⟩ := Option.filter_eq_some_iff.1 hword
    obtain ⟨j, hj⟩ := Option.isSome_iff_exists.1 hsome
    obtain ⟨hmem, hid⟩ := find_mem hj
    exact hn.only line hline a hfirst (List.mem_map.2 ⟨j, hmem, hid⟩)
  obtain ⟨line, hline, hfirst⟩ := hn.named
  have hthere : i.id ∈ named x output := by
    refine List.mem_filterMap.2 ⟨line, hline, ?_⟩
    rw [hfirst]
    simp [find_of_mem hi]
  cases hl : named x output with
  | nil =>
    rw [hl] at hthere
    cases hthere
  | cons a rest =>
    rw [hl] at hall
    refine ⟨rest, ?_, fun b hb => hall b (List.mem_cons_of_mem a hb)⟩
    rw [hall a List.mem_cons_self]

/-- **`select_ticket`'s test**: a leaf that is named is returned if each of its prerequisites is complete. -/
theorem selectTicket_iff (hx : indexBacklog version x.data = .ok x) (hl : IsActiveLeaf x.data i) {output : Text}
    (hn : Names x.data output i.id) :
    (∃ chain, selectTicket version x.data output = .ok (some (i, chain))) ↔ ∀ p ∈ prerequisites x.data i.id, isDone x p = true := by
  obtain ⟨rest, hnamed, hrest⟩ := named_of hl.issue hn
  have hsame : rest.any (· ≠ i.id) = false := by
    rw [List.any_eq_false]
    intro a ha
    simp [hrest a ha]
  have hdescend : descend x ((parents x.data).length + 1) i = .ok i := by
    rw [descend]
    unfold unfinished
    rw [children_leaf hl]
    rfl
  have hselect : selectTicket version x.data output = if (blockers x i.id).any (!isDone x ·) then
      .error (.stop "blocked") else .ok (some (i, x.chain i.id)) := by
    unfold selectTicket
    rw [hx]
    dsimp only [bind, Except.bind]
    rw [hnamed]
    dsimp only
    rw [hsame, find_of_mem hl.issue, if_neg Bool.false_ne_true]
    dsimp only
    rw [hdescend]
    show (if _ then _ else _) = _
    rw [hl.active]
    rfl
  rw [hselect, blockers_eq]
  by_cases hany : (prerequisites x.data i.id).any (!isDone x ·) = true
  · rw [if_pos hany]
    obtain ⟨p, hp, hnot⟩ := List.any_eq_true.1 hany
    constructor
    · rintro ⟨chain, hchain⟩
      cases hchain
    · intro hall
      rw [hall p hp] at hnot
      cases hnot
  · rw [if_neg hany]
    refine ⟨fun _ p hp => ?_, fun _ => ⟨_, rfl⟩⟩
    have hnot : ∀ p ∈ prerequisites x.data i.id, isDone x p = true := by simpa using hany
    exact hnot p hp

theorem route_ticket (g : Glyphs) (above : List Issue) : (route g i above).ticket = i.id := by
  unfold route
  dsimp only
  repeat' split
  all_goals rfl

theorem sorted_eq_nil {l : List Text} : sorted l = [] ↔ l = [] := by
  unfold sorted
  constructor
  · intro h
    have hperm := List.perm_insertionSort (· ≤ ·) l.dedup
    rw [h] at hperm
    have hdedup : l.dedup = [] := hperm.nil_eq.symm
    rw [List.eq_nil_iff_forall_not_mem] at hdedup ⊢
    exact fun a ha => hdedup a (List.mem_dedup.2 ha)
  · rintro rfl
    rfl

/-- **`route_backlog`'s test**: the row of a leaf names no blocker if each of its prerequisites is complete. -/
theorem routeBacklog_iff {g : Glyphs} {rows : List Row} (hx : indexBacklog version x.data = .ok x)
    (hr : routeBacklog g version x.data = .ok rows) (hl : IsActiveLeaf x.data i) :
    (∃ r ∈ rows, r.route.ticket = i.id ∧ r.blockedBy = []) ↔ ∀ p ∈ prerequisites x.data i.id, isDone x p = true := by
  have hrows : rows = ((x.data.issues.filter (isLeaf x)).insertionSort ranked).map (row g x) := by
    unfold routeBacklog at hr
    rw [hx] at hr
    have hr' : (if x.data.issues.filter (isLeaf x) ≠ [] && !isLinked x then
        throw (.value "invalid dependency relationship")
      else pure (((x.data.issues.filter (isLeaf x)).insertionSort ranked).map (row g x)) : Except Refusal (List Row)) = .ok rows := hr
    split at hr'
    · cases hr'
    · cases hr'
      rfl
  have hleaf : ∀ j, j ∈ (x.data.issues.filter (isLeaf x)).insertionSort ranked ↔ j ∈ x.data.issues ∧ isLeaf x j = true := by
    intro j
    rw [(List.perm_insertionSort _ _).mem_iff, List.mem_filter]
  have hblocked : ∀ j : Issue, (row g x j).blockedBy = [] ↔ ∀ p ∈ blockers x j.id, isDone x p = true := by
    intro j
    show sorted ((blockers x j.id).filter (!isDone x ·)) = [] ↔ _
    rw [sorted_eq_nil, List.filter_eq_nil_iff]
    simp
  have hticket : ∀ j : Issue, (row g x j).route.ticket = j.id := by
    intro j
    unfold row
    dsimp only
    split
    · exact route_ticket g _
    · exact route_ticket g _
  rw [← blockers_eq, hrows]
  constructor
  · rintro ⟨r, hmem, hid, hnone⟩
    obtain ⟨j, hj, rfl⟩ := List.mem_map.1 hmem
    rw [hticket] at hid
    have heq : j = i := List.inj_on_of_nodup_map x.distinct ((hleaf j).1 hj).1 hl.issue hid
    rw [← heq]
    exact (hblocked j).1 hnone
  · intro hall
    have hi : isLeaf x i = true := by
      unfold isLeaf
      simp only [Bool.and_eq_true, Bool.not_eq_true', List.contains_eq_mem, decide_eq_false_iff_not]
      exact ⟨⟨hl.leaf, hl.task⟩, hl.active⟩
    exact ⟨row g x i, List.mem_map.2 ⟨i, (hleaf i).2 ⟨hl.issue, hi⟩, rfl⟩, hticket i, (hblocked i).2 hall⟩

/-- Where there is a leaf, the blocks are between issues. -/
theorem routeBacklog_linked {g : Glyphs} {rows : List Row} (hx : indexBacklog version x.data = .ok x)
    (hr : routeBacklog g version x.data = .ok rows) (hl : IsActiveLeaf x.data i) {p : Text}
    (hp : p ∈ prerequisites x.data i.id) : p ∈ ids x.data := by
  have hi : isLeaf x i = true := by
    unfold isLeaf
    simp only [Bool.and_eq_true, Bool.not_eq_true', List.contains_eq_mem, decide_eq_false_iff_not]
    exact ⟨⟨hl.leaf, hl.task⟩, hl.active⟩
  have hlinked : isLinked x = true := by
    by_contra hno
    unfold routeBacklog at hr
    rw [hx] at hr
    have hleaves : x.data.issues.filter (isLeaf x) ≠ [] := List.ne_nil_of_mem (List.mem_filter.2 ⟨hl.issue, hi⟩)
    have hr' : (if x.data.issues.filter (isLeaf x) ≠ [] && !isLinked x then
        throw (.value "invalid dependency relationship")
      else pure (((x.data.issues.filter (isLeaf x)).insertionSort ranked).map (row g x)) : Except Refusal (List Row)) = .ok rows := hr
    simp only [hleaves, hno, ne_eq, not_false_eq_true, decide_true, Bool.not_false, Bool.and_self, if_true] at hr'
    cases hr'
  obtain ⟨e, he, rfl⟩ := List.mem_map.1 hp
  have hboth := List.all_eq_true.1 hlinked e (List.mem_of_mem_filter he)
  rw [Bool.and_eq_true] at hboth
  obtain ⟨j, hj⟩ := Option.isSome_iff_exists.1 hboth.2
  obtain ⟨hmem, hid⟩ := find_mem hj
  exact List.mem_map.2 ⟨j, hmem, hid⟩

/-! ## Agreement -/

/-- `open_dependencies` is empty if each prerequisite is closed. -/
theorem openDependencies_iff : openDependencies data id = [] ↔ ∀ p ∈ prerequisites data id, p ∈ closed data := by
  unfold openDependencies
  rw [sorted_eq_nil, List.filter_eq_nil_iff]
  simp

/-- The three agree on a leaf. -/
def Agree (g : Glyphs) (version : Option Json) (data : Export) (output : Text) (i : Issue) : Prop :=
  (openDependencies data i.id = [] ↔ ∃ chain, selectTicket version data output = .ok (some (i, chain))) ∧
  ((∃ chain, selectTicket version data output = .ok (some (i, chain))) ↔
    ∃ rows, routeBacklog g version data = .ok rows ∧ ∃ r ∈ rows, r.route.ticket = i.id ∧ r.blockedBy = [])

/-- **When the three agree** on a leaf that is active: unless each of its prerequisites is complete, and one of them is
not closed itself. -/
theorem gating_agree_iff {g : Glyphs} {rows : List Row} (hx : indexBacklog version data = .ok x)
    (hr : routeBacklog g version data = .ok rows) (hl : IsActiveLeaf data i) {output : Text} (hn : Names data output i.id) :
    Agree g version data output i ↔
      ((∃ p ∈ prerequisites data i.id, isDone x p = false) ∨ ∀ p ∈ prerequisites data i.id, p ∈ closed data) := by
  obtain rfl := indexBacklog_data hx
  have hselect := selectTicket_iff hx hl hn
  have hroute := routeBacklog_iff hx hr hl
  have hrows : (∃ rows', routeBacklog g version x.data = .ok rows' ∧ ∃ r ∈ rows', r.route.ticket = i.id ∧ r.blockedBy = []) ↔
      ∃ r ∈ rows, r.route.ticket = i.id ∧ r.blockedBy = [] := by
    rw [hr]
    constructor
    · rintro ⟨rows', heq, hrest⟩
      cases heq
      exact hrest
    · exact fun hrest => ⟨rows, rfl, hrest⟩
  unfold Agree
  rw [hrows, hroute, hselect, openDependencies_iff]
  have hclosed : (∀ p ∈ prerequisites x.data i.id, p ∈ closed x.data) → ∀ p ∈ prerequisites x.data i.id, isDone x p = true :=
    fun hall p hp => isDone_closed (routeBacklog_linked hx hr hl hp) (hall p hp)
  constructor
  · rintro ⟨hiff, -⟩
    by_cases hall : ∀ p ∈ prerequisites x.data i.id, isDone x p = true
    · exact .inr (hiff.2 hall)
    · push Not at hall
      obtain ⟨p, hp, hnot⟩ := hall
      exact .inl ⟨p, hp, eq_false_of_ne_true hnot⟩
  · rintro (⟨p, hp, hnot⟩ | hall)
    · refine ⟨⟨hclosed, fun hdone => ?_⟩, Iff.rfl⟩
      rw [hdone p hp] at hnot
      cases hnot
    · exact ⟨⟨hclosed, fun _ => hall⟩, Iff.rfl⟩

namespace Example

/-- The glyphs of ASCII. -/
def ascii : Glyphs := ⟨fun t => t.map Char.toLower, Char.isAlphanum⟩

/-- A unit that an epic blocks whose one child is closed. -/
def done : Export where
  issues := [⟨"unit".toList, []⟩, ⟨"epic".toList, [("issue_type", .str "epic")]⟩,
    ⟨"child".toList, [("status", .str "closed")]⟩]
  comments := []
  relations := [⟨"unit".toList, "epic".toList, "blocks", []⟩, ⟨"child".toList, "epic".toList, "parent-child", []⟩]

/-- The unit. -/
def unit : Issue := ⟨"unit".toList, []⟩

theorem done_leaf : IsActiveLeaf done unit := by
  refine ⟨?_, ?_, ?_, ?_⟩ <;> decide

theorem done_names : Names done unit.id unit.id := by
  have hlines : splitlines unit.id = [unit.id] := by decide
  have hword : firstWord unit.id = some unit.id := by decide
  refine ⟨⟨unit.id, by simp [hlines], hword⟩, fun line hline word hw _ => ?_⟩
  rw [hlines, List.mem_singleton] at hline
  rw [hline, hword] at hw
  exact (Option.some.inj hw).symm

/-- The row of the unit. -/
def rows : List Row :=
  [⟨⟨"unit".toList, none, none, none, none, none, some "routing-ambiguous"⟩, []⟩]

theorem done_rows : routeBacklog ascii (some (.int 2)) done = .ok rows := by decide +kernel

end Example

/-- **They disagree on an epic that is complete through its children.** -/
theorem gating_disagree :
    routeBacklog Example.ascii (some (.int 2)) Example.done = .ok Example.rows ∧ IsActiveLeaf Example.done Example.unit ∧
      Names Example.done Example.unit.id Example.unit.id ∧
        ¬ Agree Example.ascii (some (.int 2)) Example.done Example.unit.id Example.unit := by
  refine ⟨Example.done_rows, Example.done_leaf, Example.done_names, ?_⟩
  rintro ⟨hiff, -⟩
  have hselect : selectTicket (some (.int 2)) Example.done Example.unit.id = .ok (some (Example.unit, [])) := by decide +kernel
  have hopen : openDependencies Example.done Example.unit.id ≠ [] := by decide +kernel
  exact hopen (hiff.2 ⟨[], hselect⟩)

/-- The condition is false where they disagree. -/
theorem gating_agree_iff_done :
    ∃ x, indexBacklog (some (.int 2)) Example.done = .ok x ∧
      (Agree Example.ascii (some (.int 2)) Example.done Example.unit.id Example.unit ↔
        ((∃ p ∈ prerequisites Example.done Example.unit.id, isDone x p = false) ∨
          ∀ p ∈ prerequisites Example.done Example.unit.id, p ∈ closed Example.done)) := by
  have hok : (indexBacklog (some (.int 2)) Example.done).toOption.isSome = true := by decide +kernel
  cases hx : indexBacklog (some (.int 2)) Example.done with
  | error e =>
    rw [hx] at hok
    cases hok
  | ok x => exact ⟨x, rfl, gating_agree_iff hx Example.done_rows Example.done_leaf Example.done_names⟩

end Backlog

end Arhugula
