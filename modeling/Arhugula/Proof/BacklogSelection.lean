import Arhugula.Proof.BacklogSafety

/-!
# Selection ends, at a ticket that is free

`Completes` and `Descends` are the recursion of `is_complete` and the loop of `select_ticket`, without a bound on the
levels. In an export that is accepted no issue is above itself, and a child is one level further from its root than
its parent; so both end, with what the bounded functions return.
-/

namespace Arhugula

namespace Backlog

open Strings Lit Graph

variable {x : Index} {data : Export} {version : Option Json} {i j : Issue} {id a : Text} {output : Text} {n : ℕ}

/-! ## Without a bound -/

/-- The children that are not retired. -/
def kept (x : Index) (id : Text) : List Issue := (x.children id).filter (!isRetired ·)

/-- `is_complete(issue)` returns. All children are asked. -/
inductive Completes (x : Index) : Issue → Bool → Prop
  | closed {i : Issue} (h : i.isClosed = true) : Completes x i true
  | task {i : Issue} (h : i.isClosed = false) (ht : isEpic i = false) : Completes x i false
  | epic {i : Issue} (h : i.isClosed = false) (ht : isEpic i = true) (answers : Issue → Bool)
      (hc : ∀ c ∈ kept x i.id, Completes x c (answers c)) : Completes x i (kept x i.id ≠ [] && (kept x i.id).all answers)

/-- The loop of `select_ticket`, from an issue on. -/
inductive Descends (x : Index) : Issue → Except Refusal Issue → Prop
  | leaf {i : Issue} (h : x.children i.id = []) : Descends x i (.ok i)
  | container {i : Issue} (h : unfinished x i.id = []) (hc : x.children i.id ≠ []) :
      Descends x i (.error (.stop "container-needs-reconciliation"))
  | down {i next : Issue} {rest : List Issue} {r : Except Refusal Issue}
      (h : (unfinished x i.id).insertionSort ranked = next :: rest) (hnext : Descends x next r) : Descends x i r

/-- **`is_complete` returns**, with what `isComplete` is. -/
theorem completes (x : Index) (i : Issue) : Completes x i (isComplete x i) := by
  obtain ⟨n, hn⟩ : ∃ n, (parents x.data).length - depth (parents x.data) i.id = n := ⟨_, rfl⟩
  -- the induction is on how many levels can be below the issue
  induction n using Nat.strong_induction_on generalizing i with
  | _ n ih =>
    rw [isComplete_eq]
    by_cases hclosed : i.isClosed = true
    · rw [if_pos hclosed]
      exact .closed hclosed
    · have hopen : i.isClosed = false := by simpa using hclosed
      rw [if_neg hclosed]
      by_cases hepic : isEpic i = true
      · have hnot : ¬ (!isEpic i) = true := by simp [hepic]
        rw [if_neg hnot]
        refine .epic hopen hepic (isComplete x) fun c hc => ?_
        have hedge := (mem_index_children.1 (List.mem_of_mem_filter hc)).2
        have hchild := x.forest.depth_child hedge
        have hle : depth (parents x.data) c.id ≤ (parents x.data).length := depth_le
        exact ih _ (by omega) c rfl
      · have htask : isEpic i = false := by simpa using hepic
        rw [if_pos (by simp [htask])]
        exact .task hopen htask

/-- An issue that is not finished is a child. -/
theorem mem_unfinished : j ∈ unfinished x id ↔ j ∈ x.children id ∧ j.isClosed = false ∧ isRetired j = false := by
  unfold unfinished
  rw [List.mem_filter, Bool.and_eq_true, Bool.not_eq_true', Bool.not_eq_true']

/-- **The loop ends**, with what `descend` returns. There are enough levels. -/
theorem descends (hn : (parents x.data).length + 1 ≤ n + depth (parents x.data) i.id) :
    Descends x i (descend x n i) := by
  induction n generalizing i with
  | zero =>
    have hle : depth (parents x.data) i.id ≤ (parents x.data).length := depth_le
    omega
  | succ n ih =>
    rw [descend]
    cases hsort : (unfinished x i.id).insertionSort ranked with
    | nil =>
      have hnone : unfinished x i.id = [] := by
        have hlength := (List.perm_insertionSort ranked (unfinished x i.id)).length_eq
        rw [hsort] at hlength
        exact List.length_eq_zero_iff.1 hlength.symm
      dsimp only
      by_cases hc : x.children i.id = []
      · rw [if_neg (not_not_intro hc)]
        exact .leaf hc
      · rw [if_pos hc]
        exact .container hnone hc
    | cons next rest =>
      have hmem : next ∈ unfinished x i.id := by
        rw [← List.mem_insertionSort ranked, hsort]
        exact List.mem_cons_self
      have hedge := (mem_index_children.1 (mem_unfinished.1 hmem).1).2
      have hchild := x.forest.depth_child hedge
      exact .down hsort (ih (by omega))

/-! ## What is selected -/

/-- **The loop ends at a leaf** that is the issue or below it. -/
theorem Descends.leaf_below {r : Except Refusal Issue} (h : Descends x i r) (hr : r = .ok j) :
    x.children j.id = [] ∧ Relation.ReflTransGen (Edge (parents x.data)) j.id i.id ∧ (i ∈ x.data.issues → j ∈ x.data.issues) := by
  induction h with
  | leaf hleaf =>
    obtain rfl := Except.ok.inj hr
    exact ⟨hleaf, .refl, fun hi => hi⟩
  | container _ _ => cases hr
  | @down i next rest r hsort _ ih =>
    obtain ⟨hleaf, hpath, hmem⟩ := ih hr
    have hnext : next ∈ unfinished x i.id := by
      rw [← List.mem_insertionSort ranked, hsort]
      exact List.mem_cons_self
    obtain ⟨hissue, hedge⟩ := mem_index_children.1 (mem_unfinished.1 hnext).1
    exact ⟨hleaf, hpath.tail hedge, fun _ => hmem hissue⟩

/-- What `select_ticket` has checked of the ticket that it returns. -/
structure Selected (x : Index) (output : Text) (i : Issue) (chain : List Issue) : Prop where
  named : ∃ c ∈ named x output, Relation.ReflTransGen (Edge (parents x.data)) i.id c
  only : ∀ a ∈ Backlog.named x output, ∀ b ∈ Backlog.named x output, a = b
  issue : i ∈ x.data.issues
  leaf : x.children i.id = []
  active : i.isActive = true
  free : ∀ p ∈ blockers x i.id, isDone x p = true
  above : chain = x.chain i.id

theorem selectTicket_selected (hx : indexBacklog version data = .ok x) {chain : List Issue}
    (h : selectTicket version data output = .ok (some (i, chain))) : Selected x output i chain := by
  unfold selectTicket at h
  rw [hx] at h
  dsimp only [bind, Except.bind] at h
  cases hnamed : named x output with
  | nil =>
    rw [hnamed] at h
    dsimp only at h
    split at h
    · cases h
    · cases h
  | cons id rest =>
    rw [hnamed] at h
    dsimp only at h
    split at h
    · cases h
    · rename_i hsame
      have hrest : ∀ a ∈ rest, a = id := by simpa using hsame
      cases hfind : x.find id with
      | none =>
        rw [hfind] at h
        cases h
      | some start =>
        rw [hfind] at h
        dsimp only at h
        obtain ⟨hstart, hid⟩ := find_mem hfind
        cases hdescend : descend x ((parents data).length + 1) start with
        | error e =>
          rw [hdescend] at h
          cases h
        | ok current =>
          rw [hdescend] at h
          dsimp only at h
          split at h
          · cases h
          rename_i hactive
          split at h
          · cases h
          rename_i hfree
          cases h
          rw [← indexBacklog_data hx] at hdescend
          have hloop := descends (x := x) (n := (parents x.data).length + 1) (i := start) (by omega)
          obtain ⟨hleaf, hpath, hmem⟩ := hloop.leaf_below hdescend
          rw [hid] at hpath
          have hall : ∀ a ∈ id :: rest, a = id := by
            intro a ha
            rcases List.mem_cons.1 ha with rfl | ha
            · rfl
            · exact hrest a ha
          refine ⟨⟨id, hnamed ▸ List.mem_cons_self, hpath⟩, fun a ha b hb => ?_, hmem hstart, hleaf, by simpa using hactive,
            by simpa using hfree, rfl⟩
          rw [hnamed] at ha hb
          rw [hall a ha, hall b hb]

/-- **Selection ends, at a ticket that is free.** In an export that is accepted no issue is above itself; the walk to
the root, completeness and the loop of `select_ticket` end. A ticket that is returned is not finished and has no
children that are not, it is the one that LIT named or below it, and what blocks it or an issue above it is complete. -/
theorem selection_ends (hx : indexBacklog version data = .ok x) :
    (∀ id, ¬ Relation.TransGen (Edge (parents data)) id id) ∧
    (∀ id, ∃ above, (∀ n, (parents data).length < n → climb (parents data) n [id] id = some above) ∧
      ∀ a, a ∈ above ↔ Relation.TransGen (Edge (parents data)) id a) ∧
    (∀ i, Completes x i (isComplete x i)) ∧
    (∀ i, Descends x i (descend x ((parents data).length + 1) i)) ∧
    ∀ output i chain, selectTicket version data output = .ok (some (i, chain)) →
      i ∈ data.issues ∧ i.isActive = true ∧ (∀ c ∈ x.children i.id, c.isActive = false) ∧
      (∃ c ∈ named x output, Relation.ReflTransGen (Edge (parents data)) i.id c) ∧
      ∀ a p, Relation.ReflTransGen (Edge (parents data)) i.id a → (a, p) ∈ data.edges ["blocks"] → isDone x p = true := by
  obtain rfl := indexBacklog_data hx
  refine ⟨fun id => x.forest.irreflexive, fun id => ?_, completes x, fun i => descends (by omega), ?_⟩
  · obtain ⟨above, habove⟩ := x.forest.ancestors_isSome id
    refine ⟨above, fun n hn => ?_, fun a => x.forest.mem_ancestors habove⟩
    rw [climb_enough hn, habove]
  · intro output i chain h
    have hs := selectTicket_selected hx h
    refine ⟨hs.issue, hs.active, fun c hc => ?_, hs.named, fun a p hpath hblocks => hs.free p ?_⟩
    · rw [hs.leaf] at hc
      cases hc
    · rw [blockers_eq]
      have hclosure : a ∈ closure (x.data.edges ["parent-child"]) {i.id} :=
        mem_closure.2 ⟨i.id, Finset.mem_singleton_self _, hpath⟩
      exact List.mem_map.2 ⟨(a, p), List.mem_filter.2 ⟨hblocks, by simpa using hclosure⟩, rfl⟩

namespace Example

/-- An epic with two tasks, one of which is closed and blocks the epic. -/
def nested : Export where
  issues := [⟨"epic".toList, [("issue_type", .str "epic")]⟩, ⟨"task".toList, []⟩, ⟨"past".toList, [("status", .str "closed")]⟩]
  comments := []
  relations := [⟨"task".toList, "epic".toList, "parent-child", []⟩, ⟨"past".toList, "epic".toList, "parent-child", []⟩,
    ⟨"epic".toList, "past".toList, "blocks", []⟩]

end Example

theorem selection_ends_below :
    ∃ x, indexBacklog (some (.int 2)) Example.nested = .ok x ∧ Descends x ⟨"epic".toList, []⟩ (descend x 3 ⟨"epic".toList, []⟩) ∧
      isDone x "past".toList = true := by
  have hok : (indexBacklog (some (.int 2)) Example.nested).toOption.isSome = true := by decide +kernel
  cases hx : indexBacklog (some (.int 2)) Example.nested with
  | error e =>
    rw [hx] at hok
    cases hok
  | ok x =>
    have hselect : selectTicket (some (.int 2)) Example.nested "epic".toList =
        .ok (some (⟨"task".toList, []⟩, [⟨"epic".toList, [("issue_type", .str "epic")]⟩])) := by decide +kernel
    obtain ⟨-, -, -, hloop, hselected⟩ := selection_ends hx
    have hedge : Edge (parents Example.nested) "task".toList "epic".toList := by
      unfold Edge
      decide +kernel
    have hblocks : ("epic".toList, "past".toList) ∈ Example.nested.edges ["blocks"] := by decide +kernel
    exact ⟨x, rfl, hloop _, (hselected _ _ _ hselect).2.2.2.2 _ _ (.single hedge) hblocks⟩

end Backlog

end Arhugula
