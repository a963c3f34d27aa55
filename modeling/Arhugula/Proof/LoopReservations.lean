import Arhugula.Sequence.Traverse
import Arhugula.Proof.LoopOperations
import Arhugula.Proof.OwnershipSafety

/-!
# The reservations of the loop stay compatible

`Ownership.conflicts` compares a candidate with what is active. Every relation it checks is symmetric or is checked
in both directions, so that a list that grows by it stays pairwise `Compatible`, whatever is released in between.
-/

namespace Arhugula

namespace Ownership

/-- The reviewer of one writer is not the author of the other. -/
def Independent (a b : Reservation) : Prop := ∀ x ∈ a.authors, ∀ y ∈ b.authors, x.2 ≠ y.1

/-- **Two reservations may be active together.** -/
structure Compatible (a b : Reservation) : Prop where
  key : a.key ≠ b.key
  worktrees : Disjoint a.worktrees b.worktrees
  writes : ∀ path, ¬ (covers a.writes path = true ∧ covers b.writes path = true)
  resources : Disjoint a.resources b.resources
  reviewer : Independent a b
  author : Independent b a

variable {a b candidate : Reservation} {active : List Reservation} {path : Strings.Text} {left right : Finset Strings.Text}

theorem Compatible.symm (h : Compatible a b) : Compatible b a where
  key := h.key.symm
  worktrees := h.worktrees.symm
  writes path hp := h.writes path hp.symm
  resources := h.resources.symm
  reviewer := h.author
  author := h.reviewer

theorem conflicts_reason (h : conflicts active candidate = []) (reason : Reason) :
    active.any (clashes · candidate reason) = false ∧ authored active candidate reason = false := by
  have hmem : reason ∈ Reason.all := by cases reason <;> decide
  have hnot := List.filter_eq_nil_iff.1 h reason hmem
  rwa [Bool.not_eq_true, Bool.or_eq_false_iff] at hnot

theorem disjoint_of_not_nonempty {s t : Finset Strings.Text} (h : ¬ (s ∩ t).Nonempty) : Disjoint s t := by
  rw [Finset.disjoint_iff_inter_eq_empty]
  exact Finset.not_nonempty_iff_eq_empty.1 h

/-- **What `conflicts` checks**: a candidate without reasons may be active beside each of the others. -/
theorem conflicts_eq_nil (h : conflicts active candidate = []) :
    (∀ a ∈ active, Compatible a candidate) ∧ Independent candidate candidate := by
  have hclash : ∀ reason, ∀ a ∈ active, clashes a candidate reason = false := by
    intro reason a ha
    have hany := (conflicts_reason h reason).1
    rw [List.any_eq_false] at hany
    exact eq_false_of_ne_true (hany a ha)
  have hself := (conflicts_reason h .reviewerNotIndependent).2
  have hreviewer := (conflicts_reason h .reviewerIsActiveAuthor).2
  have hauthor := (conflicts_reason h .authorReservedAsReviewer).2
  simp only [authored, Option.any_eq_false, List.any_eq_false, Bool.not_eq_true] at hself hreviewer hauthor
  refine ⟨fun a ha => ?_, ?_⟩
  · have hkey := hclash .duplicateReservation a ha
    have hworktrees := hclash .worktreeConflict a ha
    have hwrites := hclash .pathConflict a ha
    have hresources := hclash .resourceConflict a ha
    simp only [clashes, decide_eq_false_iff_not] at hkey hworktrees hwrites hresources
    refine ⟨hkey, disjoint_of_not_nonempty hworktrees, fun path => overlap_eq_false hwrites,
      disjoint_of_not_nonempty hresources, fun x hx y hy => ?_, fun x hx y hy => ?_⟩
    · -- the reviewer was reserved before the author
      have hne := hauthor y hy a ha x hx
      simpa using hne
    · have hne := hreviewer x hx a ha y hy
      intro heq
      simp [heq] at hne
  · intro x hx y hy
    obtain rfl := Option.mem_unique hx hy
    simpa using hself x hx

end Ownership

namespace Loop

open Reentrant Durable Strings Ownership Lit

variable {H : Type} {h : Host H} {J J' : Journal H} {t : List (LEntry H)} {meth : Method H} {s s' : JSlot H}
  {records records' : List Json} {active : List Reservation}

/-- What a list of records parses to. -/
abbrev Parses (h : Host H) (records : List Json) (active : List Reservation) : Prop :=
  records.mapM (parseReservation h) = .ok active

/-- **The records are reservations that may be active together.** -/
def Apart (h : Host H) (records : List Json) : Prop :=
  ∃ active, Parses h records active ∧ active.Pairwise Compatible ∧ ∀ a ∈ active, Independent a a

theorem parses_cons {r : Json} (hp : Parses h (r :: records) active) :
    ∃ a rest, parseReservation h r = .ok a ∧ Parses h records rest ∧ active = a :: rest := by
  have hall := Sequence.mapM_ok_iff.1 hp
  cases hall with
  | cons ha hrest => exact ⟨_, _, ha, Sequence.mapM_ok_iff.2 hrest, rfl⟩

theorem parses_cons_of {r : Json} {a : Reservation} (ha : parseReservation h r = .ok a) (hp : Parses h records active) :
    Parses h (r :: records) (a :: active) :=
  Sequence.mapM_ok_iff.2 (.cons ha (Sequence.mapM_ok_iff.1 hp))

theorem parses_length (active : List Reservation) (hp : Parses h records active) : active.length = records.length :=
  (Sequence.mapM_ok_iff.1 hp).length_eq.symm

/-- Fewer records parse to fewer reservations. -/
theorem parses_sublist (hsub : records'.Sublist records) :
    ∀ active, Parses h records active → ∃ active', Parses h records' active' ∧ active'.Sublist active := by
  induction hsub with
  | slnil => exact fun active hp => ⟨active, hp, .refl active⟩
  | cons r hsub ih =>
    intro active hp
    obtain ⟨a, rest, -, hrest, rfl⟩ := parses_cons hp
    obtain ⟨active', hp', hsub'⟩ := ih rest hrest
    exact ⟨active', hp', hsub'.cons a⟩
  | cons_cons r hsub ih =>
    intro active hp
    obtain ⟨a, rest, ha, hrest, rfl⟩ := parses_cons hp
    obtain ⟨active', hp', hsub'⟩ := ih rest hrest
    exact ⟨a :: active', parses_cons_of ha hp', hsub'.cons_cons a⟩

theorem parses_append {r : Json} {a : Reservation} (ha : parseReservation h r = .ok a) (active : List Reservation)
    (hp : Parses h records active) : Parses h (records ++ [r]) (active ++ [a]) :=
  Sequence.mapM_ok_iff.2 (List.rel_append (Sequence.mapM_ok_iff.1 hp) (.cons ha .nil))

/-- **Records that are released leave the rest apart.** -/
theorem Apart.sublist (hsub : records'.Sublist records) (ha : Apart h records) : Apart h records' := by
  obtain ⟨active, hp, hpair, hself⟩ := ha
  obtain ⟨active', hp', hsub'⟩ := parses_sublist hsub active hp
  exact ⟨active', hp', hpair.sublist hsub', fun a hm => hself a (hsub'.subset hm)⟩

/-- **A record that conflicts with none joins them.** -/
theorem Apart.append {record : Json} {candidate : Reservation} (hparse : parseReservation h record = .ok candidate)
    (hactive : Parses h records active) (hfree : conflicts active candidate = []) (ha : Apart h records) :
    Apart h (records ++ [record]) := by
  obtain ⟨active', hp, hpair, hself⟩ := ha
  obtain rfl : active = active' := Except.ok.inj (hactive.symm.trans hp)
  obtain ⟨hcompatible, hindependent⟩ := conflicts_eq_nil hfree
  refine ⟨active ++ [candidate], parses_append hparse active hactive, ?_, ?_⟩
  · rw [List.pairwise_append]
    refine ⟨hpair, List.pairwise_singleton _ _, fun a hm b hb => ?_⟩
    rw [List.mem_singleton.1 hb]
    exact hcompatible a hm
  · intro a hm
    rcases List.mem_append.1 hm with hm | hm
    · exact hself a hm
    · rw [List.mem_singleton.1 hm]
      exact hindependent

/-- **Every change of the journal keeps the reservations apart.** -/
theorem saves_apart (hs : Saves h t meth J J') (ha : Apart h J.active) : Apart h J'.active := by
  cases hs with
  | reserved candidate active hparse hactive hfree => exact Apart.append hparse hactive hfree ha
  | released => exact ha.sublist List.filter_sublist
  | completed record hnew => exact ha.sublist List.filter_sublist
  | intended session hreset hpending =>
    have hkeeps := (intended_keeps (J := J) session).2.1
    unfold Journal.active at ha ⊢
    rwa [hkeeps]
  | booted session last reset frontier hreset hpending hpackage =>
    unfold booted
    split <;> exact ha
  | recovered hfailed =>
    rw [hfailed] at ha
    exact ha
  | _ => exact ha

/-- What the path shows is apart. -/
def IsApart (h : Host H) (s : JSlot H) : Prop := ∀ J, Opens s J → Apart h J.active

theorem step_apart (hstep : Step h t s s') (ha : IsApart h s) : IsApart h s' :=
  step_keeps (fun _ _ _ _ _ => ⟨[], rfl, .nil, by simp⟩) (fun _ hk => hk)
    (fun _ _ _ _ _ hsaves hj => saves_apart hsaves hj) hstep ha

variable [DecidableEq H] {sha256 : Text → Text}

/-- **The active reservations are compatible.** From a journal without reservations, in every reachable configuration
the records of the journal are reservations, any two of them have different keys, disjoint checkouts, paths and
resources, no reviewer of one is the author of the other, and no author reviews its own work. -/
theorem reservations_compatible {journal : JSlot H} {control : Slot (Written Control)} {c : LConfig H}
    (hnone : ∀ J, Opens journal J → J.active = []) (hc : (loop h sha256).Reachable (shelf journal control) c)
    (hJ : Opens c.w.st.journal J) :
    ∃ active, reservations h J = .ok active ∧ active.Pairwise Compatible ∧ ∀ a ∈ active, Independent a a := by
  have hinv := loop_kept.sound hc
  have hstart : IsApart h journal := by
    intro K hK
    rw [hnone K hK]
    exact ⟨[], rfl, .nil, by simp⟩
  have hall := hinv.all hstart fun t j j' ha hstep => step_apart hstep ha
  exact hall.2 J hJ

namespace Example

/-- A host on which a path is resolved. -/
def host : Host Hashed where
  digest := id
  resolve := id
  control file := ⟨[], file.spelling, 0⟩
  journal file := ⟨[], file.spelling, 0⟩
  moment _ := none

/-- A writer, as the record of it. -/
def writer (key owner reviewer worktree path : String) : Json :=
  .obj [("kind", .str "writer"), ("key", .str key), ("owner", .str owner), ("reviewer", .str reviewer),
    ("worktree", .str worktree), ("paths", .arr [.str path]), ("resources", .arr [])]

/-- The journal of a new loop. -/
def begun : Journal Hashed := initial "s".toList "m".toList "e".toList ⟨[], [], 0⟩ "G".toList

end Example

/-- The journal holds two reservations. -/
def holdsTwo (c : LConfig Hashed) : Bool :=
  match c.w.st.journal with
  | .holding f => f.value.opened.any fun J => decide (J.active.length = 2)
  | _ => false

/-- Two writers join, and both stay. -/
theorem reservations_compatible_two :
    ∃ (c : LConfig Hashed) (J : Journal Hashed) (active : List Reservation),
      (loop Example.host id).Reachable (shelf (.holding (published Example.begun)) .absent) c ∧
        Opens c.w.st.journal J ∧ reservations Example.host J = .ok active ∧ active.length = 2 ∧
          active.Pairwise Compatible ∧ ∀ a ∈ active, Independent a a := by
  obtain ⟨c, hc, ht⟩ := Machine.Reachable.of_run (loop Example.host id)
    (shelf (.holding (published Example.begun)) .absent)
    [.invoke (.reserve (Example.writer "A" "ann" "ray" "/a" "src/")), .reply .done, .reply .done, .reply .done, .reply .done,
      .invoke (.reserve (Example.writer "B" "bob" "ray" "/b" "doc/x")), .reply .done, .reply .done, .reply .done, .reply .done]
    holdsTwo (by decide +kernel)
  unfold holdsTwo at ht
  cases hj : c.w.st.journal with
  | holding f =>
    rw [hj] at ht
    obtain ⟨J, hJ, hlength⟩ := (Option.any_eq_true _ _).1 ht
    have hopens : Opens c.w.st.journal J := ⟨f, hj, hJ⟩
    have hnone : ∀ K, Opens (.holding (published Example.begun)) K → K.active = [] := by
      rintro K ⟨g, hg, hK⟩
      cases hg
      rw [opened_keeps hK]
      rfl
    obtain ⟨active, hactive, hrest⟩ := reservations_compatible hnone hc hopens
    have hcount : active.length = J.active.length := parses_length active hactive
    exact ⟨c, J, active, hc, hopens, hactive, hcount.trans (of_decide_eq_true hlength), hrest⟩
  | _ =>
    rw [hj] at ht
    cases ht

end Loop

end Arhugula
