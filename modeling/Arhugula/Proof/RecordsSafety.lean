import Arhugula.Durable.Slot
import Arhugula.Proof.RecordsState

/-!
# Saves that fail, and saves that are cut off

`holds_atomicJson`: whatever its system calls do, `atomic_json` leaves the old record, the complete new one,
or none with a residue. `record_atomic`: so does every run, also where the power is lost, and a residue
refuses every later call until it is removed.
-/

namespace Arhugula

namespace Records

open Reentrant Durable

variable {V : Type} {s₀ k d : Store V} {D E : Directory Name} {v : V} {w w' : RWorld V}
  {log base : List (REntry V)} {e : REntry V} {i : ℕ} {ctx : List (ℕ × Op)} {op : Op} {a : Answer}
  {m : Method V} {f : List (File V)} {shapes : List (Directory Name)}

/-! ## Calls under way -/

/-- **What is known between the system calls of a call.** -/
structure Mid (s₀ : Store V) (i : ℕ) (m : Method V) (k : Store V) (base : List (REntry V)) (w : RWorld V) : Prop
    extends RInv s₀ w where
  under : Under i m k base w.log

/-- A system call that no part of the invariant reads. -/
theorem holds_silent (h : Mid s₀ i m k base w) (hop : op ≠ .quarantineSync) :
    Holds (recordsContract s₀) ctx i (call op) (fun r w' => ∃ a, r = a.result ∧ Mid s₀ i m k base w' ∧ Steady w w' ∧
      ∃ l, w'.log = ⟨i, .reply op a, w'.st⟩ :: l) w := by
  have hcall : Silent (.call op : Act Op Answer Exc (Method V) (Value V)) := trivial
  have hreply : ∀ a, Silent (.reply op a : Act Op Answer Exc (Method V) (Value V)) := by
    intro a
    cases op with
    | quarantineSync => exact absurd rfl hop
    | _ => trivial
  refine holds_call (h.toRInv.push hcall (owes_call op w.st)) fun w' hi hg hs a => ⟨a, rfl, ⟨?_, ?_⟩, ?_, _, rfl⟩
  · exact hi.push (hreply a) (owes_reply op a w'.st)
  · exact ((h.under.push fun x hx => (by cases hx)).grows hg).push fun x hx => (by cases hx)
  · exact ((Steady.push hcall).trans hs).trans (Steady.push (hreply a))

theorem result_value (a : Answer) : a.result ≠ .error .value := by
  cases a <;> simp [Answer.result]

/-- **`refuse_uncertain`.** -/
theorem holds_refuseUncertain (h : Mid s₀ i m k base w) :
    Holds (recordsContract s₀) ctx i refuseUncertain (fun r w' => Mid s₀ i m k base w' ∧ Steady w w' ∧
      r ≠ .error .value ∧ (r = .ok () → w.st.now .uncertain = none)) w := by
  unfold refuseUncertain
  rw [holds_bind]
  refine (holds_silent h (by simp)).mono fun r w' ⟨a, ha, hmid, hsteady, _⟩ => ?_
  cases r with
  | error x => exact ⟨hmid, hsteady, ha ▸ result_value a, fun hr => (by cases hr)⟩
  | ok _ =>
    dsimp only
    rw [holds_bind, holds_read]
    dsimp only
    rw [hsteady.now]
    split
    · exact ⟨hmid, hsteady, by simp, fun hr => (by cases hr)⟩
    · rename_i hnone
      exact ⟨hmid, hsteady, by simp, fun _ => by simpa using hnone⟩

/-- A residue that is known to be on the disk is seen. -/
theorem RInv.seen (h : RInv s₀ w) (hn : w.st.now .uncertain = none) : quarantined w.log = false := by
  by_contra hq
  have hsome := h.residue (by simpa using hq) w.st.now Disk.now_mem
  rw [hn] at hsome
  cases hsome

/-- **`read_json`.** It reads no partial record, and refuses a residue. -/
theorem holds_readJson (h : Mid s₀ i m k base w) :
    Holds (recordsContract s₀) ctx i readJson (fun r w' => Mid s₀ i m k base w' ∧ Steady w w' ∧
      r ≠ .error .value ∧ (∀ v, r = .ok v → quarantined w.log = false)) w := by
  unfold readJson
  rw [holds_bind]
  refine (holds_silent h (by simp)).mono fun r w₁ ⟨a, ha, h₁, hs₁, _⟩ => ?_
  cases r with
  | error x =>
    refine ⟨h₁, hs₁, fun hr => result_value a ?_, fun v hr => (by cases hr)⟩
    rw [← ha]
    cases hr
    rfl
  | ok _ =>
    dsimp only
    rw [holds_bind]
    refine (holds_refuseUncertain h₁).mono fun r w₂ ⟨h₂, hs₂, hv₂, hnone⟩ => ?_
    cases r with
    | error x =>
      refine ⟨h₂, hs₁.trans hs₂, fun hr => hv₂ ?_, fun v hr => (by cases hr)⟩
      cases hr
      rfl
    | ok _ =>
      have hclear : quarantined w.log = false := by
        rw [← hs₁.quarantined]
        exact h₁.toRInv.seen (hnone rfl)
      dsimp only
      rw [holds_bind]
      refine (holds_silent h₂ (by simp)).mono fun r w₃ ⟨a₃, ha₃, h₃, hs₃, _⟩ => ?_
      have hsteady := (hs₁.trans hs₂).trans hs₃
      cases r with
      | error x =>
        refine ⟨h₃, hsteady, fun hr => result_value a₃ ?_, fun v hr => (by cases hr)⟩
        rw [← ha₃]
        cases hr
        rfl
      | ok _ =>
        dsimp only
        rw [holds_bind, holds_read]
        dsimp only
        -- what the path names is complete
        rcases h₃.solid w₃.st.now Disk.now_mem .path (by simp) with hn | ⟨v, hf⟩
        · have htext : w₃.st.text w₃.st.now .path = none := by
            unfold Disk.text Disk.file
            rw [hn]
            rfl
          rw [htext]
          exact ⟨h₃, hsteady, by simp, fun v hr => (by cases hr)⟩
        · have htext : w₃.st.text w₃.st.now .path = some (.whole v) := by
            unfold Disk.text
            rw [hf]
            rfl
          rw [htext]
          exact ⟨h₃, hsteady, by simp, fun _ _ => hclear⟩

/-! ## The stages of a save -/

/-- The directory with the temporary file. -/
def linked (k : Store V) : Directory Name := Function.update k.now .temporary (some k.files.length)

/-- The directory without it. -/
def cleared (k : Store V) : Directory Name := Function.update (linked k) .temporary none

/-- The directory with the new record. -/
def placed (k : Store V) : Directory Name :=
  Function.update (Function.update (linked k) .path (linked k .temporary)) .temporary none

/-- The directory with the new record in the residue. -/
def moved (k : Store V) : Directory Name :=
  Function.update (Function.update (placed k) .uncertain (placed k .path)) .path none

/-- **A stage of a save** that was begun on the disk `k`. -/
structure Staged (k : Store V) (f : List (File V)) (D : Directory Name) (shapes : List (Directory Name))
    (d : Store V) : Prop where
  files : d.files = k.files ++ f
  now : d.now = D
  directories : ∀ E ∈ d.directories, E ∈ k.directories ∨ E ∈ shapes

theorem Staged.steady (h : Staged k f D shapes w.st) (hs : Steady w w') : Staged k f D shapes w'.st :=
  ⟨hs.files.trans h.files, hs.now.trans h.now, fun E hE => h.directories E (hs.directories E hE)⟩

/-- The files that were there are still the same. -/
theorem old_file (hd : d.files = k.files ++ f) {n : Name} {x : File V} (h : k.file D n = some x) :
    d.file D n = some x := by
  unfold Disk.file at h ⊢
  obtain ⟨j, hj, hx⟩ := Option.bind_eq_some_iff.1 h
  rw [hj, hd]
  show (k.files ++ f)[j]? = some x
  rw [List.getElem?_append_left (List.getElem?_eq_some_iff.1 hx).1]
  exact hx

/-- What names the files that were there is as it was. -/
theorem old_alike (hk : Solid k D) (hd : d.files = k.files ++ f) (hpath : E .path = D .path)
    (huncertain : E .uncertain = D .uncertain) : Solid d E ∧ Alike d E k D := by
  have hfile : ∀ n, E n = D n → (D n = none ∨ ∃ v, k.file D n = some ⟨.whole v, true⟩) →
      (E n = none ∨ ∃ v, d.file E n = some ⟨.whole v, true⟩) ∧ d.text E n = k.text D n := by
    intro n hn hk
    have hsame : d.file E n = d.file D n := by
      unfold Disk.file
      rw [hn]
    rcases hk with hnone | ⟨v, hv⟩
    · refine ⟨.inl (hn.trans hnone), ?_⟩
      unfold Disk.text
      rw [hsame]
      unfold Disk.file
      rw [hnone]
      rfl
    · have hold := old_file hd hv
      refine ⟨.inr ⟨v, hsame.trans hold⟩, ?_⟩
      unfold Disk.text
      rw [hsame, hold, hv]
  have hp := hfile .path hpath (hk .path (by simp))
  have hu := hfile .uncertain huncertain (hk .uncertain (by simp))
  refine ⟨fun n hn => ?_, hp.2, hu.2⟩
  cases n with
  | path => exact hp.1
  | uncertain => exact hu.1
  | temporary => exact absurd rfl hn

/-- A directory that a save may leave. -/
def Fit (k : Store V) (v : V) (d : Store V) (E : Directory Name) : Prop := Solid d E ∧ Outcome false k v d E

/-- The old record. -/
theorem fit_old (hk : Solid k k.now) (hd : d.files = k.files ++ f) (hpath : E .path = k.now .path)
    (huncertain : E .uncertain = k.now .uncertain) : Fit k v d E := by
  obtain ⟨hsolid, halike⟩ := old_alike hk hd hpath huncertain
  exact ⟨hsolid, .inl ⟨k.now, List.mem_singleton_self _, halike⟩⟩

/-- The new file. -/
theorem new_file (hd : d.files = k.files ++ [⟨.whole v, true⟩]) {n : Name} (hn : E n = some k.files.length) :
    d.file E n = some ⟨.whole v, true⟩ := by
  unfold Disk.file
  rw [hn, hd]
  show (k.files ++ [⟨.whole v, true⟩])[k.files.length]? = _
  rw [List.getElem?_append_right le_rfl, Nat.sub_self]
  rfl

theorem text_none {n : Name} (hn : E n = none) : d.text E n = none := by
  unfold Disk.text Disk.file
  rw [hn]
  rfl

/-- The new record. -/
theorem fit_placed (hk : k.now .uncertain = none) (hd : d.files = k.files ++ [⟨.whole v, true⟩]) :
    Fit k v d (placed k) := by
  have hpath : d.file (placed k) .path = some ⟨.whole v, true⟩ := new_file hd rfl
  have huncertain : placed k .uncertain = none := hk
  refine ⟨fun n hn => ?_, .inr (.inl ⟨?_, text_none huncertain⟩)⟩
  · cases n with
    | path => exact .inr ⟨v, hpath⟩
    | uncertain => exact .inl huncertain
    | temporary => exact absurd rfl hn
  · unfold Disk.text
    rw [hpath]
    rfl

/-- The residue. -/
theorem fit_moved (hd : d.files = k.files ++ [⟨.whole v, true⟩]) : Fit k v d (moved k) := by
  have huncertain : d.file (moved k) .uncertain = some ⟨.whole v, true⟩ := new_file hd rfl
  have hpath : moved k .path = none := rfl
  refine ⟨fun n hn => ?_, .inr (.inr ⟨text_none hpath, ?_⟩)⟩
  · cases n with
    | path => exact .inl hpath
    | uncertain => exact .inr ⟨v, huncertain⟩
    | temporary => exact absurd rfl hn
  · unfold Disk.text
    rw [huncertain]
    rfl

/-- **What is known in a save**, past the look at the residue. -/
structure Saving (s₀ : Store V) (i : ℕ) (v : V) (k : Store V) (base : List (REntry V)) (f : List (File V))
    (D : Directory Name) (shapes : List (Directory Name)) (w : RWorld V) : Prop extends
    Mid s₀ i (.save v) k base w where
  staged : Staged k f D shapes w.st
  mark : mark w.log = some (.save v, k)
  unlost : crashed w.log = false
  clear : quarantined w.log = false
  renamed : (D .path = k.now .path ∧ D .uncertain = k.now .uncertain) ∨ Renamed i w.log

/-- What was known of the disk that the save was begun on. -/
structure Base (k : Store V) (base : List (REntry V)) : Prop where
  solid : ∀ D ∈ k.directories, Solid k D
  uncertain : k.now .uncertain = none
  clear : quarantined base = false

/-- A system call in a save. -/
theorem Saving.call {Q : Except Exc Unit → RWorld V → Prop} (h : Saving s₀ i v k base f D shapes w)
    (hop : op ≠ .quarantineSync)
    (hq : ∀ (a : Answer) w', Saving s₀ i v k base f D shapes w' → (op = .replace ∧ a = .ok ∨ Renamed i w.log → Renamed i w'.log) →
      Q a.result w') :
    Holds (recordsContract s₀) ctx i (call op) Q w := by
  refine ((holds_silent h.toMid hop).extends).mono fun r w' ⟨⟨a, ha, hmid, hsteady, l', hlog⟩, _, l, hl, _⟩ => ?_
  have hgrow : Renamed i w.log → Renamed i w'.log := by
    intro hr
    rw [hl]
    exact hr.grow
  rw [ha]
  refine hq a w' ⟨hmid, h.staged.steady hsteady, hsteady.mark.trans h.mark, hsteady.crashed.trans h.unlost,
    hsteady.quarantined.trans h.clear, h.renamed.imp_right hgrow⟩ ?_
  rintro (⟨rfl, rfl⟩ | hr)
  · exact ⟨_, by rw [hlog]; exact List.mem_cons_self, rfl, rfl⟩
  · exact hgrow hr

/-- A write in a save. -/
theorem Saving.put {f' : List (File V)} {D' : Directory Name} {shapes' : List (Directory Name)} {d' : Store V}
    (h : Saving s₀ i v k base f D shapes w) (hb : Base k base) (hs : Staged k f' D' shapes' d')
    (hfit : ∀ E ∈ shapes', Fit k v d' E) (hnow : D' = k.now ∨ D' ∈ shapes')
    (hr : (D' .path = k.now .path ∧ D' .uncertain = k.now .uncertain) ∨ Renamed i w.log) :
    Saving s₀ i v k base f' D' shapes' (w.put d') := by
  have hold : ∀ E ∈ k.directories, Solid d' E ∧ Alike d' E k E :=
    fun E hE => old_alike (hb.solid E hE) hs.files rfl rfl
  have hstands : ∀ {lost E}, Outcome lost k v d' E → Stands s₀ lost w.log d' E := by
    intro lost E ho
    unfold Stands
    rw [h.mark]
    exact ho
  refine ⟨⟨⟨h.owes, fun E hE => ?_, fun E hE => ?_, fun _ => ?_, fun hq => ?_⟩, h.under⟩, hs, h.mark, h.unlost, h.clear, hr⟩
  · rcases hs.directories E hE with hE | hE
    · exact (hold E hE).1
    · exact (hfit E hE).1
  · refine hstands ?_
    rcases hs.directories E hE with hE | hE
    · exact .inl ⟨E, hE, (hold E hE).2⟩
    · exact (hfit E hE).2.lose
  · refine hstands ?_
    show Outcome false k v d' d'.now
    rw [hs.now]
    rcases hnow with rfl | hmem
    · exact .inl ⟨k.now, List.mem_singleton_self _, (hold k.now Disk.now_mem).2⟩
    · exact (hfit D' hmem).2
  · rw [show quarantined (w.put d').log = false from h.clear] at hq
    cases hq

/-- **How a save ends.** -/
structure Saved (s₀ : Store V) (i : ℕ) (v : V) (k : Store V) (base : List (REntry V)) (r : Except Exc Unit)
    (w : RWorld V) : Prop extends Mid s₀ i (.save v) k base w where
  value : r ≠ .error .value
  clear : r = .ok () → quarantined base = false
  done : r = .ok () → w.st.text w.st.now .path = some (.whole v) ∧ w.st.text w.st.now .uncertain = none
  kept : Alike w.st w.st.now k k.now ∨ Renamed i w.log ∧ quarantined base = false
  outcome : Outcome false k v w.st w.st.now

theorem RInv.outcome (h : RInv s₀ w) (hm : mark w.log = some (.save v, k)) (hc : crashed w.log = false) :
    Outcome false k v w.st w.st.now := by
  have hvisible := h.visible hc
  unfold Stands at hvisible
  rw [hm] at hvisible
  exact hvisible

theorem Saving.saved {r : Except Exc Unit} (h : Saving s₀ i v k base f D shapes w) (hb : Base k base)
    (hr : r ≠ .error .value)
    (hd : r = .ok () → w.st.text w.st.now .path = some (.whole v) ∧ w.st.text w.st.now .uncertain = none) :
    Saved s₀ i v k base r w := by
  refine ⟨h.toMid, hr, fun _ => hb.clear, hd, h.renamed.imp (fun ⟨hp, hu⟩ => ?_) fun hren => ⟨hren, hb.clear⟩,
    h.toRInv.outcome h.mark h.unlost⟩
  rw [h.staged.now]
  exact (old_alike (hb.solid k.now Disk.now_mem) h.staged.files hp hu).2

/-! ## The parts of `atomic_json` -/

/-- The shapes that a directory may have before the rename. -/
theorem fit_linked (hb : Base k base) (hd : d.files = k.files ++ f) : ∀ E ∈ [linked k, cleared k], Fit k v d E := by
  intro E hE
  have hsolid := hb.solid k.now Disk.now_mem
  rcases List.mem_cons.1 hE with rfl | hE
  · exact fit_old hsolid hd rfl rfl
  · rw [List.mem_singleton.1 hE]
    exact fit_old hsolid hd rfl rfl

/-- **The temporary file is written.** -/
theorem holds_fill {Q : Except Exc Unit → RWorld V → Prop} {x : File V}
    (h : Saving s₀ i v k base [x] (linked k) [linked k, cleared k] w) (hb : Base k base)
    (herr : ∀ r w', r ≠ .error .value → (∃ y, Saving s₀ i v k base [y] (linked k) [linked k, cleared k] w') →
      (∀ u, r ≠ .ok u) → Q r w')
    (hok : ∀ w', Saving s₀ i v k base [⟨.whole v, true⟩] (linked k) [linked k, cleared k] w' → Q (.ok ()) w') :
    Holds (recordsContract s₀) ctx i (fill v) Q w := by
  -- a change of the temporary file, which is the last one
  have hmodify : ∀ {w : RWorld V} {x : File V} (g : File V → File V),
      Saving s₀ i v k base [x] (linked k) [linked k, cleared k] w →
      Saving s₀ i v k base [g x] (linked k) [linked k, cleared k] (w.put (w.st.modify .temporary g)) := by
    intro w x g h
    have hfiles : (w.st.modify .temporary g).files = k.files ++ [g x] := by
      unfold Disk.modify
      rw [h.staged.now]
      show w.st.files.modify k.files.length g = k.files ++ [g x]
      rw [h.staged.files]
      exact Disk.modify_last k.files x g
    refine h.put hb ⟨hfiles, ?_, fun E hE => ?_⟩ (fit_linked hb hfiles) (.inr List.mem_cons_self) (.inl ⟨rfl, rfl⟩)
    · rw [Disk.modify_now]
      exact h.staged.now
    · rw [Disk.modify_directories] at hE
      exact h.staged.directories E hE
  unfold fill
  rw [holds_bind]
  refine h.call (by simp) fun a w₁ h₁ _ => ?_
  cases a with
  | ok =>
    dsimp only [Answer.result]
    rw [holds_bind, holds_write]
    dsimp only
    have h₂ := hmodify (fun f => { f with content := .whole v }) h₁
    rw [holds_bind]
    refine h₂.call (by simp) fun a w₃ h₃ _ => ?_
    cases a with
    | ok =>
      dsimp only [Answer.result]
      rw [holds_bind, holds_write]
      dsimp only
      have h₄ := hmodify (fun f => { f with synced := true }) h₃
      refine h₄.call (by simp) fun a w₅ h₅ _ => ?_
      cases a with
      | ok => exact hok w₅ h₅
      | _ => exact herr _ w₅ (by simp [Answer.result]) ⟨_, h₅⟩ (by simp [Answer.result])
    | _ => exact herr _ w₃ (by simp) ⟨_, h₃⟩ (by simp)
  | _ => exact herr _ w₁ (by simp) ⟨_, h₁⟩ (by simp)

/-- **A replacement that is not known to be on the disk** is moved to the residue. -/
theorem holds_quarantine (h : Saving s₀ i v k base [⟨.whole v, true⟩] (placed k) [linked k, cleared k, placed k] w)
    (hb : Base k base) (hren : Renamed i w.log) {x : Exc} (hx : x ≠ .value) :
    Holds (recordsContract s₀) ctx i (do
      quarantine
      throw x) (fun r w' => Saved s₀ i v k base r w' ∧ w'.st.now .temporary = none) w := by
  have hfits : ∀ {d : Store V}, d.files = k.files ++ [⟨.whole v, true⟩] →
      ∀ E ∈ [linked k, cleared k, placed k, moved k], Fit k v d E := by
    intro d hd E hE
    simp only [List.mem_cons, List.not_mem_nil, or_false] at hE
    rcases hE with rfl | rfl | rfl | rfl
    · exact fit_linked hb hd _ (by simp)
    · exact fit_linked hb hd _ (by simp)
    · exact fit_placed hb.uncertain hd
    · exact fit_moved hd
  unfold quarantine
  rw [holds_bind, holds_bind]
  refine h.call (by simp) fun a w₁ h₁ hren₁ => ?_
  have htemporary₁ : w₁.st.now .temporary = none := by
    rw [h₁.staged.now]
    rfl
  cases a with
  | ok =>
    dsimp only [Answer.result]
    rw [holds_bind, holds_write]
    dsimp only
    have h₂ : Saving s₀ i v k base [⟨.whole v, true⟩] (moved k) [linked k, cleared k, placed k, moved k]
        (w₁.put (w₁.st.rename .path .uncertain)) := by
      have hnow : (w₁.st.rename .path .uncertain).now = moved k := by
        show Function.update (Function.update w₁.st.now .uncertain (w₁.st.now .path)) .path none = moved k
        rw [h₁.staged.now]
        rfl
      refine h₁.put hb ⟨h₁.staged.files, hnow, fun E hE => ?_⟩ (hfits h₁.staged.files) (.inr (by simp))
        (.inr (hren₁ (.inr hren)))
      rcases Disk.mem_change hE with hE | hE
      · rcases h₁.staged.directories E hE with hE | hE
        · exact .inl hE
        · refine .inr ?_
          simp only [List.mem_cons, List.not_mem_nil, or_false] at hE ⊢
          tauto
      · rw [hE.trans hnow]
        simp
    rw [holds_bind]
    refine holds_call (h₂.toRInv.push trivial (owes_call _ _)) fun w₃ hi hg hs a => ?_
    have hcall : Silent (.call .quarantineSync : Act Op Answer Exc (Method V) (Value V)) := trivial
    have hsteady : Steady (w₁.put (w₁.st.rename .path .uncertain)) w₃ := (Steady.push hcall).trans hs
    have hstaged := h₂.staged.steady hsteady
    have hunder : Under i (.save v) k base (w₃.push i (.reply .quarantineSync a)).log :=
      ((h₂.under.push fun x hx => (by cases hx)).grows hg).push fun x hx => (by cases hx)
    have hren₃ : Renamed i w₃.log := by
      obtain ⟨-, l, hl, -⟩ := hg
      rw [hl]
      exact ((hren₁ (.inr hren)).grow (l := [_])).grow
    have htemporary₃ : w₃.st.now .temporary = none := by
      rw [hstaged.now]
      rfl
    cases a with
    | ok =>
      -- the residue is on the disk, and nothing else
      dsimp only [Answer.result]
      rw [holds_write]
      have honly : ∀ E ∈ w₃.st.sync.directories, E = moved k := by
        intro E hE
        rw [Disk.mem_sync hE]
        exact hstaged.now
      have hfit : Fit k v w₃.st.sync (moved k) :=
        hfits (d := w₃.st.sync) hstaged.files _ (by simp)
      have hstands : ∀ {lost}, Outcome lost k v w₃.st.sync (moved k) →
          Stands s₀ lost (⟨i, .reply .quarantineSync .ok, w₃.st⟩ :: w₃.log) w₃.st.sync (moved k) := by
        intro lost ho
        unfold Stands
        rw [show mark (⟨i, .reply .quarantineSync .ok, w₃.st⟩ :: w₃.log) = mark w₃.log from rfl, hsteady.mark, h₂.mark]
        exact ho
      refine ⟨⟨⟨⟨⟨owes_reply _ _ _, hi.owes⟩, fun E hE => ?_, fun E hE => ?_, fun _ => ?_, fun _ E hE => ?_⟩, hunder⟩,
        fun hr => hx (by cases hr; rfl), fun hr => (by cases hr), fun hr => (by cases hr), .inr ⟨hren₃.grow (l := [_]), hb.clear⟩, ?_⟩, htemporary₃⟩
      · rw [honly E hE]
        exact hfit.1
      · rw [honly E hE]
        exact hstands hfit.2.lose
      · show Stands s₀ false (⟨i, .reply .quarantineSync .ok, w₃.st⟩ :: w₃.log) w₃.st.sync w₃.st.now
        rw [hstaged.now]
        exact hstands hfit.2
      · rw [honly E hE]
        rfl
      · show Outcome false k v w₃.st.sync w₃.st.now
        rw [hstaged.now]
        exact hfit.2
    | _ =>
      exact ⟨⟨⟨hi.push trivial (owes_reply _ _ _), hunder⟩, by simp, fun hr => (by cases hr), fun hr => (by cases hr),
        .inr ⟨hren₃.grow (l := [_]), hb.clear⟩, hi.outcome (hsteady.mark.trans h₂.mark) (hsteady.crashed.trans h₂.unlost)⟩,
        htemporary₃⟩
  | _ => exact ⟨h₁.saved hb (by simp) (by simp), htemporary₁⟩

/-- **`atomic_json`, from the rename on.** -/
theorem holds_replace (h : Saving s₀ i v k base [⟨.whole v, true⟩] (linked k) [linked k, cleared k] w)
    (hb : Base k base) {Q : Except Exc Unit → RWorld V → Prop}
    (hq : ∀ r w', Saved s₀ i v k base r w' → w'.st.now .temporary = none → Q r w')
    (herr : ∀ r w', r ≠ .error .value → (∃ y, Saving s₀ i v k base [y] (linked k) [linked k, cleared k] w') →
      (∀ u, r ≠ .ok u) → Q r w') :
    Holds (recordsContract s₀) ctx i (do
      call .replace
      Prog.write fun d => d.rename .temporary .path
      call .replaced
      Prog.catching
        (do call .sync
            Prog.write Disk.sync)
        (fun error => do
          quarantine
          throw error)) Q w := by
  have hfits : ∀ {d : Store V}, d.files = k.files ++ [⟨.whole v, true⟩] →
      ∀ E ∈ [linked k, cleared k, placed k], Fit k v d E := by
    intro d hd E hE
    simp only [List.mem_cons, List.not_mem_nil, or_false] at hE
    rcases hE with rfl | rfl | rfl
    · exact fit_linked hb hd _ (by simp)
    · exact fit_linked hb hd _ (by simp)
    · exact fit_placed hb.uncertain hd
  rw [holds_bind]
  refine h.call (by simp) fun a w₁ h₁ hren₁ => ?_
  cases a with
  | ok =>
    dsimp only [Answer.result]
    rw [holds_bind, holds_write]
    dsimp only
    have hren := hren₁ (.inl ⟨rfl, rfl⟩)
    have h₂ : Saving s₀ i v k base [⟨.whole v, true⟩] (placed k) [linked k, cleared k, placed k]
        (w₁.put (w₁.st.rename .temporary .path)) := by
      have hnow : (w₁.st.rename .temporary .path).now = placed k := by
        show Function.update (Function.update w₁.st.now .path (w₁.st.now .temporary)) .temporary none = placed k
        rw [h₁.staged.now]
        rfl
      refine h₁.put hb ⟨h₁.staged.files, hnow, fun E hE => ?_⟩ (hfits h₁.staged.files) (.inr (by simp)) (.inr hren)
      rcases Disk.mem_change hE with hE | hE
      · rcases h₁.staged.directories E hE with hE | hE
        · exact .inl hE
        · refine .inr ?_
          simp only [List.mem_cons, List.not_mem_nil, or_false] at hE ⊢
          tauto
      · rw [hE.trans hnow]
        simp
    have hgone : ∀ {w : RWorld V}, Saving s₀ i v k base [⟨.whole v, true⟩] (placed k) [linked k, cleared k, placed k] w →
        w.st.now .temporary = none := by
      intro w h
      rw [h.staged.now]
      rfl
    rw [holds_bind]
    refine h₂.call (by simp) fun a w₃ h₃ hren₃ => ?_
    cases a with
    | ok =>
      dsimp only [Answer.result]
      rw [holds_catching, holds_bind]
      refine h₃.call (by simp) fun a w₄ h₄ hren₄ => ?_
      have hren' := hren₄ (.inr (hren₃ (.inr hren)))
      cases a with
      | ok =>
        dsimp only [Answer.result]
        rw [holds_write]
        have h₅ : Saving s₀ i v k base [⟨.whole v, true⟩] (placed k) [linked k, cleared k, placed k]
            (w₄.put w₄.st.sync) := by
          refine h₄.put hb ⟨h₄.staged.files, h₄.staged.now, fun E hE => .inr ?_⟩ (hfits h₄.staged.files)
            (.inr (by simp)) (.inr hren')
          rw [Disk.mem_sync hE, h₄.staged.now]
          simp
        refine hq _ _ (h₅.saved hb (by simp) fun _ => ?_) (hgone h₅)
        rw [h₅.staged.now]
        refine ⟨?_, text_none hb.uncertain⟩
        unfold Disk.text
        rw [new_file h₅.staged.files rfl]
        rfl
      | _ => exact (holds_quarantine h₄ hb hren' (by simp)).mono fun r w' h' => hq r w' h'.1 h'.2
    | _ => exact hq _ _ (h₃.saved hb (by simp) (by simp)) (hgone h₃)
  | _ => exact herr _ w₁ (by simp) ⟨_, h₁⟩ (by simp)

/-- **`atomic_json`.** -/
theorem holds_atomicJson (h : Mid s₀ i (.save v) k base w) (hk : w.st.now = k.now ∧ w.st.files = k.files ∧
    ∀ D ∈ w.st.directories, D ∈ k.directories) (hsolid : ∀ D ∈ k.directories, Solid k D)
    (hmark : mark w.log = some (.save v, k)) (hlost : crashed w.log = false)
    (hclear : quarantined w.log = quarantined base) :
    Holds (recordsContract s₀) ctx i (atomicJson v) (Saved s₀ i v k base) w := by
  -- before the temporary file is made, the disk is as it was
  have hearly : ∀ {w' : RWorld V} {r : Except Exc Unit}, Mid s₀ i (.save v) k base w' → Steady w w' →
      r ≠ .error .value → (∀ u, r ≠ .ok u) → Saved s₀ i v k base r w' := by
    intro w' r hmid hs hv hr
    have halike : Alike w'.st w'.st.now k k.now := by
      rw [hs.now, hk.1]
      exact ⟨text_congr (hs.files.trans hk.2.1) _, text_congr (hs.files.trans hk.2.1) _⟩
    exact ⟨hmid, hv, fun hok => absurd hok (hr ()), fun hok => absurd hok (hr ()), .inl halike,
      .inl ⟨k.now, List.mem_singleton_self _, halike⟩⟩
  unfold atomicJson
  rw [holds_bind]
  refine (holds_silent h (by simp)).mono fun r w₁ ⟨a, ha, h₁, hs₁, _⟩ => ?_
  cases r with
  | error x =>
    refine hearly h₁ hs₁ (fun hr => result_value a ?_) (by simp)
    rw [← ha]
    cases hr
    rfl
  | ok _ =>
    dsimp only
    rw [holds_bind]
    refine (holds_refuseUncertain h₁).mono fun r w₂ ⟨h₂, hs₂, hv₂, hnone⟩ => ?_
    have hs₁₂ := hs₁.trans hs₂
    cases r with
    | error x =>
      refine hearly h₂ hs₁₂ (fun hr => hv₂ ?_) (by simp)
      cases hr
      rfl
    | ok _ =>
      dsimp only
      rw [holds_bind]
      refine (holds_silent h₂ (by simp)).mono fun r w₃ ⟨a₃, ha₃, h₃, hs₃, _⟩ => ?_
      have hs := hs₁₂.trans hs₃
      cases r with
      | error x =>
        refine hearly h₃ hs (fun hr => result_value a₃ ?_) (by simp)
        rw [← ha₃]
        cases hr
        rfl
      | ok _ =>
        have huncertain : k.now .uncertain = none := by
          rw [← hk.1, ← hs₁.now]
          exact hnone rfl
        have hb : Base k base := by
          refine ⟨hsolid, huncertain, ?_⟩
          rw [← hclear, ← hs₁.quarantined]
          exact h₁.toRInv.seen (hnone rfl)
        have hfiles₃ : w₃.st.files = k.files := hs.files.trans hk.2.1
        have h₄ : Saving s₀ i v k base [] k.now [] w₃ :=
          ⟨h₃, ⟨by rw [hfiles₃, List.append_nil], hs.now.trans hk.1, fun E hE => .inl (hk.2.2 E (hs.directories E hE))⟩,
            hs.mark.trans hmark, hs.crashed.trans hlost, (hs.quarantined.trans hclear).trans hb.clear, .inl ⟨rfl, rfl⟩⟩
        have h₅ : Saving s₀ i v k base [⟨.torn, false⟩] (linked k) [linked k, cleared k]
            (w₃.put (w₃.st.create .temporary)) := by
          have hnow : (w₃.st.create .temporary).now = linked k := by
            show Function.update w₃.st.now .temporary (some w₃.st.files.length) = linked k
            rw [h₄.staged.now, hfiles₃]
            rfl
          have hfiles : (w₃.st.create .temporary).files = k.files ++ [⟨.torn, false⟩] := by
            show w₃.st.files ++ [⟨.torn, false⟩] = k.files ++ [⟨.torn, false⟩]
            rw [hfiles₃]
          refine h₄.put hb ⟨hfiles, hnow, fun E hE => ?_⟩ (fit_linked hb hfiles) (.inr (by simp)) (.inl ⟨rfl, rfl⟩)
          rcases Disk.mem_change hE with hE | hE
          · exact .inl (hk.2.2 E (hs.directories E hE))
          · rw [hE.trans hnow]
            simp
        dsimp only
        rw [holds_bind, holds_write]
        dsimp only
        rw [holds_lastly]
        -- the temporary file is removed, where it is still there
        have hfailed : ∀ (r : Except Exc Unit) w', r ≠ .error .value →
            (∃ y, Saving s₀ i v k base [y] (linked k) [linked k, cleared k] w') → (∀ u, r ≠ .ok u) →
            Holds (recordsContract s₀) ctx i discard (fun rc w'' => (∀ u, rc = .ok u → Saved s₀ i v k base r w'') ∧
              ∀ x, rc = .error x → Saved s₀ i v k base (.error x) w'') w' := by
          rintro r w' hv ⟨y, h'⟩ hr
          unfold discard
          rw [holds_bind, holds_read]
          dsimp only
          rw [h'.staged.now, if_pos (by rfl), holds_bind]
          refine h'.call (by simp) fun a w'' h'' _ => ?_
          cases a with
          | ok =>
            dsimp only [Answer.result]
            rw [holds_write]
            have hnow : (w''.st.unlink .temporary).now = cleared k := by
              show Function.update w''.st.now .temporary none = cleared k
              rw [h''.staged.now]
              rfl
            have hcleared : Saving s₀ i v k base [y] (cleared k) [linked k, cleared k]
                (w''.put (w''.st.unlink .temporary)) := by
              refine h''.put hb ⟨h''.staged.files, hnow, fun E hE => ?_⟩ (fit_linked hb h''.staged.files)
                (.inr (by simp)) (.inl ⟨rfl, rfl⟩)
              rcases Disk.mem_change hE with hE | hE
              · exact h''.staged.directories E hE
              · rw [hE.trans hnow]
                simp
            exact ⟨fun _ _ => hcleared.saved hb hv fun hok => absurd hok (hr ()), fun x hx => (by cases hx)⟩
          | _ => exact ⟨fun u hu => (by cases hu), fun x hx => h''.saved hb (by cases hx; simp) (by simp)⟩
        have hdone : ∀ (r : Except Exc Unit) w', Saved s₀ i v k base r w' → w'.st.now .temporary = none →
            Holds (recordsContract s₀) ctx i discard (fun rc w'' => (∀ u, rc = .ok u → Saved s₀ i v k base r w'') ∧
              ∀ x, rc = .error x → Saved s₀ i v k base (.error x) w'') w' := by
          intro r w' h' hn
          unfold discard
          rw [holds_bind, holds_read]
          dsimp only
          rw [hn, if_neg (by simp)]
          exact ⟨fun _ _ => h', fun x hx => (by cases hx)⟩
        unfold publish
        rw [holds_bind]
        refine holds_fill h₅ hb (fun r w' hv hy hr => ?_) fun w₆ h₆ => ?_
        · cases r with
          | ok u => exact absurd rfl (hr u)
          | error x =>
            refine (hfailed _ w' hv hy (by simp)).mono fun rc w'' h'' => ?_
            cases rc with
            | ok u => exact h''.1 u rfl
            | error y => exact h''.2 y rfl
        · refine holds_replace h₆ hb (fun r w' h' hn => ?_) fun r w' hv hy hr => ?_
          · refine (hdone r w' h' hn).mono fun rc w'' h'' => ?_
            cases rc with
            | ok u => exact h''.1 u rfl
            | error y => exact h''.2 y rfl
          · refine (hfailed r w' hv hy hr).mono fun rc w'' h'' => ?_
            cases rc with
            | ok u => exact h''.1 u rfl
            | error y => exact h''.2 y rfl

/-! ## Saves, as their readers see them -/

/-- What the readers of a record see. -/
def slot (d : Store V) : Slot V :=
  match d.text d.now .uncertain, d.text d.now .path with
  | none, some (.whole v) => .holding v
  | none, _ => .absent
  | some _, _ => .uncertain

theorem slot_congr {d' : Store V} (h : Alike d d.now d' d'.now) : slot d = slot d' := by
  unfold slot
  rw [h.path, h.uncertain]

/-- **A save leaves what the save of a slot leaves.** -/
theorem Saved.saves {r : Except Exc Unit} (h : Saved s₀ i v k base r w) : (slot k).Saves v r.isOk (slot w.st) := by
  cases r with
  | ok u =>
    obtain ⟨hpath, huncertain⟩ := h.done rfl
    have hnew : slot w.st = .holding v := by
      unfold slot
      rw [hpath, huncertain]
    rw [hnew]
    exact .done
  | error x =>
    rcases h.outcome with ⟨E, hE, halike⟩ | ⟨hpath, huncertain⟩ | ⟨hpath, huncertain⟩
    · rw [List.mem_singleton.1 hE] at halike
      rw [slot_congr halike]
      exact .kept
    · have hnew : slot w.st = .holding v := by
        unfold slot
        rw [hpath, huncertain]
      rw [hnew]
      exact .placed
    · have hnew : slot w.st = .uncertain := by
        unfold slot
        rw [hpath, huncertain]
      rw [hnew]
      exact .moved

/-! ## The methods -/

/-- The end of a call. -/
theorem Mid.ret (h : Mid s₀ i m k base w) {r : Except Exc (Value V)} (hv : r ≠ .error .value)
    (hclear : ∀ x, r = .ok x → (m = .read ∨ ∃ v, m = .save v) → quarantined base = false)
    (hkept : ∀ x, r = .error x → ∀ v, m = .save v →
      Alike w.st w.st.now k k.now ∨ Renamed i w.log ∧ quarantined base = false) :
    RInv s₀ (w.push i (.ret r)) := by
  refine h.toRInv.push trivial ⟨fun x hx m' k' hm' hread => ?_, fun hx => hv ?_, fun x hx v' k' hm' hren => ?_⟩
  · rw [h.under.invoked] at hm'
    rw [h.under.before]
    cases hm'
    cases hx
    exact hclear x rfl hread
  · cases hx
    rfl
  · rw [h.under.invoked] at hm'
    cases hm'
    cases hx
    refine (hkept x rfl v' rfl).resolve_right fun ⟨hr, hq⟩ => ?_
    rcases hren with hren | hren
    · exact hren hr
    · rw [h.under.before, hq] at hren
      cases hren

theorem RInv.enter_save (h : RInv s₀ w) (v : V) : Mid s₀ w.next (.save v) w.st w.log (w.enter (.save v)) :=
  ⟨⟨⟨owes_invoke _ _, h.owes⟩, h.solid, fun D hD => .inl ⟨D, hD, .refl _ _⟩,
    fun _ => .inl ⟨w.st.now, List.mem_singleton_self _, .refl _ _⟩, h.residue⟩, .enter w _⟩

theorem RInv.enter (h : RInv s₀ w) {m : Method V} (hm : m = .read ∨ m = .settle) :
    Mid s₀ w.next m w.st w.log (w.enter m) ∧ Steady w (w.enter m) := by
  have hsilent : Silent (.invoke m : Act Op Answer Exc (Method V) (Value V)) := by
    rcases hm with rfl | rfl <;> trivial
  have hsteady : Steady w (w.push w.next (.invoke m)) := Steady.push hsilent
  have hpushed : RInv s₀ (w.push w.next (.invoke m)) := h.push hsilent (owes_invoke m w.st)
  exact ⟨⟨⟨hpushed.owes, hpushed.solid, hpushed.stands, hpushed.visible, hpushed.residue⟩, .enter w m⟩,
    ⟨hsteady.now, hsteady.files, hsteady.directories, hsteady.mark, hsteady.crashed, hsteady.quarantined⟩⟩

/-- The text of what is on the disk survives a loss of power. -/
theorem Solid.lose (h : Solid d D) : Solid d.lose D ∧ Alike d.lose D d D := by
  have hname : ∀ n, n ≠ .temporary → (D n = none ∨ ∃ v, d.lose.file D n = some ⟨.whole v, true⟩) ∧
      d.lose.text D n = d.text D n := by
    intro n hn
    rcases h n hn with hnone | ⟨v, hv⟩
    · exact ⟨.inl hnone, (text_none hnone).trans (text_none hnone).symm⟩
    · have hkept := Disk.file_lose hv rfl
      refine ⟨.inr ⟨v, hkept⟩, ?_⟩
      unfold Disk.text
      rw [hkept, hv]
  exact ⟨fun n hn => (hname n hn).1, (hname .path (by simp)).2, (hname .uncertain (by simp)).2⟩

/-- A residue that is removed. -/
theorem RInv.removed (h : RInv s₀ w) : Mid s₀ w.next .remove w.st w.log
    ((w.enter .remove).put (w.st.unlink .uncertain).sync) := by
  have honly : ∀ E ∈ (w.st.unlink .uncertain).sync.directories, E = Function.update w.st.now .uncertain none :=
    fun E hE => Disk.mem_sync hE
  have hfiles : (w.st.unlink .uncertain).sync.files = w.st.files := rfl
  have hsolid : Solid (w.st.unlink .uncertain).sync (Function.update w.st.now .uncertain none) := by
    intro n hn
    cases n with
    | path => exact (h.solid w.st.now Disk.now_mem).congr hfiles .path hn
    | uncertain => exact .inl rfl
    | temporary => exact absurd rfl hn
  have hstands : ∀ {lost log}, Stands s₀ lost (⟨w.next, .invoke .remove, w.st⟩ :: log) (w.st.unlink .uncertain).sync
      (Function.update w.st.now .uncertain none) := by
    intro lost log
    refine ⟨text_none rfl, ?_⟩
    unfold Disk.text Disk.file
    rfl
  refine ⟨⟨⟨owes_invoke _ _, h.owes⟩, fun E hE => ?_, fun E hE => ?_, fun _ => hstands, fun hq => (by cases hq)⟩,
    .enter w _⟩
  · rw [honly E hE]
    exact hsolid
  · rw [honly E hE]
    exact hstands

/-- A change of the directory that gets on the disk. -/
theorem Mid.settle (h : Mid s₀ i m k base w) : Mid s₀ i m k base (w.put w.st.settle) ∧ Steady w (w.put w.st.settle) := by
  have hdirs : ∀ D ∈ w.st.settle.directories, D ∈ w.st.directories := fun D hD => Disk.mem_settle hD
  refine ⟨⟨⟨h.owes, fun D hD => ?_, fun D hD => ?_, fun hc => ?_, fun hq D hD => h.residue hq D (hdirs D hD)⟩, h.under⟩,
    Disk.settle_now, Disk.settle_files, hdirs, rfl, rfl, rfl⟩
  · exact (h.solid D (hdirs D hD)).congr Disk.settle_files
  · exact (h.stands D (hdirs D hD)).congr Disk.settle_files rfl
  · show Stands s₀ false w.log w.st.settle w.st.settle.now
    rw [Disk.settle_now]
    exact (h.visible hc).congr Disk.settle_files rfl

/-- **Every call keeps the contract**, and so does a loss of power. -/
theorem records_kept (s₀ : Store V) : (recordsContract s₀).Kept where
  crash w s h hs := by
    cases hs
    have honly : ∀ D ∈ w.st.lose.directories, D = w.st.kept := fun D hD => Disk.mem_lose hD
    obtain ⟨hsolid, halike⟩ := (h.solid w.st.kept Disk.kept_mem).lose
    refine ⟨⟨⟨fun x hx => (by cases hx), fun hx => (by cases hx), fun x hx => (by cases hx)⟩, h.owes⟩,
      fun D hD => ?_, fun D hD => ?_, fun hc => (by cases hc), fun hq D hD => ?_⟩
    · rw [honly D hD]
      exact hsolid
    · rw [honly D hD]
      have hstands := h.stands w.st.kept Disk.kept_mem
      unfold Stands at hstands ⊢
      rw [show mark (w.lose w.st.lose).log = mark w.log from rfl]
      cases hmark : mark w.log with
      | none =>
        rw [hmark] at hstands
        obtain ⟨E, hE, ha⟩ := hstands
        exact ⟨E, hE, halike.path.trans ha.path, halike.uncertain.trans ha.uncertain⟩
      | some x =>
        rw [hmark] at hstands
        obtain ⟨m, k⟩ := x
        cases m with
        | save v =>
          rcases hstands with ⟨E, hE, ha⟩ | ⟨hp, hu⟩ | ⟨hp, hu⟩
          · exact .inl ⟨E, hE, halike.path.trans ha.path, halike.uncertain.trans ha.uncertain⟩
          · exact .inr (.inl ⟨halike.path.trans hp, halike.uncertain.trans hu⟩)
          · exact .inr (.inr ⟨halike.path.trans hp, halike.uncertain.trans hu⟩)
        | _ => exact ⟨halike.uncertain.trans hstands.1, halike.path.trans hstands.2⟩
    · rw [honly D hD]
      exact h.residue hq w.st.kept Disk.kept_mem
  method ctx m w hen _ _ h := by
    cases m with
    | save v =>
      have hidle : ctx = [] := List.isEmpty_iff.1 hen
      show Holds (recordsContract s₀) ctx w.next (atomicJson v >>= fun _ => pure (Value.none : Value V)) _ _
      rw [holds_bind]
      refine (holds_atomicJson (h.enter_save v) ⟨rfl, rfl, fun D hD => hD⟩ h.solid rfl rfl rfl).mono fun r w' h' => ?_
      cases r with
      | ok u =>
        refine ⟨h'.toMid.ret (by simp) (fun _ _ _ => h'.clear rfl) fun x hx => (by cases hx), fun hc => absurd hidle hc⟩
      | error x =>
        refine ⟨h'.toMid.ret (fun hr => h'.value ?_) (fun y hy => (by cases hy)) fun _ _ _ _ => h'.kept,
          fun hc => absurd hidle hc⟩
        cases hr
        rfl
    | read =>
      obtain ⟨hmid, hsteady⟩ := h.enter (.inl rfl)
      show Holds (recordsContract s₀) ctx w.next (readJson >>= fun v => pure (Value.record v)) _ _
      rw [holds_bind]
      refine (holds_readJson hmid).mono fun r w' ⟨hmid', hsteady', hv, hclear⟩ => ?_
      have hwhole : ∀ {y : Except Exc (Value V)}, Steady w (w'.push w.next (.ret y)) :=
        fun {y} => (hsteady.trans hsteady').trans (Steady.push trivial)
      cases r with
      | ok x =>
        refine ⟨hmid'.ret (by simp) (fun _ _ _ => hclear x rfl) fun y hy => (by cases hy), fun _ => hwhole⟩
      | error x =>
        refine ⟨hmid'.ret (fun hr => hv ?_) (fun y hy => (by cases hy)) fun y hy v hm => (by cases hm), fun _ => hwhole⟩
        cases hr
        rfl
    | remove =>
      have hidle : ctx = [] := List.isEmpty_iff.1 hen
      refine ⟨h.removed.ret (by simp) (fun x hx hm => ?_) fun x hx => (by cases hx), fun hc => absurd hidle hc⟩
      rcases hm with hm | ⟨v, hm⟩ <;> cases hm
    | settle =>
      obtain ⟨hmid, hsteady⟩ := h.enter (.inr rfl)
      obtain ⟨hmid', hsteady'⟩ := hmid.settle
      refine ⟨hmid'.ret (by simp) (fun x hx hm => ?_) fun x hx => (by cases hx),
        fun _ => (hsteady.trans hsteady').trans (Steady.push trivial)⟩
      rcases hm with hm | ⟨v, hm⟩ <;> cases hm

/-! ## Runs -/

variable {old : Option V} {cfg : RConfig V}

theorem RInv.start (old : Option V) : RInv (holding old) (Machine.start (holding old) : RConfig V).w := by
  refine ⟨trivial, fun D hD n hn => ?_, fun D hD => ?_, fun _ => ?_, fun hq => (by cases hq)⟩
  · cases old with
    | none =>
      simp only [Machine.start, holding, Disk.directories, List.mem_cons, List.not_mem_nil, or_false, or_self] at hD
      rw [hD]
      exact .inl rfl
    | some v =>
      simp only [Machine.start, holding, Disk.directories, List.mem_cons, List.not_mem_nil, or_false, or_self] at hD
      rw [hD]
      cases n with
      | path => exact .inr ⟨v, rfl⟩
      | uncertain => exact .inl rfl
      | temporary => exact .inl rfl
  · exact ⟨D, hD, .refl _ _⟩
  · exact ⟨_, List.mem_singleton_self _, .refl _ _⟩

theorem record_reachable (h : (records V).Reachable (holding old) cfg) : RInv (holding old) cfg.w :=
  Contract.sound (records_kept (holding old)) (RInv.start old) h

/-- **The crash contract of a record**, in every run: whatever fails, and wherever the power is lost, the
record is the old one, the complete new one, or absent with a residue; a read finds no partial one; a
residue whose quarantine succeeded refuses every later call until it is removed; and a save that failed
before its rename, or was refused, has changed nothing. -/
theorem record_atomic (h : (records V).Reachable (holding old) cfg) :
    Stands (holding old) (crashed cfg.w.log) cfg.w.log cfg.w.st cfg.w.st.now ∧
    (∀ c, cfg.w.st.text cfg.w.st.now .path = some c → ∃ v, c = .whole v) ∧
    (∀ e ∈ cfg.w.log, e.act ≠ .ret (.error .value)) ∧
    (quarantined cfg.w.log = true → (cfg.w.st.now .uncertain).isSome = true) ∧
    (∀ newer e older, cfg.w.log = newer ++ e :: older → ∀ x, e.act = .ret (.ok x) →
      ∀ m k, invoked e.frame older = some (m, k) → (m = .read ∨ ∃ v, m = .save v) →
        quarantined (before e.frame older) = false) ∧
    (∀ newer e older, cfg.w.log = newer ++ e :: older → ∀ x, e.act = .ret (.error x) →
      ∀ v k, invoked e.frame older = some (.save v, k) →
        ¬ Renamed e.frame older ∨ quarantined (before e.frame older) = true → Alike e.st e.st.now k k.now) := by
  have hinv := record_reachable h
  have howes : ∀ newer e older, cfg.w.log = newer ++ e :: older → Owes e older := by
    intro newer e older hlog
    have ho := hinv.owes
    rw [hlog] at ho
    exact ho.at
  refine ⟨?_, fun c hc => ?_, fun e he => ?_, fun hq => hinv.residue hq _ Disk.now_mem,
    fun newer e older hlog => (howes newer e older hlog).refused,
    fun newer e older hlog => (howes newer e older hlog).kept⟩
  · cases hlost : crashed cfg.w.log with
    | true => exact hinv.stands _ Disk.now_mem
    | false => exact hinv.visible hlost
  · rcases hinv.solid cfg.w.st.now Disk.now_mem .path (by simp) with hn | ⟨v, hv⟩
    · rw [text_none hn] at hc
      cases hc
    · unfold Disk.text at hc
      rw [hv] at hc
      cases hc
      exact ⟨v, rfl⟩
  · obtain ⟨newer, older, hlog⟩ := List.append_of_mem he
    exact (howes newer e older hlog).whole

/-! ### A run -/

namespace Example

/-- A save whose replacement does not get on the disk, and is quarantined; a read after it, and a loss of
power. -/
def refused : List (Input Answer (Method ℕ)) :=
  ([.invoke (.save 2)] : List (Input Answer (Method ℕ))) ++ List.replicate 8 (Input.reply Answer.ok) ++
    ([.reply .os, .reply .ok, .reply .ok, .invoke .read, .reply .ok, .reply .ok, .crash] : List (Input Answer (Method ℕ)))

end Example

/-- A residue that a loss of power leaves. -/
theorem record_atomic_refused :
    ∃ cfg : RConfig ℕ, (records ℕ).Reachable (holding (some 1)) cfg ∧ quarantined cfg.w.log = true ∧
      crashed cfg.w.log = true ∧ (cfg.w.st.now .uncertain).isSome = true ∧ cfg.w.st.text cfg.w.st.now .path = none := by
  obtain ⟨cfg, hcfg, ht⟩ := Machine.Reachable.of_run (records ℕ) (holding (some 1)) Example.refused
    (fun c => decide (quarantined c.w.log = true ∧ crashed c.w.log = true ∧ c.w.st.text c.w.st.now .path = none))
    (by decide +kernel)
  obtain ⟨hquarantined, hcrashed, hpath⟩ := of_decide_eq_true ht
  obtain ⟨-, -, -, hresidue, -⟩ := record_atomic hcfg
  exact ⟨cfg, hcfg, hquarantined, hcrashed, hresidue hquarantined, hpath⟩

end Records

end Arhugula
