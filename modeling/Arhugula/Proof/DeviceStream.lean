import Arhugula.Spec.Device

/-!
# What a capture device hands out

What is handed out is read off the returns of `poll` (`handed`), and what was received off those of `_receive`
(`received`). Whatever the threads do, the frames that were handed out and those that wait are the first of the recording,
in order; and where nothing failed and nobody canceled they are all of it (`stream_in_order`).
-/

namespace Arhugula

namespace Device

open Reentrant Concurrent Process Sequence
open Pcm (PcmFramer frameBytes)

/-- A world of a device. -/
abbrev DWorld := World PipeWireCapture Op Answer Exc Method Value

/-- A log entry of a device. -/
abbrev DEntry := Entry PipeWireCapture Op Answer Exc Method Value

/-- An act of a call. -/
abbrev DAct := Act Op Answer Exc Method Value

/-! ## What a log shows -/

/-- What an act receives. -/
def taken : DAct → Bytes
  | .ret (.ok (.received chunk)) => chunk
  | _ => []

/-- What an act hands out. -/
def given : DAct → List Bytes
  | .ret (.ok (.frames frames)) => frames
  | _ => []

/-- **What was received**, the first byte first. -/
def received : List DEntry → Bytes
  | [] => []
  | e :: older => received older ++ taken e.act

/-- **What was handed out**, the first frame first. -/
def handed : List DEntry → List Bytes
  | [] => []
  | e :: older => handed older ++ given e.act

/-- A `cancel` was called. -/
def Canceled (log : List DEntry) : Prop := ∃ e ∈ log, e.act = .invoke .cancel

/-! ## What is under the lock -/

variable {s s' : PipeWireCapture} {chunk : Option Bytes} {result : Option Raw}

/-- **A chunk that is taken**: its frames wait, and what is left over begins the next. -/
theorem take_ok (h : s.take chunk = .ok s') : ∃ c, chunk = some c ∧ s.framer.state = .open ∧
    s.total + c.length ≤ maxTotal ∧ s.queue.length + (blocks frameBytes (s.framer.remainder ++ c)).length ≤ maxQueue ∧
    s' = { s with
      framer := ⟨rest frameBytes (s.framer.remainder ++ c), .open⟩
      queue := s.queue ++ blocks frameBytes (s.framer.remainder ++ c)
      total := s.total + c.length } := by
  unfold PipeWireCapture.take at h
  cases chunk with
  | none => cases h
  | some c =>
    dsimp only at h
    split at h
    · cases h
    · rename_i hbound
      rw [not_or, not_lt] at hbound
      unfold PcmFramer.feed at h
      by_cases hstate : s.framer.state ≠ .open
      · rw [if_pos hstate] at h
        cases h
      · rw [if_neg hstate] at h
        by_cases hlong : Pcm.maxChunk < c.length
        · rw [if_pos hlong] at h
          cases h
        · rw [if_neg hlong] at h
          dsimp only at h
          split at h
          · cases h
          · rename_i hfull
            cases h
            exact ⟨c, rfl, not_not.1 hstate, hbound.2, not_lt.1 hfull, rfl⟩

/-- A chunk that is refused spoils the recording. -/
theorem take_error (h : s.take chunk = .error s') : s'.error ≠ none ∧ s'.queue = [] ∧ s'.total = s.total := by
  unfold PipeWireCapture.take at h
  split at h
  · cases h
    exact ⟨by simp [PipeWireCapture.spoil], rfl, rfl⟩
  · split_ifs at h
    · cases h
      exact ⟨by simp [PipeWireCapture.spoil], rfl, rfl⟩
    · split at h
      · cases h
        exact ⟨by simp [PipeWireCapture.spoil], rfl, rfl⟩
      · split_ifs at h
        cases h
        exact ⟨by simp [PipeWireCapture.spoil], rfl, rfl⟩

/-- **What the worker came to** leaves what waits, and no error where there was none, or the recording is complete. -/
theorem judge_spec (s : PipeWireCapture) (result : Option Raw) : (s.judge result).queue = s.queue ∧
    (s.judge result).total = s.total ∧ ((s.judge result).error = none → s.error = none ∧ (s.judge result = s ∨
      (s.framer.state ≠ .failed → s.framer.remainder = [] ∧
        s.judge result = { s with framer := { s.framer with state := .finished }, closed := true, cleaned := some true }))) := by
  unfold PipeWireCapture.judge
  cases result with
  | none => exact ⟨rfl, rfl, fun h => ⟨h, .inl rfl⟩⟩
  | some raw =>
    dsimp only
    split_ifs with herror hgood
    · exact ⟨rfl, rfl, fun h => ⟨h, .inl rfl⟩⟩
    · unfold PipeWireCapture.complete PcmFramer.finish
      by_cases hstate : s.framer.state = .failed
      · rw [if_pos hstate]
        exact ⟨rfl, rfl, fun h => by cases h⟩
      · rw [if_neg hstate]
        by_cases hrest : s.framer.remainder ≠ []
        · rw [if_pos hrest]
          exact ⟨rfl, rfl, fun h => by cases h⟩
        · rw [if_neg hrest]
          dsimp only
          split
          · exact ⟨rfl, rfl, fun h => by cases h⟩
          · exact ⟨rfl, rfl, fun _ => ⟨not_not.1 herror, .inr fun _ => ⟨not_not.1 hrest, rfl⟩⟩⟩
    · exact ⟨rfl, rfl, fun h => by cases h⟩

/-! ## The invariant -/

/-- Nothing more is received: something failed, or was canceled, or the recording is complete. -/
def Dead (w : DWorld) : Prop := w.st.error ≠ none ∨ Canceled w.log ∨ w.st.framer.state = .finished

/-- **The invariant.** -/
structure Kept (w : DWorld) : Prop where
  within : handed w.log ++ w.st.queue <+: blocks frameBytes (received w.log)
  whole : w.st.error = none → (w.st.closed = false ∨ ¬ Canceled w.log) →
    handed w.log ++ w.st.queue = blocks frameBytes (received w.log)
  framer : w.st.error = none → w.st.framer.state ≠ .failed ∧ w.st.framer.remainder = rest frameBytes (received w.log)
  finished : w.st.error = none → w.st.framer.state = .finished → w.st.closed = true ∧ w.st.queue = [] ∧ w.st.framer.remainder = []
  dead : w.st.closed = true → Dead w
  total : w.st.total = (received w.log).length
  bounded : w.st.total ≤ maxTotal ∧ w.st.queue.length ≤ maxQueue

/-- The rules of a device. -/
def rules : Shared.Rules PipeWireCapture Op Answer Exc Method Value where
  Inv := Kept
  Rel _ w w' := Dead w → Dead w'
  refl _ _ := id
  trans h h' := h' ∘ h

variable {w w' w₀ : DWorld} {i : ℕ} {x : DAct} {op : Op} {α : Type}

theorem Dead.push (h : Dead w) : Dead (w.push i x) := by
  rcases h with he | ⟨e, he, hc⟩ | hf
  · exact .inl he
  · exact .inr (.inl ⟨e, List.mem_cons_of_mem _ he, hc⟩)
  · exact .inr (.inr hf)

/-- An act that neither receives nor hands out. -/
def Quiet (x : DAct) : Prop := taken x = [] ∧ given x = []

theorem received_push (hx : Quiet x) : received (w.push i x).log = received w.log := by
  show received w.log ++ taken x = _
  rw [hx.1, List.append_nil]

theorem handed_push (hx : Quiet x) : handed (w.push i x).log = handed w.log := by
  show handed w.log ++ given x = _
  rw [hx.2, List.append_nil]

/-- **An entry of a call that goes on.** -/
theorem Kept.push (h : Kept w) (hx : Quiet x) : Kept (w.push i x) where
  within := by
    rw [handed_push hx, received_push hx]
    exact h.within
  whole he hc := by
    rw [handed_push hx, received_push hx]
    exact h.whole he (hc.imp_right fun hn ⟨e, hmem, hact⟩ => hn ⟨e, List.mem_cons_of_mem _ hmem, hact⟩)
  framer he := by
    rw [received_push hx]
    exact h.framer he
  finished := h.finished
  dead hc := (h.dead hc).push
  total := by
    rw [received_push hx]
    exact h.total
  bounded := h.bounded

/-- **Something fails.** What waits is kept, or thrown away. -/
theorem Kept.fail (h : Kept w) (s : PipeWireCapture) (herror : s.error ≠ none) (hqueue : s.queue = w.st.queue ∨ s.queue = [])
    (htotal : s.total = w.st.total) : Kept (w.put s) := by
  have hprefix : s.queue <+: w.st.queue ∧ s.queue.length ≤ w.st.queue.length := by
    rcases hqueue with hq | hq
    · rw [hq]
      exact ⟨List.prefix_refl _, le_rfl⟩
    · rw [hq]
      exact ⟨List.nil_prefix, Nat.zero_le _⟩
  refine ⟨((List.prefix_append_right_inj _).2 hprefix.1).trans h.within, fun he => absurd he herror, fun he => absurd he herror,
    fun he => absurd he herror, fun _ => .inl herror, htotal.trans h.total, ?_, hprefix.2.trans h.bounded.2⟩
  show s.total ≤ maxTotal
  rw [htotal]
  exact h.bounded.1

/-- What has no part in the stream is written. -/
theorem Kept.other (h : Kept w) (started : Bool) (cleaned : Option Bool) (worker : Bool) :
    Kept (w.put { w.st with started := started, cleaned := cleaned, worker := worker }) :=
  ⟨h.within, h.whole, h.framer, h.finished, h.dead, h.total, h.bounded⟩

/-- **The device is closed**, where nothing more is received. -/
theorem Kept.close (h : Kept w) (hdead : Dead w) : Kept (w.put { w.st with closed := true, queue := [] }) where
  within := ((List.prefix_append_right_inj _).2 List.nil_prefix).trans h.within
  whole he hc := by
    -- it was complete already, so that nothing waited
    have hlog : ¬ Canceled w.log := hc.resolve_left (by simp)
    have hfinished : w.st.framer.state = .finished := by
      rcases hdead with hd | hd | hd
      · exact absurd he hd
      · exact absurd hd hlog
      · exact hd
    have hqueue := (h.finished he hfinished).2.1
    have hwhole := h.whole he (.inr hlog)
    rw [hqueue] at hwhole
    exact hwhole
  framer := h.framer
  finished he hf := ⟨rfl, rfl, (h.finished he hf).2.2⟩
  dead _ := hdead
  total := h.total
  bounded := ⟨h.bounded.1, Nat.zero_le _⟩

/-! ## A call that runs -/

/-- What a call keeps while it runs. -/
structure Here (w₀ w : DWorld) : Prop where
  kept : Kept w
  dead : Dead w₀ → Dead w

theorem Here.leaves (h : Here w₀ w) : Shared.Leaves rules i w₀ w := ⟨h.kept, fun _ _ => h.dead⟩

theorem Here.push (h : Here w₀ w) (hx : Quiet x) : Here w₀ (w.push i x) := ⟨h.kept.push hx, fun hd => (h.dead hd).push⟩

/-- **A callback**, at which the others may go on. -/
theorem ask_runs {Q : Except Exc Answer → DWorld → DWorld → Prop} (h : Here w₀ w)
    (hQ : ∀ a w₁ w', (Dead w → Dead w') → Here w₁ w' → Q (.ok a) w₁ w') :
    Shared.Runs rules i (Prog.ask op) Q w₀ w := by
  have hcall : Here w₀ (w.push i (.call op)) := h.push ⟨rfl, rfl⟩
  refine ⟨hcall.leaves, fun w' hw hk a => hQ a _ _ (fun hd => ?_) ⟨hk.push ⟨rfl, rfl⟩, Dead.push⟩⟩
  exact (hw.rel hd.push).push

theorem turn_runs {Q : Except Exc Unit → DWorld → DWorld → Prop} (h : Here w₀ w)
    (hQ : ∀ w₁ w', (Dead w → Dead w') → Here w₁ w' → Q (.ok ()) w₁ w') :
    Shared.Runs rules i (turn op) Q w₀ w := by
  unfold turn
  rw [Shared.runs_bind]
  exact ask_runs h fun _ w₁ w' hd h' => hQ w₁ w' hd h'

theorem perform_runs {Q : Except Exc Unit → DWorld → DWorld → Prop} (h : Here w₀ w)
    (hQ : ∀ r w₁ w', Here w₁ w' → Q r w₁ w') : Shared.Runs rules i (perform op) Q w₀ w := by
  unfold perform
  rw [Shared.runs_bind]
  refine ask_runs h fun a w₁ w' _ h' => ?_
  cases a <;> exact hQ _ w₁ w' h'

/-- **A cancel**, where nothing more is received. -/
theorem cancel_runs {Q : Except Exc Bool → DWorld → DWorld → Prop} (h : Here w₀ w) (hdead : Dead w)
    (hQ : ∀ r w₁ w', Here w₁ w' → Q r w₁ w') : Shared.Runs rules i cancel Q w₀ w := by
  unfold cancel
  rw [Shared.runs_bind]
  refine turn_runs h fun w₁ w₂ hd h₂ => ?_
  simp only [Shared.runs_bind, Shared.runs_read, Shared.runs_write, id]
  have h₃ : Here w₁ (w₂.put { w₂.st with closed := true, queue := [] }) := ⟨h₂.kept.close (hd hdead), h₂.dead⟩
  split
  · exact hQ _ _ _ h₃
  · split
    · rw [Shared.runs_bind]
      unfold cancelWorker
      rw [Shared.runs_bind]
      refine ask_runs h₃ fun a w₄ w₅ _ h₅ => ?_
      have hrecord : ∀ clean : Bool, Shared.Runs rules i (do
          turn .lock
          Prog.write fun s : PipeWireCapture => { s with cleaned := some clean }
          pure clean) Q w₄ w₅ := by
        intro clean
        rw [Shared.runs_bind]
        refine turn_runs h₅ fun w₆ w₇ _ h₇ => ?_
        exact hQ _ _ _ ⟨h₇.kept.other _ _ _, h₇.dead⟩
      cases a <;> exact hrecord _
    · exact hQ _ _ _ h₃

/-! ## The calls -/

/-- **A call that neither received nor hands out** ends. -/
theorem Here.ends {r : Except Exc Value} (h : Here w₀ w) (hr : Quiet (.ret r)) : Shared.Ends rules i r w₀ w :=
  (h.push hr).leaves

theorem launch_runs {Q : Except Exc Unit → DWorld → DWorld → Prop} (source : String) (h : Here w₀ w)
    (hQ : ∀ r w₁ w', Here w₁ w' → Q r w₁ w') : Shared.Runs rules i (launch source) Q w₀ w := by
  unfold launch
  rw [Shared.runs_bind]
  refine perform_runs h fun r w₁ w₂ h₂ => ?_
  cases r with
  | error x => exact hQ _ w₁ w₂ h₂
  | ok _ =>
    dsimp only
    rw [Shared.runs_bind]
    refine turn_runs h₂ fun w₃ w₄ _ h₄ => ?_
    simp only [Shared.runs_bind, Shared.runs_read, Shared.runs_write, id]
    have h₅ : Here w₃ (w₄.put { w₄.st with worker := true }) := ⟨h₄.kept.other _ _ _, h₄.dead⟩
    split
    · rename_i hclosed
      rw [Shared.runs_bind]
      refine cancel_runs h₅ (h₅.kept.dead hclosed) fun r w₆ w' h' => ?_
      cases r <;> exact hQ _ w₆ w' h'
    · exact perform_runs h₅ hQ

theorem start_runs {Q : Except Exc Unit → DWorld → DWorld → Prop} (source : Option String) (h : Here w₀ w)
    (hQ : ∀ r w₁ w', Here w₁ w' → Q r w₁ w') : Shared.Runs rules i (start source) Q w₀ w := by
  unfold start
  cases source.filter isNode with
  | none => exact hQ _ _ _ h
  | some source =>
    dsimp only
    rw [Shared.runs_bind]
    refine turn_runs h fun w₁ w₂ _ h₂ => ?_
    dsimp only
    rw [Shared.runs_bind, Shared.runs_read]
    dsimp only [id]
    split
    · exact hQ _ _ _ h₂
    · have h₃ : Here w₁ (w₂.put { w₂.st with started := true }) := ⟨h₂.kept.other _ _ _, h₂.dead⟩
      rw [Shared.runs_bind, Shared.runs_write]
      dsimp only
      rw [Shared.runs_catching]
      refine launch_runs source h₃ fun r w₄ w₅ h₅ => ?_
      cases r with
      | ok _ => exact hQ _ w₄ w₅ h₅
      | error x =>
        -- what fails is closed
        dsimp only
        rw [Shared.runs_bind]
        refine turn_runs h₅ fun w₆ w₇ _ h₇ => ?_
        simp only [Shared.runs_bind, Shared.runs_write]
        have hdead : Dead (w₇.put { w₇.st with error := some "capture.start-failed" }) := .inl (by simp)
        refine cancel_runs ⟨h₇.kept.fail _ (by simp) (.inl rfl) rfl, fun _ => hdead⟩ hdead fun r w₈ w₉ h₉ => ?_
        cases r <;> exact hQ _ w₈ w₉ h₉

/-- **A chunk is received**, or the recording is spoiled. -/
theorem receive_ends (chunk : Option Bytes) (h : Here w₀ w) :
    Shared.Runs rules i (body (.receive chunk)) (Shared.Ends rules i) w₀ w := by
  unfold body receive
  simp only [Shared.runs_bind]
  refine turn_runs h fun w₁ w₂ _ h₂ => ?_
  simp only [Shared.runs_read, id]
  split
  · exact h₂.ends ⟨rfl, rfl⟩
  · rename_i hopen
    simp only [Bool.or_eq_true, not_or, Bool.not_eq_true, Option.isSome_eq_false_iff, Option.isNone_iff_eq_none] at hopen
    cases htake : w₂.st.take chunk with
    | error s =>
      obtain ⟨herror, hqueue, htotal⟩ := take_error htake
      have hkept := h₂.kept.fail s herror (.inr hqueue) htotal
      exact Here.ends ⟨hkept, fun _ => .inl herror⟩ ⟨rfl, rfl⟩
    | ok s =>
      obtain ⟨c, rfl, hstate, htotal, hfull, rfl⟩ := take_ok htake
      have hrest := (h₂.kept.framer hopen.2).2
      have hwhole := h₂.kept.whole hopen.2 (.inl hopen.1)
      obtain ⟨hblocks, hlast⟩ := blocks_append (n := frameBytes) (by decide) (received w₂.log) c
      rw [← hrest] at hblocks hlast
      have hstream : (handed w₂.log ++ []) ++ (w₂.st.queue ++ blocks frameBytes (w₂.st.framer.remainder ++ c)) =
          blocks frameBytes (received w₂.log ++ c) := by
        rw [List.append_nil, ← List.append_assoc, hwhole, hblocks]
      refine ⟨⟨?_, fun _ _ => ?_, fun _ => ⟨by simp, hlast.symm⟩, (fun _ hf => by cases hf), fun hc => ?_, ?_, htotal, ?_⟩, fun _ _ hd => ?_⟩
      · exact ⟨[], (List.append_nil _).trans hstream⟩
      · exact hstream
      · exact absurd (hopen.1.symm.trans hc) (by simp)
      · show w₂.st.total + c.length = (received w₂.log ++ c).length
        rw [List.length_append, h₂.kept.total]
      · show (w₂.st.queue ++ _).length ≤ maxQueue
        rw [List.length_append]
        exact hfull
      · rcases h₂.dead hd with hd | ⟨e, he, hact⟩ | hd
        · exact absurd hopen.2 hd
        · exact .inr (.inl ⟨e, List.mem_cons_of_mem _ he, hact⟩)
        · rw [hstate] at hd
          cases hd

theorem pollWorker_runs {Q : Except Exc (Option Raw) → DWorld → DWorld → Prop} (worker : Bool) (h : Here w₀ w)
    (hQ : ∀ result w₁ w', Here w₁ w' → Q (.ok result) w₁ w') : Shared.Runs rules i (pollWorker worker) Q w₀ w := by
  unfold pollWorker
  split
  · rw [Shared.runs_bind]
    refine ask_runs h fun a w₁ w' _ h' => ?_
    cases a <;> exact hQ _ w₁ w' h'
  · exact hQ _ _ _ h

/-- **What waits is handed out**, or it is thrown away. -/
theorem handOver_runs {Q : Except Exc (List Bytes) → DWorld → DWorld → Prop} (result : Option Raw) (h : Here w₀ w)
    (hok : ∀ frames w₁ w', Shared.Ends rules i (.ok (.frames frames)) w₁ w' → Q (.ok frames) w₁ w')
    (herr : ∀ x w₁ w', Here w₁ w' → Q (.error x) w₁ w') : Shared.Runs rules i (handOver result) Q w₀ w := by
  unfold handOver
  rw [Shared.runs_bind]
  refine turn_runs h fun w₁ w₂ _ h₂ => ?_
  simp only [Shared.runs_bind, Shared.runs_read, Shared.runs_write, id]
  obtain ⟨hqueue, htotal, hgood⟩ := judge_spec w₂.st result
  generalize w₂.st.judge result = j at hqueue htotal hgood ⊢
  cases herror : j.error with
  | some error =>
    have hdead : Dead (w₂.put { j with queue := [], error := some error }) := .inl (by simp)
    have hkept := h₂.kept.fail { j with queue := [], error := some error } (by simp) (.inr rfl) htotal
    dsimp only
    rw [Shared.runs_bind]
    refine cancel_runs ⟨hkept, fun _ => hdead⟩ hdead fun r w₃ w' h' => ?_
    cases r <;> exact herr _ w₃ w' h'
  | none =>
    obtain ⟨hnone, hcase⟩ := hgood herror
    obtain ⟨hstate, hrest⟩ := h₂.kept.framer hnone
    -- what the worker came to: nothing, or all
    have hframer : j.framer.state ≠ .failed ∧ j.framer.remainder = rest frameBytes (received w₂.log) ∧
        (j.framer.state = .finished → j.closed = true ∧ j.framer.remainder = []) ∧
        (j.closed = false → w₂.st.closed = false) ∧ (j.closed = true → Dead w₂ ∨ j.framer.state = .finished) ∧
        (w₂.st.framer.state = .finished → j.framer.state = .finished) := by
      rcases hcase with rfl | hcomplete
      · exact ⟨hstate, hrest, fun hf => ⟨(h₂.kept.finished hnone hf).1, (h₂.kept.finished hnone hf).2.2⟩, id,
          fun hc => .inl (h₂.kept.dead hc), id⟩
      · obtain ⟨hempty, rfl⟩ := hcomplete hstate
        exact ⟨by simp, hrest, fun _ => ⟨rfl, hempty⟩, (fun hc => by cases hc), fun _ => .inr rfl, fun _ => rfl⟩
    obtain ⟨hstate', hrest', hend, hopen, hclosed, hfinished⟩ := hframer
    have hdead : Dead w₂ → Dead ((w₂.put { j with queue := [], error := none }).push i (.ret (.ok (.frames j.queue)))) := by
      rintro (hd | ⟨e, he, hact⟩ | hd)
      · exact absurd hnone hd
      · exact .inr (.inl ⟨e, List.mem_cons_of_mem _ he, hact⟩)
      · exact .inr (.inr (hfinished hd))
    have hlog : (handed w₂.log ++ j.queue) ++ [] = handed w₂.log ++ w₂.st.queue ∧ received w₂.log ++ [] = received w₂.log := by
      rw [hqueue]
      exact ⟨List.append_nil _, List.append_nil _⟩
    refine hok _ _ _ ⟨⟨?_, fun _ hc => ?_, fun _ => ⟨hstate', ?_⟩, fun _ hf => ⟨(hend hf).1, rfl, (hend hf).2⟩, fun hc => ?_, ?_,
      htotal.trans_le h₂.kept.bounded.1, Nat.zero_le _⟩, fun _ _ hd => hdead (h₂.dead hd)⟩
    · show (handed w₂.log ++ j.queue) ++ [] <+: blocks frameBytes (received w₂.log ++ [])
      rw [hlog.1, hlog.2]
      exact h₂.kept.within
    · show (handed w₂.log ++ j.queue) ++ [] = blocks frameBytes (received w₂.log ++ [])
      rw [hlog.1, hlog.2]
      refine h₂.kept.whole hnone (hc.imp hopen fun hn hcanceled => hn ?_)
      obtain ⟨e, he, hact⟩ := hcanceled
      exact ⟨e, List.mem_cons_of_mem _ he, hact⟩
    · show j.framer.remainder = rest frameBytes (received w₂.log ++ [])
      rw [hlog.2]
      exact hrest'
    · rcases hclosed hc with hd | hf
      · exact hdead hd
      · exact .inr (.inr hf)
    · show j.total = (received w₂.log ++ []).length
      rw [hlog.2, htotal]
      exact h₂.kept.total

/-- **A poll** hands out what waits, or raises. -/
theorem poll_ends (h : Here w₀ w) : Shared.Runs rules i (body .poll) (Shared.Ends rules i) w₀ w := by
  show Shared.Runs rules i (poll >>= fun frames => pure (Value.frames frames)) (Shared.Ends rules i) w₀ w
  unfold poll
  simp only [Shared.runs_bind]
  refine turn_runs h fun w₁ w₂ _ h₂ => ?_
  simp only [Shared.runs_read, id]
  split
  · exact h₂.ends ⟨rfl, rfl⟩
  · rw [Shared.runs_bind]
    refine pollWorker_runs _ h₂ fun result w₃ w₄ h₄ => ?_
    exact handOver_runs result h₄ (fun _ _ _ h' => h') fun _ _ _ h' => h'.ends ⟨rfl, rfl⟩

theorem bodies : Shared.Bodies rules body where
  method meth w hinv _ := by
    have hentered : Here w (w.enter meth) := by
      have hpush := hinv.push (i := w.next) (x := .invoke meth) ⟨rfl, rfl⟩
      exact ⟨⟨hpush.within, hpush.whole, hpush.framer, hpush.finished, hpush.dead, hpush.total, hpush.bounded⟩, Dead.push⟩
    cases meth with
    | start source =>
      show Shared.Runs rules w.next (start source >>= fun _ => pure Value.none) (Shared.Ends rules w.next) w (w.enter (.start source))
      rw [Shared.runs_bind]
      refine start_runs source hentered fun r w₁ w' h' => ?_
      cases r <;> exact h'.ends ⟨rfl, rfl⟩
    | receive chunk => exact receive_ends chunk hentered
    | poll => exact poll_ends hentered
    | cancel =>
      show Shared.Runs rules w.next (cancel >>= fun cleaned => pure (Value.cleaned cleaned)) (Shared.Ends rules w.next) w (w.enter .cancel)
      rw [Shared.runs_bind]
      have hdead : Dead (w.enter .cancel) := .inr (.inl ⟨_, List.mem_cons_self, rfl⟩)
      refine cancel_runs hentered hdead fun r w₁ w' h' => ?_
      cases r <;> exact h'.ends ⟨rfl, rfl⟩
  crash _ _ hinv := ⟨hinv.push ⟨rfl, rfl⟩, fun _ _ => Dead.push⟩

/-- **A recording is handed out in order**: whatever the threads do, the frames that were handed out, and those that wait,
are the first frames of what was received, each of 640 bytes, none lost and none twice. Where nothing failed and nobody
canceled they are all of its frames, and once the worker has ended well what was handed out is all that was received. -/
theorem stream_in_order {c : Config PipeWireCapture Op Answer Exc Method Value} (h : Concurrent.Reachable body .new c) :
    (handed c.w.log ++ c.w.st.queue <+: blocks frameBytes (received c.w.log) ∧ (∀ f ∈ handed c.w.log, f.length = frameBytes) ∧
        (received c.w.log).length ≤ maxTotal ∧ c.w.st.queue.length ≤ maxQueue) ∧
      (c.w.st.error = none → ¬ Canceled c.w.log →
        handed c.w.log ++ c.w.st.queue = blocks frameBytes (received c.w.log) ∧
          (c.w.st.framer.state = .finished → (handed c.w.log).flatten = received c.w.log)) := by
  have hstart : Kept (Machine.start PipeWireCapture.new : Config PipeWireCapture Op Answer Exc Method Value).w :=
    ⟨List.nil_prefix, fun _ _ => rfl, fun _ => ⟨by decide, rfl⟩, fun _ hf => (by cases hf), fun hc => (by cases hc), rfl,
      Nat.zero_le _, Nat.zero_le _⟩
  have hkept : Kept c.w := (bodies.sound hstart h).inv
  refine ⟨⟨hkept.within, fun f hf => ?_, hkept.total ▸ hkept.bounded.1, hkept.bounded.2⟩, fun herror hcanceled => ?_⟩
  · exact length_of_mem_blocks (by decide) (received c.w.log) f (hkept.within.subset (List.mem_append_left _ hf))
  · have hwhole := hkept.whole herror (.inr hcanceled)
    refine ⟨hwhole, fun hfinished => ?_⟩
    obtain ⟨-, hqueue, hrest⟩ := hkept.finished herror hfinished
    have hflat := flatten_blocks (n := frameBytes) (by decide) (received c.w.log)
    rw [← (hkept.framer herror).2, hrest, List.append_nil, ← hwhole, hqueue, List.append_nil] at hflat
    exact hflat

namespace Example

/-- A frame and a half, in two chunks. -/
def chunks : List Bytes := [List.replicate 960 0, List.replicate 320 1]

/-- A recording of two frames: it is started, received, handed out and complete. The second chunk comes while the first
poll asks the worker. -/
def recording : List (Concurrent.Input Answer Method) :=
  [.begin (.start (some "node")), .reply 0 .done, .reply 0 .done, .reply 0 .done, .reply 0 .done,
    .begin (.receive chunks[0]?), .reply 1 .done, .begin .poll, .reply 2 .done,
    .begin (.receive chunks[1]?), .reply 3 .done, .reply 2 .done, .reply 2 .done,
    .begin .poll, .reply 4 .done, .reply 4 (.result (.result ⟨.success, some [], ""⟩)), .reply 4 .done]

/-- An act that is no call of `cancel`. -/
def keeps : DAct → Bool
  | .invoke .cancel => false
  | _ => true

/-- A recording that is complete, two frames long. -/
def whole (c : Config PipeWireCapture Op Answer Exc Method Value) : Bool :=
  c.w.st.error = none && c.w.st.framer.state = .finished && c.w.log.all (fun e => keeps e.act) && (handed c.w.log).length = 2

theorem recorded : ∃ c, Concurrent.Reachable body .new c ∧ whole c = true :=
  Concurrent.Reachable.of_run body .new recording whole (by decide +kernel)

end Example

/-- A whole recording. -/
theorem stream_in_order_run : ∃ c, Concurrent.Reachable body .new c ∧ (handed c.w.log).length = 2 ∧
    (handed c.w.log).flatten = received c.w.log := by
  obtain ⟨c, hc, hx⟩ := Example.recorded
  simp only [Example.whole, Bool.and_eq_true, decide_eq_true_eq, List.all_eq_true] at hx
  obtain ⟨⟨⟨herror, hfinished⟩, hkeeps⟩, hlength⟩ := hx
  have hcanceled : ¬ Canceled c.w.log := fun ⟨e, he, hact⟩ => by
    have hkeep := hkeeps e he
    rw [hact] at hkeep
    cases hkeep
  exact ⟨c, hc, hlength, ((stream_in_order hc).2 herror hcanceled).2 hfinished⟩

end Device

end Arhugula
