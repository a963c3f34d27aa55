import Arhugula.Spec.Transcription

/-!
# What a transcription job owns

The call of `start` that takes the job is the only one that starts the worker (`Kept.only`), and until it ends no result
is there (`Kept.early`): `poll` has one of the worker only where the start went on, and then none is set aside.
`cancel` closes the job before anything else, and the one step in which `poll` hands out the worker's result is one in
which the job was open; so one result is handed out, and none after a cancel.

A job whose cleanup is proven has no worker and will have none, or its worker was reaped (`Settled`).
-/

namespace Arhugula

namespace Transcribe

open Reentrant Concurrent Process

variable {K : Worker}

/-- A world of a job. -/
abbrev TWorld (K : Worker) := World (Job K) Op (Answer K) Exc (Method K) (Option TranscriptResult)

/-- A log entry of a job. -/
abbrev TEntry (K : Worker) := Entry (Job K) Op (Answer K) Exc (Method K) (Option TranscriptResult)

/-- An act of a call. -/
abbrev TAct (K : Worker) := Act Op (Answer K) Exc (Method K) (Option TranscriptResult)

/-! ## What a log shows -/

/-- The result that a call hands out. -/
def resultOf : TAct K → Option TranscriptResult
  | .ret (.ok result) => result
  | _ => none

/-- **The results that were handed out.** -/
def results (log : List (TEntry K)) : List TranscriptResult := log.filterMap fun e => resultOf e.act

/-- The call has taken the job: it makes the worker. -/
def Starter (i : ℕ) (log : List (TEntry K)) : Prop := ∃ e ∈ log, e.frame = i ∧ e.act = .call .factory

/-- The call has returned. -/
def Returned (i : ℕ) (log : List (TEntry K)) : Prop := ∃ e ∈ log, e.frame = i ∧ ∃ r, e.act = .ret r

/-- The call that took the job has returned. -/
def Done (log : List (TEntry K)) : Prop := ∃ i, Starter i log ∧ Returned i log

/-- It is a call of the method. -/
def Calls (i : ℕ) (m : Method K) (log : List (TEntry K)) : Prop := ∃ e ∈ log, e.frame = i ∧ e.act = .invoke m

/-! ## What holds of every log -/

/-- The worker does not run and will not: it is spent. -/
def Over (j : Job K) : Prop := K.running j.worker = false ∧ K.spent j.worker

/-- **Nothing of the job will run**: it was closed before it was started, or its worker was reaped. -/
def Settled (j : Job K) : Prop := (j.closed = true ∧ j.started = false) ∨ Over j

/-- How a job goes on. -/
structure Later (a b : Job K) : Prop where
  closed : a.closed = true → b.closed = true
  started : a.started = true → b.started = true
  shut : a.closed = true → a.started = false → b.started = false
  owned : a.owned = true → b.owned = true
  spent : K.spent a.worker → K.spent b.worker
  finished : Over a → Over b

theorem Later.refl (j : Job K) : Later j j := ⟨id, id, fun _ => id, id, id, id⟩

theorem Later.trans {a b c : Job K} (h : Later a b) (h' : Later b c) : Later a c where
  closed ha := h'.closed (h.closed ha)
  started ha := h'.started (h.started ha)
  shut hc hs := h'.shut (h.closed hc) (h.shut hc hs)
  owned ha := h'.owned (h.owned ha)
  spent ha := h'.spent (h.spent ha)
  finished ha := h'.finished (h.finished ha)

theorem Settled.later {a b : Job K} (h : Settled a) (hl : Later a b) : Settled b := by
  rcases h with ⟨hc, hs⟩ | h
  · exact .inl ⟨hl.closed hc, hl.shut hc hs⟩
  · exact .inr (hl.finished h)

/-- **What is owed of an entry**: the job stays closed, a cancel closed it, and a success was handed out by a call that
began before. -/
structure Sequel (e : TEntry K) (older : List (TEntry K)) : Prop where
  closed : ∀ e' ∈ older, e'.st.closed = true → e.st.closed = true
  canceled : ∀ v, e.act = .ret (.ok v) → Calls e.frame .cancel older → e.st.closed = true
  success : ∀ r, e.act = .ret (.ok (some r)) → r.status = .success → ∀ e' ∈ older, e'.frame = e.frame →
    e'.st.closed = false

/-- A result that is set aside is one. -/
def aside (j : Job K) : ℕ := if j.pending.isSome then 1 else 0

/-- **The invariant.** -/
structure Kept (w : TWorld K) : Prop where
  later : ∀ e ∈ w.log, Later e.st w.st
  proven : ∀ e ∈ w.log, e.st.cleaned = some true → Settled w.st
  settled : w.st.cleaned = some true → Settled w.st
  fresh : w.st.started = false → w.st.owned = false ∧ w.st.worker = K.fresh
  begun : ∀ i, Starter i w.log → w.st.started = true
  only : ∀ i j, Starter i w.log → Starter j w.log → i = j
  early : ¬ Done w.log → results w.log = [] ∧ w.st.pending = none ∧ (w.st.closed = true ∨ K.quiet w.st.worker)
  late : results w.log ≠ [] ∨ w.st.pending.isSome = true → w.st.closed = true
  once : (results w.log).length + aside w.st ≤ 1
  failed : ∀ r, w.st.pending = some r → r.status ≠ .success
  sequel : Throughout Sequel w.log

/-- The rules of a job. -/
def rules : Shared.Rules (Job K) Op (Answer K) Exc (Method K) (Option TranscriptResult) where
  Inv := Kept
  Rel _ w w' := Later w.st w'.st
  refl _ w := Later.refl w.st
  trans := Later.trans

variable {w w' w₀ : TWorld K} {i : ℕ} {x : TAct K} {b : Bool} {m : Method K} {s : Job K}

/-! ## Entries -/

theorem Starter.push {j : ℕ} : Starter j (w.push i x).log ↔ (i = j ∧ x = .call .factory) ∨ Starter j w.log := by
  simp [Starter]

/-- A return makes no starter. -/
theorem Starter.ret {j : ℕ} {r : Except Exc (Option TranscriptResult)} :
    Starter j (w.push i (.ret r)).log ↔ Starter j w.log := by
  rw [Starter.push]
  exact or_iff_right fun hx => by cases hx.2

theorem Returned.push {j : ℕ} : Returned j (w.push i x).log ↔ (i = j ∧ ∃ r, x = .ret r) ∨ Returned j w.log := by
  simp [Returned]

theorem Calls.push {j : ℕ} : Calls j m (w.push i x).log ↔ (i = j ∧ x = .invoke m) ∨ Calls j m w.log := by
  simp [Calls]

theorem Done.push (h : Done w.log) : Done (w.push i x).log := by
  obtain ⟨j, hs, hr⟩ := h
  exact ⟨j, Starter.push.2 (.inr hs), Returned.push.2 (.inr hr)⟩

/-- The act hands nothing out, makes no worker and ends no call. -/
def Quiet (x : TAct K) : Prop := resultOf x = none ∧ x ≠ .call .factory ∧ ∀ r, x ≠ .ret r

theorem quiet_call {op : Op} (hop : op ≠ .factory) : Quiet (.call op : TAct K) := by
  refine ⟨rfl, fun h => ?_, fun r h => by cases h⟩
  cases h
  exact hop rfl

theorem quiet_reply (op : Op) (a : Answer K) : Quiet (.reply op a : TAct K) :=
  ⟨rfl, fun h => (by cases h), fun r h => by cases h⟩

theorem results_quiet (hx : resultOf x = none) : results (w.push i x).log = results w.log := by
  unfold results
  rw [World.push_log]
  exact List.filterMap_cons_none hx

theorem starter_quiet {j : ℕ} (hx : Quiet x) : Starter j (w.push i x).log ↔ Starter j w.log := by
  rw [Starter.push]
  exact or_iff_right fun h => hx.2.1 h.2

theorem returned_quiet {j : ℕ} (hx : Quiet x) : Returned j (w.push i x).log ↔ Returned j w.log := by
  rw [Returned.push]
  exact or_iff_right fun ⟨_, r, hr⟩ => hx.2.2 r hr

theorem done_quiet (hx : Quiet x) : Done (w.push i x).log ↔ Done w.log := by
  unfold Done
  simp only [starter_quiet hx, returned_quiet hx]

/-- Nothing is owed of an act that ends no call. -/
theorem Sequel.quiet (h : Kept w) (hx : Quiet x) : Sequel ⟨i, x, w.st⟩ w.log where
  closed e' he' := (h.later e' he').closed
  canceled _ hv := absurd hv (hx.2.2 _)
  success _ hr := absurd hr (hx.2.2 _)

/-- **An entry of a call that goes on.** -/
theorem Kept.push (h : Kept w) (hx : Quiet x) : Kept (w.push i x) where
  later e he := by
    rcases List.mem_cons.1 he with rfl | he
    · exact Later.refl w.st
    · exact h.later e he
  proven e he hc := by
    rcases List.mem_cons.1 he with rfl | he
    · exact h.settled hc
    · exact h.proven e he hc
  settled := h.settled
  fresh := h.fresh
  begun j hj := h.begun j ((starter_quiet hx).1 hj)
  only j k hj hk := h.only j k ((starter_quiet hx).1 hj) ((starter_quiet hx).1 hk)
  early hd := by
    rw [results_quiet hx.1]
    exact h.early fun hd' => hd ((done_quiet hx).2 hd')
  late hl := by
    rw [results_quiet hx.1] at hl
    exact h.late hl
  once := by
    rw [results_quiet hx.1]
    exact h.once
  failed := h.failed
  sequel := ⟨Sequel.quiet h hx, h.sequel⟩

/-- **A write** between two entries. -/
theorem Kept.put (h : Kept w) (hl : Later w.st s) (hsettled : s.cleaned = some true → Settled s)
    (hfresh : s.started = false → s.owned = false ∧ s.worker = K.fresh)
    (hquiet : ¬ Done w.log → s.closed = true ∨ K.quiet s.worker)
    (hpending : s.pending = w.st.pending ∨ s.pending = none) : Kept (w.put s) where
  later e he := (h.later e he).trans hl
  proven e he hc := (h.proven e he hc).later hl
  settled := hsettled
  fresh := hfresh
  begun j hj := hl.started (h.begun j hj)
  only := h.only
  early hd := by
    obtain ⟨hres, hpend, -⟩ := h.early hd
    refine ⟨hres, ?_, hquiet hd⟩
    rcases hpending with hp | hp
    · exact hp.trans hpend
    · exact hp
  late hlate := by
    refine hl.closed (h.late ?_)
    rcases hlate with hr | hp
    · exact .inl hr
    · rcases hpending with hp' | hp'
      · exact .inr (hp' ▸ hp)
      · rw [World.put_st, hp'] at hp
        cases hp
  once := by
    have hle : aside s ≤ aside w.st := by
      unfold aside
      rcases hpending with hp | hp
      · rw [hp]
      · rw [hp]
        exact Nat.zero_le _
    have := h.once
    show (results w.log).length + aside s ≤ 1
    omega
  failed r hr := by
    rcases hpending with hp | hp
    · exact h.failed r (hp ▸ hr)
    · rw [World.put_st, hp] at hr
      cases hr
  sequel := h.sequel

/-! ## A call that runs -/

/-- **What a call knows while it runs**: it has not returned, and whether it is the one that took the job. -/
structure Here (i : ℕ) (b : Bool) (m : Method K) (w₀ w : TWorld K) : Prop where
  kept : Kept w
  later : Later w₀.st w.st
  live : ¬ Returned i w.log
  starter : Starter i w.log ↔ b = true
  calls : ∀ m', Calls i m' w.log → m' = m

/-- The call that took the job has not returned, so nothing was handed out. -/
theorem Here.early (h : Here i true m w₀ w) : ¬ Done w.log := by
  rintro ⟨j, hj, hr⟩
  cases h.kept.only i j (h.starter.2 rfl) hj
  exact h.live hr

theorem Here.push (h : Here i b m w₀ w) (hx : Quiet x) (hm : ∀ m', x ≠ .invoke m') : Here i b m w₀ (w.push i x) where
  kept := h.kept.push hx
  later := h.later
  live hr := h.live ((returned_quiet hx).1 hr)
  starter := (starter_quiet hx).trans h.starter
  calls m' hm' := by
    rcases Calls.push.1 hm' with ⟨-, hact⟩ | hm'
    · exact absurd hact (hm m')
    · exact h.calls m' hm'

theorem Here.put (h : Here i b m w₀ w) (hl : Later w.st s) (hk : Kept (w.put s)) : Here i b m w₀ (w.put s) :=
  ⟨hk, h.later.trans hl, h.live, h.starter, h.calls⟩

theorem exists_meanwhile {P : TEntry K → Prop} (hw : Shared.Meanwhile rules i w w') :
    (∃ e ∈ w'.log, e.frame = i ∧ P e) ↔ ∃ e ∈ w.log, e.frame = i ∧ P e := by
  obtain ⟨-, new, hl, hn⟩ := hw
  rw [hl]
  constructor
  · rintro ⟨e, he, hi, hP⟩
    rcases List.mem_append.1 he with he | he
    · exact absurd hi (hn e he)
    · exact ⟨e, he, hi, hP⟩
  · rintro ⟨e, he, hP⟩
    exact ⟨e, List.mem_append_right _ he, hP⟩

/-- **The others leave what a call knows of itself.** -/
theorem Here.meanwhile (h : Here i b m w₀ w) (hw : Shared.Meanwhile rules i w w') (hk : Kept w') : Here i b m w' w' where
  kept := hk
  later := Later.refl _
  live hr := h.live ((exists_meanwhile hw).1 hr)
  starter := (exists_meanwhile hw).trans h.starter
  calls m' hm' := h.calls m' ((exists_meanwhile hw).1 hm')

theorem Here.leaves (h : Here i b m w₀ w) : Shared.Leaves rules i w₀ w := ⟨h.kept, fun _ _ => h.later⟩

theorem Done.meanwhile (h : Done w.log) (hw : Shared.Meanwhile rules i w w') : Done w'.log := by
  obtain ⟨j, ⟨e, he, hs⟩, ⟨e', he', hr⟩⟩ := h
  exact ⟨j, ⟨e, hw.mem he, hs⟩, ⟨e', hw.mem he', hr⟩⟩

/-- **A callback**, at which the others may go on. -/
theorem ask_runs {op : Op} {Q : Except Exc (Answer K) → TWorld K → TWorld K → Prop} (h : Here i b m w₀ w)
    (hop : op ≠ .factory)
    (hQ : ∀ w' a, Later w.st w'.st → (Done w.log → Done w'.log) → Here i b m w' (w'.push i (.reply op a)) →
      Q (.ok a) w' (w'.push i (.reply op a))) :
    Shared.Runs rules i (Prog.ask op) Q w₀ w := by
  have hcall := h.push (x := .call op) (quiet_call hop) fun m' hx => by cases hx
  refine ⟨hcall.leaves, fun w' hw hk a => hQ w' a hw.rel (fun hd => hd.push.meanwhile hw) ?_⟩
  exact (hcall.meanwhile hw hk).push (quiet_reply op a) fun m' hx => by cases hx

theorem turn_runs {op : Op} {Q : Except Exc Unit → TWorld K → TWorld K → Prop} (h : Here i b m w₀ w)
    (hop : op ≠ .factory)
    (hQ : ∀ w₁ w', Later w.st w'.st → (Done w.log → Done w'.log) → Here i b m w₁ w' → Q (.ok ()) w₁ w') :
    Shared.Runs rules i (turn op) Q w₀ w := by
  unfold turn
  rw [Shared.runs_bind]
  exact ask_runs h hop fun w' a hl hd h' => hQ _ _ hl (fun hd' => (hd hd').push) h'

/-! ## The writes -/

theorem Kept.close (h : Kept w) : Kept (w.put w.st.close) ∧ Later w.st w.st.close := by
  have hl : Later w.st w.st.close := ⟨fun _ => rfl, id, fun _ => id, id, id, id⟩
  exact ⟨h.put hl (fun hc => (h.settled hc).later hl) h.fresh (fun _ => .inl rfl) (.inr rfl), hl⟩

/-- The end of a cancel, which knows that the job is settled where it says so. -/
theorem Kept.clean (h : Kept w) {v : Bool} (hc : w.st.closed = true) (hv : v = true → Settled w.st) :
    Kept (w.put (w.st.clean v)) ∧ Later w.st (w.st.clean v) := by
  have hl : Later w.st (w.st.clean v) := ⟨id, id, fun _ => id, id, id, id⟩
  refine ⟨h.put hl (fun hv' => ?_) h.fresh (fun _ => .inl hc) (.inl rfl), hl⟩
  exact (hv (Option.some.inj hv')).later hl

/-- **The worker does something**: what was over stays so, and it has no result before it may. -/
theorem Kept.worker (h : Kept w) {s' : K.State} (ho : w.st.owned = true)
    (hspent : K.spent w.st.worker → K.spent s') (hover : Over w.st → K.running s' = false)
    (hquiet : ¬ Done w.log → w.st.closed = true ∨ K.quiet s') : Kept (w.put (w.st.put s')) ∧ Later w.st (w.st.put s') := by
  have hl : Later w.st (w.st.put s') := ⟨id, id, fun _ => id, id, hspent, fun ha => ⟨hover ha, hspent ha.2⟩⟩
  refine ⟨h.put hl (fun hc => (h.settled hc).later hl) (fun hs => ?_) hquiet (.inl rfl), hl⟩
  rw [(h.fresh hs).1] at ho
  cases ho

/-! ## Cancels -/

/-- What the worker gave, or raised. -/
theorem give_runs {α : Type} {given : Except Raise α} {Q : Except Exc α → TWorld K → TWorld K → Prop}
    (hok : ∀ a, given = .ok a → Q (.ok a) w₀ w) (herror : ∀ e, given = .error e → Q (.error (.of e)) w₀ w) :
    Shared.Runs rules i (give given) Q w₀ w := by
  cases given with
  | ok a => exact hok a rfl
  | error e => exact herror e rfl

theorem system_runs {op : Op} {Q : Except Exc K.System → TWorld K → TWorld K → Prop} (h : Here i b m w₀ w)
    (hop : op ≠ .factory) (hok : ∀ o w₁ w', Later w.st w'.st → Here i b m w₁ w' → Q (.ok o) w₁ w')
    (herror : ∀ e w₁ w', Later w.st w'.st → Here i b m w₁ w' → Q (.error e) w₁ w') :
    Shared.Runs rules i (system op) Q w₀ w := by
  unfold system
  rw [Shared.runs_bind]
  refine ask_runs h hop fun w₁ a hl₁ _ h₁ => ?_
  cases a with
  | system o => exact hok o _ _ hl₁ h₁
  | raised e => exact herror _ _ _ hl₁ h₁
  | done => exact herror _ _ _ hl₁ h₁

/-- What a cancel of the worker ends in: where it gives a clean result the worker is over. -/
def Ceased (i : ℕ) (b : Bool) (m : Method K) (r : Except Exc Raw) (w₀ w : TWorld K) : Prop :=
  w.st.closed = true ∧ Here i b m w₀ w ∧ ∀ raw, r = .ok raw → raw.clean = true → Over w.st

theorem awaitWorker_runs (h : Here i b m w₀ w) (hc : w.st.closed = true) (ho : w.st.owned = true)
    (hs : K.spent w.st.worker) : Shared.Runs rules i awaitWorker (Ceased i b m) w₀ w := by
  unfold awaitWorker
  rw [Shared.runs_bind]
  refine system_runs h (by decide) (fun o w₁ w₂ hl₂ h₂ => ?_) fun e w₁ w₂ hl₂ h₂ => ?_
  · simp only [Shared.runs_bind, Shared.runs_read, Shared.runs_write, id]
    have hc₂ := hl₂.closed hc
    obtain ⟨hk, hl⟩ := h₂.kept.worker (hl₂.owned ho) (K.spent_await o _) (fun ha => K.idle_await o _ ha.1)
      fun _ => .inl hc₂
    refine give_runs (fun raw hraw => ⟨hc₂, h₂.put hl hk, fun raw' hr hclean => ?_⟩)
      fun e he => ⟨hc₂, h₂.put hl hk, fun raw' hr => by cases hr⟩
    cases hr
    exact ⟨K.await_reaped o _ raw hraw hclean, K.spent_await o _ (hl₂.spent hs)⟩
  · exact ⟨hl₂.closed hc, h₂, fun raw hr => by cases hr⟩

theorem cancelWorker_runs (h : Here i b m w₀ w) (hc : w.st.closed = true) (ho : w.st.owned = true) :
    Shared.Runs rules i cancelWorker (Ceased i b m) w₀ w := by
  unfold cancelWorker
  rw [Shared.runs_bind]
  refine turn_runs h (by decide) fun w₁ w₂ hl₂ _ h₂ => ?_
  simp only [Shared.runs_bind, Shared.runs_read, Shared.runs_write, id]
  have hc₂ := hl₂.closed hc
  have ho₂ := hl₂.owned ho
  obtain ⟨hk, hl⟩ := h₂.kept.worker ho₂ (fun _ => K.spent_cancel _) (fun ha => K.idle_cancel _ ha.1) fun _ => .inl hc₂
  have h₃ := h₂.put hl hk
  split
  · rename_i given hgiven
    refine give_runs (fun raw hraw => ⟨hc₂, h₃, fun raw' hr hclean => ?_⟩) fun e he => ⟨hc₂, h₃, fun raw' hr => by cases hr⟩
    cases hr
    subst hraw
    exact ⟨K.cancel_reaped _ raw hgiven hclean, K.spent_cancel _⟩
  · exact awaitWorker_runs h₃ hc₂ ho₂ (K.spent_cancel _)

/-- **A handler of exceptions.** -/
theorem onException_runs {α : Type} {p e : JM (K := K) α} {Q : Except Exc α → TWorld K → TWorld K → Prop}
    (hp : Shared.Runs rules i p (fun r w₁ w' => match r with
      | .ok a => Q (.ok a) w₁ w'
      | .error x => if x = .interrupt then Q (.error x) w₁ w' else Shared.Runs rules i e Q w₁ w') w₀ w) :
    Shared.Runs rules i (onException p e) Q w₀ w := by
  unfold onException
  rw [Shared.runs_catching]
  refine hp.mono fun r w₁ w' hr => ?_
  cases r with
  | ok a => exact hr
  | error x =>
    dsimp only at hr ⊢
    split
    · rename_i hx
      rw [if_pos hx] at hr
      exact hr
    · rename_i hx
      rw [if_neg hx] at hr
      exact hr

/-- **A cancel** closes the job first. What it records is so. -/
theorem cancel_runs {Q : Except Exc Unit → TWorld K → TWorld K → Prop} (h : Here i b m w₀ w)
    (hQ : ∀ r w₁ w', w'.st.closed = true → Here i b m w₁ w' → Q r w₁ w') :
    Shared.Runs rules i cancel Q w₀ w := by
  unfold cancel
  rw [Shared.runs_bind]
  refine turn_runs h (by decide) fun w₁ w₂ _ _ h₂ => ?_
  simp only [Shared.runs_bind, Shared.runs_read, Shared.runs_write, id]
  obtain ⟨hk, hl⟩ := h₂.kept.close
  have h₃ := h₂.put hl hk
  have hc₃ : w₂.st.close.closed = true := rfl
  -- the second step, where what was found out is recorded
  have hrecord : ∀ {w₄ w₅ : TWorld K} {v : Bool}, w₅.st.closed = true → Here i b m w₄ w₅ →
      (v = true → Settled w₅.st) →
      Shared.Runs rules i (do
        turn .lock
        if w₂.st.close.owned || !w₂.st.close.started then Prog.write (.clean v) else pure ()) Q w₄ w₅ := by
    intro w₄ w₅ v hc₅ h₅ hv
    rw [Shared.runs_bind]
    refine turn_runs h₅ (by decide) fun w₆ w₇ hl₇ _ h₇ => ?_
    have hc₇ := hl₇.closed hc₅
    dsimp only
    split
    · obtain ⟨hk₈, hl₈⟩ := h₇.kept.clean hc₇ fun hvt => (hv hvt).later hl₇
      exact hQ _ _ _ hc₇ (h₇.put hl₈ hk₈)
    · exact hQ _ _ _ hc₇ h₇
  show Shared.Runs rules i (if w₂.st.close.cleaned ≠ none then pure () else _) _ _ _
  split
  · exact hQ _ _ _ hc₃ h₃
  · split
    · rename_i ho
      rw [Shared.runs_bind]
      refine onException_runs ?_
      show Shared.Runs _ _ (cancelWorker >>= fun raw => pure raw.clean) _ _ _
      rw [Shared.runs_bind]
      refine (cancelWorker_runs h₃ hc₃ ho).mono fun r w₄ w₅ hr => ?_
      obtain ⟨hc₅, h₅, hover⟩ := hr
      cases r with
      | ok raw => exact hrecord hc₅ h₅ fun hv => .inr (hover raw rfl hv)
      | error x =>
        dsimp only
        split
        · exact hQ _ _ _ hc₅ h₅
        · exact hrecord hc₅ h₅ fun hv => by cases hv
    · refine hrecord hc₃ h₃ fun hv => .inl ⟨hc₃, ?_⟩
      simpa using hv

/-! ## The ends of a call -/

/-- **A call that ends without a result.** -/
theorem Here.returns (h : Here i b m w₀ w) {r : Except Exc (Option TranscriptResult)} (hr : resultOf (.ret r : TAct K) = none)
    (hm : m = .cancel → w.st.closed = true) : Shared.Ends rules i r w₀ w := by
  have hstarter : ∀ j, Starter j (w.push i (.ret r)).log ↔ Starter j w.log := fun _ => Starter.ret
  refine ⟨⟨fun e he => ?_, fun e he hc => ?_, h.kept.settled, h.kept.fresh, fun j hj => h.kept.begun j ((hstarter j).1 hj),
    fun j k hj hk => h.kept.only j k ((hstarter j).1 hj) ((hstarter k).1 hk), fun hd => ?_, fun hl => ?_, ?_, h.kept.failed,
    ⟨⟨fun e' he' => (h.kept.later e' he').closed, fun v hv hcalls => ?_, fun x hx => ?_⟩, h.kept.sequel⟩⟩,
    fun _ _ => h.later⟩
  · rcases List.mem_cons.1 he with rfl | he
    · exact Later.refl w.st
    · exact h.kept.later e he
  · rcases List.mem_cons.1 he with rfl | he
    · exact h.kept.settled hc
    · exact h.kept.proven e he hc
  · rw [results_quiet hr]
    exact h.kept.early fun hd' => hd hd'.push
  · rw [results_quiet hr] at hl
    exact h.kept.late hl
  · rw [results_quiet hr]
    exact h.kept.once
  · exact hm (h.calls _ hcalls).symm
  · cases hx
    cases hr

/-- **A call that hands a result out**: it is the first, and none is set aside. -/
theorem Here.gives (h : Here i b m w₀ w) (hm : m ≠ .cancel) {result : TranscriptResult} (hd : Done w.log)
    (hnone : results w.log = []) (hl : Later w.st s) (hk : Kept (w.put s)) (hc : s.closed = true) (hp : s.pending = none)
    (hsuccess : result.status = .success → w.st.closed = false) :
    Shared.Ends rules i (.ok (some result)) w₀ (w.put s) := by
  have hstarter : ∀ j, Starter j ((w.put s).push i (.ret (.ok (some result)))).log ↔ Starter j w.log := fun _ => Starter.ret
  have hresults : results ((w.put s).push i (.ret (.ok (some result)))).log = [result] := by
    show result :: results w.log = [result]
    rw [hnone]
  refine ⟨⟨fun e he => ?_, fun e he hcl => ?_, hk.settled, hk.fresh, fun j hj => hk.begun j ((hstarter j).1 hj),
    fun j k hj hk' => hk.only j k ((hstarter j).1 hj) ((hstarter k).1 hk'), fun hd' => absurd (Done.push (w := w.put s) hd) hd',
    fun _ => hc, ?_, hk.failed,
    ⟨⟨fun e' he' => (hk.later e' he').closed, fun v hv hcalls => ?_, fun x hx hs e' he' _ => ?_⟩, hk.sequel⟩⟩,
    fun _ _ => h.later.trans hl⟩
  · rcases List.mem_cons.1 he with rfl | he
    · exact Later.refl s
    · exact hk.later e he
  · rcases List.mem_cons.1 he with rfl | he
    · exact hk.settled hcl
    · exact hk.proven e he hcl
  · rw [hresults]
    show 1 + aside s ≤ 1
    unfold aside
    rw [hp]
    exact le_rfl
  · exact absurd (h.calls _ hcalls).symm hm
  · cases hx
    -- the job was open until now, so it was when the call began
    by_contra hclosed
    have hopen := hsuccess hs
    rw [(h.kept.later e' he').closed (by simpa using hclosed)] at hopen
    cases hopen

/-- **The call that took the job ends**: what it leaves may be there. -/
theorem Here.finishes (h : Here i true m w₀ w) (hm : m ≠ .cancel) {r : Except Exc (Option TranscriptResult)}
    (hr : resultOf (.ret r : TAct K) = none) (hl : Later w.st s) (hsettled : s.cleaned = some true → Settled s)
    (hlate : s.pending.isSome = true → s.closed = true) (hfailed : ∀ x, s.pending = some x → x.status ≠ .success) :
    Shared.Ends rules i r w₀ (w.put s) := by
  have hstarter : ∀ j, Starter j ((w.put s).push i (.ret r)).log ↔ Starter j w.log := fun _ => Starter.ret
  have hmine : Starter i w.log := h.starter.2 rfl
  have hdone : Done ((w.put s).push i (.ret r)).log :=
    ⟨i, (hstarter i).2 hmine, Returned.push.2 (.inl ⟨rfl, r, rfl⟩)⟩
  obtain ⟨hnone, -, -⟩ := h.kept.early h.early
  have hresults : results ((w.put s).push i (.ret r)).log = [] := (results_quiet hr).trans hnone
  refine ⟨⟨fun e he => ?_, fun e he hcl => ?_, hsettled, fun hs => ?_, fun j hj => hl.started (h.kept.begun j ((hstarter j).1 hj)),
    fun j k hj hk => h.kept.only j k ((hstarter j).1 hj) ((hstarter k).1 hk), fun hd => absurd hdone hd, fun hlate' => ?_, ?_,
    hfailed, ⟨⟨fun e' he' => ((h.kept.later e' he').trans hl).closed, fun v hv hcalls => ?_, fun x hx => ?_⟩, h.kept.sequel⟩⟩,
    fun _ _ => h.later.trans hl⟩
  · rcases List.mem_cons.1 he with rfl | he
    · exact Later.refl s
    · exact (h.kept.later e he).trans hl
  · rcases List.mem_cons.1 he with rfl | he
    · exact hsettled hcl
    · exact (h.kept.proven e he hcl).later hl
  · have hstarted := hl.started (h.kept.begun i hmine)
    rw [World.push_st, World.put_st] at hs
    rw [hs] at hstarted
    cases hstarted
  · rw [hresults] at hlate'
    rcases hlate' with hne | hp
    · exact absurd rfl hne
    · exact hlate hp
  · rw [hresults]
    show 0 + aside s ≤ 1
    unfold aside
    split <;> decide
  · exact absurd (h.calls _ hcalls).symm hm
  · cases hx
    cases hr

/-! ## The calls -/

/-- How `start` and `cancel` end: they give nothing. -/
def Quits (i : ℕ) (r : Except Exc Unit) (w₀ w : TWorld K) : Prop :=
  Shared.Ends rules i (match r with
    | .ok _ => .ok (none : Option TranscriptResult)
    | .error e => .error e) w₀ w

theorem Here.quits (h : Here i b m w₀ w) (hm : m = .cancel → w.st.closed = true) (r : Except Exc Unit) :
    Quits i r w₀ w := by
  refine h.returns ?_ hm
  cases r <;> rfl

/-- What is set aside where the start failed. -/
theorem Here.setsAside (h : Here i true m w₀ w) (hm : m ≠ .cancel) (hc : w.st.closed = true) {result : TranscriptResult}
    (hs : result.status ≠ .success) : Quits i (.ok ()) w₀ (w.put (w.st.await (some result))) := by
  have hl : Later w.st (w.st.await (some result)) := ⟨id, id, fun _ => id, id, id, id⟩
  refine h.finishes hm rfl hl (fun hcl => (h.kept.settled hcl).later hl) (fun _ => hc) fun x hx => ?_
  cases hx
  exact hs

/-- No handler is for it. -/
def Passes (r : Except Exc Unit) : Prop := ∀ e, r = .error e → e = .interrupt

/-- The call that took the job goes on to its handler, or ends. -/
theorem Here.either {Q : Except Exc Unit → TWorld K → TWorld K → Prop} (h : Here i true m w₀ w) (hm : m ≠ .cancel)
    (hends : ∀ r w₁ w', Passes r → Quits i r w₁ w' → Q r w₁ w')
    (hraised : ∀ e w₁ w', e ≠ .interrupt → Here i true m w₁ w' → Q (.error e) w₁ w') (r : Except Exc Unit) : Q r w₀ w := by
  by_cases hr : Passes r
  · exact hends r w₀ w hr (h.quits (fun hmc => absurd hmc hm) r)
  · cases r with
    | ok u => exact absurd (fun e he => by cases he) hr
    | error e =>
      refine hraised e w₀ w (fun he => hr fun e' he' => ?_) h
      cases he'
      exact he

/-- **The worker is started**, by the call that took the job. -/
theorem startWorker_runs {data : Bytes} {Q : Except Exc Unit → TWorld K → TWorld K → Prop} (h : Here i true m w₀ w)
    (hm : m ≠ .cancel) (ho : w.st.owned = true) (hends : ∀ r w₁ w', Passes r → Quits i r w₁ w' → Q r w₁ w')
    (hraised : ∀ e w₁ w', e ≠ .interrupt → Here i true m w₁ w' → Q (.error e) w₁ w') :
    Shared.Runs rules i (startWorker data) Q w₀ w := by
  unfold startWorker
  rw [Shared.runs_bind]
  have hop : Op.start data ≠ .factory := fun hx => by cases hx
  refine system_runs h hop (fun o w₁ w₂ hl₂ h₂ => ?_) fun e w₁ w₂ _ h₂ => ?_
  · simp only [Shared.runs_bind, Shared.runs_read, Shared.runs_write, id]
    -- a worker that is over is refused the start, and stays as it is
    have hspent : K.spent w₂.st.worker → (K.start o data w₂.st.worker).1 = w₂.st.worker := by
      intro hs
      rw [K.start_spent o data _ hs]
    have hl₃ : Later w₂.st (w₂.st.put (K.start o data w₂.st.worker).1) := by
      refine ⟨id, id, fun _ => id, id, fun hs => ?_, fun hs => ?_⟩
      · exact (hspent hs).symm ▸ hs
      · have hstate := hspent hs.2
        exact ⟨hstate.symm ▸ hs.1, hstate.symm ▸ hs.2⟩
    have hends' : ∀ r, Passes r → Q r w₁ (w₂.put (w₂.st.put (K.start o data w₂.st.worker).1)) := by
      intro r hr
      refine hends r _ _ hr (h₂.finishes hm ?_ hl₃ (fun hcl => (h₂.kept.settled hcl).later hl₃) (fun hp => ?_) h₂.kept.failed)
      · cases r <;> rfl
      · exact h₂.kept.late (.inr hp)
    refine give_runs (fun u _ => hends' (.ok u) fun e he => by cases he) fun e he => ?_
    cases e with
    | interrupt => exact hends' (.error .interrupt) fun e' he' => by cases he'; rfl
    | exception =>
      obtain ⟨hk₃, -⟩ := h₂.kept.worker (hl₂.owned ho) hl₃.spent (fun hs => (hl₃.finished hs).1) fun hd => by
        rcases (h₂.kept.early hd).2.2 with hc | hq
        · exact .inl hc
        · exact .inr (K.quiet_start o data _ hq he)
      exact hraised _ _ _ (by decide) (h₂.put hl₃ hk₃)
  · exact h₂.either hm hends hraised (.error e)

/-- The job is taken: it has no other call that makes a worker. -/
theorem Kept.takes (h : Kept w) (hs : w.st.started = true) (hnone : ∀ j, ¬ Starter j w.log) :
    Kept (w.push i (.call .factory)) where
  later e he := by
    rcases List.mem_cons.1 he with rfl | he
    · exact Later.refl w.st
    · exact h.later e he
  proven e he hc := by
    rcases List.mem_cons.1 he with rfl | he
    · exact h.settled hc
    · exact h.proven e he hc
  settled := h.settled
  fresh := h.fresh
  begun _ _ := hs
  only j k hj hk := by
    rcases Starter.push.1 hj with ⟨rfl, -⟩ | hj
    · rcases Starter.push.1 hk with ⟨rfl, -⟩ | hk
      · rfl
      · exact absurd hk (hnone k)
    · exact absurd hj (hnone j)
  early _ := h.early fun ⟨j, hj, _⟩ => hnone j hj
  late := h.late
  once := h.once
  failed := h.failed
  sequel := ⟨⟨fun e' he' => (h.later e' he').closed, fun _ hv => (by cases hv), fun _ hr => by cases hr⟩, h.sequel⟩

/-- **The worker is made and started.** -/
theorem launch_runs {pcm : Bytes} {Q : Except Exc Unit → TWorld K → TWorld K → Prop} (h : Here i false m w₀ w)
    (hm : m ≠ .cancel) (hs : w.st.started = true) (hnone : ∀ j, ¬ Starter j w.log)
    (hends : ∀ r w₁ w', Passes r → Quits i r w₁ w' → Q r w₁ w')
    (hraised : ∀ e w₁ w', e ≠ .interrupt → Here i true m w₁ w' → Q (.error e) w₁ w') :
    Shared.Runs rules i (launch pcm) Q w₀ w := by
  unfold launch
  rw [Shared.runs_bind, Shared.runs_ask]
  have hcall : Here i true m w₀ (w.push i (.call .factory)) := by
    refine ⟨h.kept.takes hs hnone, h.later, fun hr => ?_, ⟨fun _ => rfl, fun _ => Starter.push.2 (.inl ⟨rfl, rfl⟩)⟩,
      fun m' hm' => ?_⟩
    · rcases Returned.push.1 hr with ⟨-, r, hr⟩ | hr
      · cases hr
      · exact h.live hr
    · rcases Calls.push.1 hm' with ⟨-, hact⟩ | hm'
      · cases hact
      · exact h.calls m' hm'
  refine ⟨hcall.leaves, fun w₁ hw hk a => ?_⟩
  have h₁ := (hcall.meanwhile hw hk).push (quiet_reply .factory a) fun m' hx => by cases hx
  have hgo : Shared.Runs rules i (do
      turn .lock
      Prog.write .own
      let closed ← Prog.read (·.closed)
      if closed then cancel else startWorker (wav pcm)) Q w₁ (w₁.push i (.reply .factory a)) := by
    rw [Shared.runs_bind]
    refine turn_runs h₁ (by decide) fun w₂ w₃ _ _ h₃ => ?_
    simp only [Shared.runs_bind, Shared.runs_write, Shared.runs_read]
    have hl₃ : Later w₃.st w₃.st.own := ⟨id, id, fun _ => id, fun _ => rfl, id, id⟩
    have hk₃ : Kept (w₃.put w₃.st.own) := by
      refine h₃.kept.put hl₃ (fun hc => (h₃.kept.settled hc).later hl₃) (fun hs₃ => ?_)
        (fun hd => (h₃.kept.early hd).2.2) (.inl rfl)
      have hstarted := h₃.kept.begun i (h₃.starter.2 rfl)
      rw [show w₃.st.own.started = w₃.st.started from rfl, hstarted] at hs₃
      cases hs₃
    have h₄ := h₃.put hl₃ hk₃
    split
    · exact cancel_runs h₄ fun r w₅ w₆ _ h₆ => h₆.either hm hends hraised r
    · exact startWorker_runs h₄ hm rfl hends hraised
  cases a with
  | raised e => exact h₁.either hm hends hraised (.error (.of e))
  | system o => exact hgo
  | done => exact hgo

/-- **`start`.** Only the call that finds the job new makes a worker. -/
theorem start_runs (pcm : Option Bytes) (generation : Option ℤ) (h : Here i false m w₀ w) (hm : m ≠ .cancel) :
    Shared.Runs rules i (start pcm generation) (Quits i) w₀ w := by
  have hquits : ∀ {w₁ w₂ : TWorld K} (r : Except Exc Unit), Here i false m w₁ w₂ → Quits i r w₁ w₂ :=
    fun r h' => h'.quits (fun hmc => absurd hmc hm) r
  unfold start
  cases pcm with
  | none => exact hquits (.error .pcm) h
  | some pcm =>
    dsimp only
    split
    · exact hquits (.error .pcm) h
    cases generation with
    | none => exact hquits (.error .generation) h
    | some generation =>
      dsimp only
      split
      · exact hquits (.error .generation) h
      rw [Shared.runs_bind]
      refine turn_runs h (by decide) fun w₁ w₂ _ _ h₂ => ?_
      simp only [Shared.runs_bind, Shared.runs_read, id]
      split
      · exact hquits (.error .singleUse) h₂
      rename_i hnew
      obtain ⟨hstarted, hclosed⟩ : w₂.st.started = false ∧ w₂.st.closed = false := by simpa using hnew
      rw [Shared.runs_bind, Shared.runs_write]
      have hl₃ : Later w₂.st (w₂.st.begin generation) := by
        refine ⟨id, fun _ => rfl, fun hc => ?_, id, id, id⟩
        rw [hclosed] at hc
        cases hc
      have hk₃ : Kept (w₂.put (w₂.st.begin generation)) :=
        h₂.kept.put hl₃ (fun hc => (h₂.kept.settled hc).later hl₃) (fun hs => by cases hs)
          (fun hd => (h₂.kept.early hd).2.2) (.inl rfl)
      have hnone : ∀ j, ¬ Starter j w₂.log := by
        intro j hj
        have hs := h₂.kept.begun j hj
        rw [hstarted] at hs
        cases hs
      refine onException_runs (launch_runs (h₂.put hl₃ hk₃) hm rfl hnone (fun r w₄ w₅ hr hq => ?_) fun e w₄ w₅ he h₅ => ?_)
      · cases r with
        | ok u => exact hq
        | error e =>
          dsimp only
          rw [if_pos (hr e rfl)]
          exact hq
      · dsimp only
        rw [if_neg he, Shared.runs_bind]
        -- the job is canceled, and the failure is set aside
        refine cancel_runs h₅ fun r w₆ w₇ hc₇ h₇ => ?_
        cases r with
        | error x => exact h₇.quits (fun hmc => absurd hmc hm) (.error x)
        | ok u =>
          dsimp only
          rw [Shared.runs_bind]
          refine turn_runs h₇ (by decide) fun w₈ w₉ hl₉ _ h₉ => ?_
          simp only [Shared.runs_bind, Shared.runs_read, Shared.runs_write]
          refine h₉.setsAside hm (hl₉.closed hc₇) ?_
          split <;> exact fun hs => by cases hs

/-- **`poll`.** It hands out what is set aside, or what the worker gave, where the job is open still. -/
theorem poll_runs (h : Here i false m w₀ w) (hm : m ≠ .cancel) :
    Shared.Runs rules i poll (Shared.Ends rules i) w₀ w := by
  have hnothing : ∀ {w₁ w₂ : TWorld K}, Here i false m w₁ w₂ → Shared.Ends rules i (.ok none) w₁ w₂ :=
    fun h' => h'.returns rfl fun hmc => absurd hmc hm
  unfold poll
  rw [Shared.runs_bind]
  refine turn_runs h (by decide) fun w₁ w₂ _ _ h₂ => ?_
  simp only [Shared.runs_bind, Shared.runs_read, id]
  split
  · rename_i hpending
    obtain ⟨result, hresult⟩ := Option.isSome_iff_exists.1 hpending
    have hc := h₂.kept.late (.inr hpending)
    have hl₃ : Later w₂.st (w₂.st.await none) := ⟨id, id, fun _ => id, id, id, id⟩
    have hk₃ : Kept (w₂.put (w₂.st.await none)) :=
      h₂.kept.put hl₃ (fun hcl => (h₂.kept.settled hcl).later hl₃) h₂.kept.fresh (fun _ => .inl hc) (.inr rfl)
    have hdone : Done w₂.log := by
      by_contra hd
      rw [(h₂.kept.early hd).2.1] at hpending
      cases hpending
    have hnone : results w₂.log = [] := by
      have honce := h₂.kept.once
      unfold aside at honce
      rw [if_pos hpending] at honce
      exact List.length_eq_zero_iff.1 (by omega)
    rw [hresult]
    exact h₂.gives hm hdone hnone hl₃ hk₃ hc rfl fun hs => absurd hs (h₂.kept.failed result hresult)
  split
  · exact hnothing h₂
  rename_i hopen
  obtain ⟨hc₂, ho₂⟩ : w₂.st.closed = false ∧ w₂.st.owned = true := by simpa using hopen
  rw [Shared.runs_bind]
  refine turn_runs h₂ (by decide) fun w₃ w₄ _ _ h₄ => ?_
  simp only [Shared.runs_bind, Shared.runs_read]
  obtain ⟨given, hgiven⟩ := K.poll_ok w₄.st.worker
  rw [hgiven]
  cases given with
  | none => exact hnothing h₄
  | some raw =>
    -- there is a result where the job was closed, or the start has gone on
    have hknown : w₄.st.closed = false → Done w₄.log := by
      intro hc
      by_contra hd
      rcases (h₄.kept.early hd).2.2 with hc' | hq
      · rw [hc] at hc'
        cases hc'
      · rw [K.quiet_poll _ hq] at hgiven
        cases hgiven
    dsimp only
    rw [Shared.runs_bind]
    refine turn_runs h₄ (by decide) fun w₅ w₆ hl₆ hd₆ h₆ => ?_
    simp only [Shared.runs_bind, Shared.runs_read, id]
    split
    · exact hnothing h₆
    rename_i hc₆
    have hc₆ : w₆.st.closed = false := by simpa using hc₆
    have hdone : Done w₆.log := by
      refine hd₆ (hknown ?_)
      by_contra hc
      rw [hl₆.closed (by simpa using hc)] at hc₆
      cases hc₆
    have hempty : results w₆.log = [] ∧ w₆.st.pending = none := by
      constructor
      · by_contra hne
        rw [h₆.kept.late (.inl hne)] at hc₆
        cases hc₆
      · by_contra hp
        rw [h₆.kept.late (.inr (Option.isSome_iff_ne_none.2 hp))] at hc₆
        cases hc₆
    have hl₇ : Later w₆.st (w₆.st.finish raw.clean) := by
      refine ⟨fun _ => rfl, id, fun hc => ?_, id, id, id⟩
      rw [hc₆] at hc
      cases hc
    have hk₇ : Kept (w₆.put (w₆.st.finish raw.clean)) := by
      refine h₆.kept.put hl₇ (fun hcl => ?_) h₆.kept.fresh (fun hd => absurd hdone hd) (.inl rfl)
      have hover : Over w₄.st := K.poll_reaped _ raw hgiven (Option.some.inj hcl)
      exact .inr (hl₇.finished (hl₆.finished hover))
    exact h₆.gives hm hdone hempty.1 hl₇ hk₇ rfl hempty.2 fun _ => hc₆

/-- Something happens to the worker. -/
theorem event_runs (o : K.System) (h : Here i false m w₀ w) (hm : m ≠ .cancel) :
    Shared.Runs rules i (body (.event o)) (Shared.Ends rules i) w₀ w := by
  show Shared.Runs rules i (Prog.write _ >>= fun _ => pure none) _ _ _
  rw [Shared.runs_bind, Shared.runs_write]
  dsimp only
  split
  · rename_i ho
    have hquiet : ¬ Done w.log → w.st.closed = true ∨ K.quiet (K.event o w.st.worker) := by
      intro hd
      rcases (h.kept.early hd).2.2 with hc | hq
      · exact .inl hc
      · exact .inr (K.quiet_event o _ hq)
    obtain ⟨hk, hl⟩ := h.kept.worker ho (K.spent_event o _) (fun ha => K.idle_event o _ ha.1) hquiet
    exact (h.put hl hk).returns rfl fun hmc => absurd hmc hm
  · exact h.returns rfl fun hmc => absurd hmc hm

theorem Kept.enter (h : Kept w) (m : Method K) : Kept (w.enter m) := by
  have hk := h.push (i := w.next) (x := .invoke m) ⟨rfl, fun hx => (by cases hx), fun r hx => by cases hx⟩
  exact ⟨hk.later, hk.proven, hk.settled, hk.fresh, hk.begun, hk.only, hk.early, hk.late, hk.once, hk.failed, hk.sequel⟩

/-- **Every body runs so.** -/
theorem bodies : Shared.Bodies (K := rules) (body (K := K)) where
  crash i w h := by
    have hk : Kept (w.push i .crash) := Kept.push h ⟨rfl, fun hx => (by cases hx), fun r hx => by cases hx⟩
    exact ⟨hk, fun _ _ => Later.refl w.st⟩
  method m w h hlog := by
    replace h : Kept w := h
    have hfresh : ∀ e ∈ w.log, e.frame ≠ w.next := fun e he => (hlog e he).ne
    have hhere : Here w.next false m w (w.enter m) := by
      refine ⟨h.enter m, Later.refl _, ?_, ⟨?_, fun hb => by cases hb⟩, ?_⟩
      · rintro ⟨e, he, hf, r, hr⟩
        rcases List.mem_cons.1 he with rfl | he
        · cases hr
        · exact hfresh e he hf
      · rintro ⟨e, he, hf, hact⟩
        rcases List.mem_cons.1 he with rfl | he
        · cases hact
        · exact absurd hf (hfresh e he)
      · rintro m' ⟨e, he, hf, hact⟩
        rcases List.mem_cons.1 he with rfl | he
        · cases hact
          rfl
        · exact absurd hf (hfresh e he)
    cases m with
    | start pcm generation =>
      show Shared.Runs rules _ (start pcm generation >>= fun _ => pure none) _ _ _
      rw [Shared.runs_bind]
      refine (start_runs pcm generation hhere (fun hx => by cases hx)).mono fun r w₁ w₂ hr => ?_
      cases r <;> exact hr
    | poll => exact poll_runs hhere fun hx => by cases hx
    | cancel =>
      show Shared.Runs rules _ (cancel >>= fun _ => pure none) _ _ _
      rw [Shared.runs_bind]
      refine cancel_runs hhere fun r w₁ w₂ hc h₂ => ?_
      cases r with
      | ok u => exact h₂.returns rfl fun _ => hc
      | error e => exact h₂.returns rfl fun _ => hc
    | event o => exact event_runs o hhere fun hx => by cases hx

/-! ## The results -/

/-- A configuration of a job. -/
abbrev TConfig (K : Worker) := Config (Job K) Op (Answer K) Exc (Method K) (Option TranscriptResult)

theorem Settled.idle (h : Kept w) (hs : Settled w.st) : K.running w.st.worker = false := by
  rcases hs with ⟨-, hstarted⟩ | hover
  · rw [(h.fresh hstarted).2]
    exact K.idle_fresh
  · exact hover.1

/-- **What a job owns.** In every run of its calls by any threads, with a worker that keeps the contract: where the
cleanup was proven, now or before, the worker does not run; one result is handed out at most; and a success is handed
out by no call that began after a cancel returned. -/
theorem job_owned {c : TConfig K} (h : Reachable body (Job.new : Job K) c) :
    (c.w.st.cleanupProven = true ∨ (∃ e ∈ c.w.log, e.st.cleanupProven = true) → K.running c.w.st.worker = false) ∧
    (results c.w.log).length ≤ 1 ∧
    ∀ newer given later begun mid canceled older r v m,
      c.w.log = newer ++ given :: (later ++ begun :: (mid ++ canceled :: older)) →
      given.act = .ret (.ok (some r)) → begun.frame = given.frame → begun.act = .invoke m →
      canceled.act = .ret (.ok v) → Calls canceled.frame .cancel older → r.status ≠ .success := by
  have hstart : Kept (Machine.start Job.new : TConfig K).w := by
    refine ⟨fun e he => (by cases he), fun e he => (by cases he), fun hc => (by cases hc), fun _ => ⟨rfl, rfl⟩,
      fun i hi => ?_, fun i j hi => ?_, fun _ => ⟨rfl, rfl, .inr K.quiet_fresh⟩, fun hl => ?_, Nat.zero_le _,
      fun r hr => (by cases hr), trivial⟩
    · obtain ⟨e, he, -⟩ := hi
      cases he
    · obtain ⟨e, he, -⟩ := hi
      cases he
    · rcases hl with hl | hl
      · exact absurd rfl hl
      · cases hl
  have hkept : Kept c.w := (Shared.Bodies.sound bodies hstart h).inv
  refine ⟨fun hproven => ?_, ?_, ?_⟩
  · refine Settled.idle hkept ?_
    rcases hproven with hc | ⟨e, he, hc⟩
    · exact hkept.settled (of_decide_eq_true hc)
    · exact hkept.proven e he (of_decide_eq_true hc)
  · have honce := hkept.once
    omega
  · intro newer given later begun mid canceled older r v m hlog hgiven hframe hbegun hcanceled hcalls hsuccess
    have hsequel := hkept.sequel
    rw [hlog] at hsequel
    -- the cancel closed the job, so it was closed when the call began
    have hclosed : canceled.st.closed = true := by
      have hlong : Throughout Sequel ((newer ++ given :: (later ++ begun :: mid)) ++ canceled :: older) := by
        simpa using hsequel
      exact hlong.at.canceled v hcanceled hcalls
    have hbegan : begun.st.closed = true := by
      have hlong : Throughout Sequel ((newer ++ given :: later) ++ begun :: (mid ++ canceled :: older)) := by
        simpa using hsequel
      exact hlong.at.closed canceled (by simp) hclosed
    have hopen := (hsequel.at).success r hgiven hsuccess begun (by simp) hframe
    rw [hopen] at hbegan
    cases hbegan

/-! ## A run -/

namespace Example

/-- Some speech. -/
def pcm : Bytes := List.replicate 640 1

/-- A start, whose worker gives a text. -/
def heard : List (Concurrent.Input (Answer OwnedProcess.worker) (Method OwnedProcess.worker)) :=
  [.begin (.start (some pcm) (some 3)), .reply 0 .done, .reply 0 .done, .reply 0 .done, .reply 0 (.system .spawned),
    .begin (.event (.ends .success [104, 105, 10] "process.ok" true)), .begin .poll, .begin .poll, .reply 2 .done,
    .reply 3 .done, .reply 2 .done, .reply 3 .done, .reply 2 .done, .begin .cancel, .reply 4 .done, .reply 3 .done]

end Example

/-- Two calls of `poll` find the text of the worker; one hands it out. The cleanup is proven. -/
theorem job_owned_heard :
    ∃ c : TConfig OwnedProcess.worker, Reachable body Job.new c ∧ c.w.st.cleanupProven = true ∧
      results c.w.log = [⟨3, .success, some "hi", "transcription.ok"⟩] ∧
        OwnedProcess.worker.running c.w.st.worker = false ∧ (results c.w.log).length ≤ 1 := by
  obtain ⟨c, hc, ht⟩ := Concurrent.Reachable.of_run (body (K := OwnedProcess.worker)) Job.new Example.heard
    (fun c => decide (c.w.st.cleanupProven = true ∧ results c.w.log = [⟨3, .success, some "hi", "transcription.ok"⟩]))
    (by decide +kernel)
  obtain ⟨hproven, hresults⟩ := of_decide_eq_true ht
  obtain ⟨hidle, honce, -⟩ := job_owned hc
  exact ⟨c, hc, hproven, hresults, hidle (.inl hproven), honce⟩

end Transcribe

end Arhugula
