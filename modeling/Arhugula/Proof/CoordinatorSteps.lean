import Arhugula.Proof.CoordinatorState

/-!
# What the parts of a turn leave

Each part of a turn has its rule: a check that passes has sampled the state that the activation was given (`check_holds`),
an observation is the next of its activation (`emit_holds`), a release ends the turn (`release_holds`), and what fails has
ended it too (`fail_holds`), whatever the callbacks do.
-/

namespace Arhugula

namespace Coordinate

open Reentrant Session

variable {C : Type} [DecidableEq C] {u : Setup C} {w w' : CWorld C} {i : ℕ} {ctx : List (ℕ × Op C)} {α : Type}
  {P N : Core C → List Effect → Prop} {M : List (CEntry C)} {g : ℕ} {p : Phase} {s q : Stage} {L : CWorld C → Prop}

/-! ## Authority -/

theorem keeps_now (hL : Steady u ctx i L) : Keeps (contract u) ctx i L (now : CM C Time) fun _ => True :=
  (hL.silent ⟨rfl, rfl, fun _ => rfl⟩).bind fun a _ => by cases a <;> first | exact keeps_pure trivial | exact keeps_throw

theorem keeps_sample (hL : Steady u ctx i L) : Keeps (contract u) ctx i L (sample : CM C (VoiceState C)) fun _ => True := by
  refine (hL.silent (⟨rfl, rfl, fun _ => rfl⟩ : Silent (.sample : Op C))).bind fun a _ => ?_
  cases a <;> first | exact Keeps.ite (fun _ => keeps_throw) fun _ => keeps_pure trivial | exact keeps_throw

theorem keeps_look (hL : Steady u ctx i L) : Keeps (contract u) ctx i L (look : CM C (Option (VoiceState C))) fun _ => True :=
  (keeps_read (P := fun _ => True) fun _ _ => trivial).bind fun _ _ =>
    Keeps.ite (fun _ => (keeps_sample hL).map fun _ _ => trivial) fun _ => keeps_pure trivial

theorem keeps_authority (hL : Steady u ctx i L) : Keeps (contract u) ctx i L (authority : CM C Bool) fun _ => True := by
  unfold authority
  refine (keeps_look hL).bind fun v _ => (keeps_read (P := fun _ => True) fun _ _ => trivial).bind fun st _ => ?_
  refine Keeps.ite (fun _ => ?_) fun _ => keeps_pure trivial
  cases st.generation with
  | none => exact keeps_pure trivial
  | some g => exact keeps_proves (hL.silent ⟨rfl, rfl, fun _ => rfl⟩)

theorem keeps_invalid (hL : Steady u ctx i L) : Keeps (contract u) ctx i L
    (Prog.write fun st : Coordinator C => { st with valid := false }) fun _ => True :=
  hL.volatile (fun _ => rfl) fun _ => rfl

theorem keeps_current (hL : Steady u ctx i L) : Keeps (contract u) ctx i L (current : CM C Bool) fun _ => True := by
  unfold current
  refine ((keeps_authority hL).catching fun _ => keeps_pure trivial).bind fun good _ => ?_
  exact Keeps.ite (fun _ => keeps_pure trivial) fun _ => (keeps_invalid hL).bind fun _ _ => keeps_pure trivial

theorem keeps_timely (hL : Steady u ctx i L) : Keeps (contract u) ctx i L (timely : CM C Unit) fun _ => True := by
  unfold timely
  refine (keeps_now hL).bind fun t _ => (keeps_read (P := fun _ => True) fun _ _ => trivial).bind fun st _ => ?_
  cases st.isLate t with
  | error e => exact keeps_throw
  | ok _ => exact keeps_pure trivial

theorem keeps_check (hL : Steady u ctx i L) : Keeps (contract u) ctx i L (check : CM C Unit) fun _ => True := by
  unfold check
  refine (keeps_current hL).bind fun good _ => Keeps.ite (fun _ => keeps_timely hL) fun _ => ?_
  exact (keeps_read (P := fun _ => True) fun _ _ => trivial).bind fun st _ => keeps_throw

theorem keeps_invalidate (hL : Steady u ctx i L) (g : ℕ) :
    Keeps (contract u) ctx i L (invalidate g : CM C Unit) fun _ => True := by
  unfold invalidate
  exact (keeps_perform (hL.silent ⟨rfl, rfl, fun _ => rfl⟩)).bind fun _ _ => keeps_write fun w h =>
    hL.owner _ h fun _ _ _ _ hc => by cases hc

theorem keeps_invalidateOwned (hL : Steady u ctx i L) :
    Keeps (contract u) ctx i L (invalidateOwned : CM C Unit) fun _ => True := by
  unfold invalidateOwned
  refine (keeps_read (P := fun _ => True) fun _ _ => trivial).bind fun generation _ => ?_
  cases generation with
  | none => exact keeps_pure trivial
  | some g => exact keeps_invalidate hL g

/-- A sample that the check passed, since when nothing was done to others. -/
def Accepted (g : ℕ) (log : List (CEntry C)) : Prop :=
  ∃ newer z older, log = newer ++ z :: older ∧ Sampled g z ∧ effects newer = [] ∧
    ∃ y ∈ newer, y.act = .reply (.accepts g) (.truth true)

/-- **What the check looks at**: the state that it finds is the last entry. -/
theorem look_holds {Q : Except Exc (Option (VoiceState C)) → CWorld C → Prop} (h : Known P M w)
    (hok : ∀ v w', Known P M w' → (∀ x, v = some x → ∃ older, w'.log = ⟨i, .reply .sample (.voice x), w'.st⟩ :: older) →
      Q (.ok v) w') (herr : ∀ e w', Known P M w' → Q (.error e) w') : Holds (contract u) ctx i look Q w := by
  unfold look
  rw [holds_bind, holds_read]
  dsimp only [id]
  split
  · unfold sample ask
    refine holds_bind.2 (holds_bind.2 (holds_bind.2 ?_))
    refine plain_ask (N := P) rfl h (fun hw => by cases hw) (fun a e he => by cases he) (fun _ _ hp => hp)
      fun a w₁ l h₁ hlog _ _ _ => ?_
    dsimp only
    cases a with
    | voice v =>
      dsimp only
      rw [holds_pure]
      dsimp only
      split
      · exact herr _ w₁ h₁
      · exact hok _ w₁ h₁ fun x hx => by
          cases hx
          exact ⟨_, hlog⟩
    | _ => exact herr _ w₁ h₁
  · exact hok none w h fun x hx => by cases hx

theorem authority_holds {Q : Except Exc Bool → CWorld C → Prop} (h : Known P M w) (hg : ∀ k E, P k E → k.generation = some g)
    (hok : ∀ good w', Known P M w' → (good = true → Accepted g w'.log) → Q (.ok good) w')
    (herr : ∀ e w', Known P M w' → Q (.error e) w') : Holds (contract u) ctx i authority Q w := by
  unfold authority
  refine holds_bind.2 (look_holds h (fun v w₁ h₁ hv => ?_) herr)
  dsimp only
  rw [holds_bind, holds_read]
  dsimp only [id]
  by_cases hstands : w₁.st.stands v = true
  · have hgeneration := hg _ _ h₁.holds
    rw [if_pos hstands, hgeneration]
    dsimp only
    -- the state that stands was sampled
    have hsome : ∃ x, v = some x := by
      unfold Coordinator.stands at hstands
      cases v with
      | some x => exact ⟨x, rfl⟩
      | none =>
        cases hsnapshot : w₁.st.snapshot with
        | none => simp [hsnapshot] at hstands
        | some y => simp [hsnapshot] at hstands
    obtain ⟨x, rfl⟩ := hsome
    obtain ⟨older, hlog⟩ := hv x rfl
    have hsampled : Sampled g (⟨i, .reply .sample (.voice x), w₁.st⟩ : CEntry C) := ⟨x, rfl, hstands, hgeneration⟩
    unfold proves ask
    refine holds_bind.2 (holds_bind.2 ?_)
    refine plain_ask (N := P) rfl h₁ (fun hw => by cases hw) (fun a e he => by cases he) (fun _ _ hp => hp)
      fun a w₂ l h₂ hlog₂ hl _ ha => ?_
    cases a with
    | truth b =>
      refine hok b w₂ h₂ fun hb => ?_
      subst hb
      refine ⟨⟨i, .reply (.accepts g) (.truth true), w₂.st⟩ :: (l ++ [⟨i, .call (.accepts g), w₁.st⟩]), _, older, ?_, hsampled,
        ?_, _, List.mem_cons_self, rfl⟩
      · rw [hlog₂, hlog]
        simp
      · rw [effects_cons, effects_append, hl]
        rfl
    | raised => exact herr _ w₂ h₂
    | _ => exact hok false w₂ h₂ fun hb => by cases hb
  · rw [if_neg hstands]
    exact hok false w₁ h₁ fun hb => by cases hb

/-- **A check that passes**: the state was sampled, and it was in time. -/
theorem check_holds {Q : Except Exc Unit → CWorld C → Prop} (h : Known P M w) (hg : ∀ k E, P k E → k.generation = some g)
    (hok : ∀ w', Known P M w' → Fresh g w'.log → Q (.ok ()) w') (herr : ∀ e w', Known P M w' → Q (.error e) w') :
    Holds (contract u) ctx i check Q w := by
  have hfail : ∀ w' : CWorld C, Known P M w' →
      Holds (contract u) ctx i (Prog.write fun st : Coordinator C => { st with valid := false })
        (fun _ w₂ => Holds (contract u) ctx i (Prog.read id >>= fun st : Coordinator C =>
          (throw (.stop (if st.requested then "capture.canceled" else "context.stale")) : CM C Unit)) Q w₂) w' :=
    fun w' h' => (keeps_invalid steady_known).holds h' (fun _ w₂ h₂ _ => herr _ w₂ h₂) fun _ w₂ h₂ => herr _ w₂ h₂
  unfold check current
  refine holds_bind.2 (holds_bind.2 (holds_catching.2 (authority_holds h hg (fun good w₁ h₁ hgood => ?_) fun e w₁ h₁ => ?_)))
  · cases good with
    | false => exact hfail w₁ h₁
    | true =>
      obtain ⟨newer, z, older, hlog, hsampled, hnewer, hy⟩ := hgood rfl
      unfold timely now ask
      refine holds_bind.2 (holds_bind.2 (holds_bind.2 ?_))
      refine plain_ask (N := P) rfl h₁ (fun hw => by cases hw) (fun a e he => by cases he) (fun _ _ hp => hp)
        fun a w₂ l h₂ hlog₂ hl _ _ => ?_
      cases a with
      | time t =>
        dsimp only
        rw [holds_pure]
        dsimp only
        rw [holds_pure]
        dsimp only
        rw [holds_bind, holds_read]
        dsimp only [id]
        cases hlate : w₂.st.isLate t with
        | error e => exact herr e w₂ h₂
        | ok _ =>
          obtain ⟨y, hmem, hyact⟩ := hy
          refine hok w₂ h₂ ⟨⟨i, .reply .clock (.time t), w₂.st⟩ :: (l ++ ⟨i, .call .clock, w₁.st⟩ :: newer), z, older, ?_,
            hsampled, ?_, ⟨y, ?_, hyact⟩, _, List.mem_cons_self, t, rfl, hlate⟩
          · rw [hlog₂, hlog]
            simp
          · rw [effects_cons, effects_append, effects_cons, hl, hnewer]
            rfl
          · exact List.mem_cons_of_mem _ (List.mem_append_right _ (List.mem_cons_of_mem _ hmem))
      | _ => exact herr _ w₂ h₂
  · exact hfail w₁ h₁

/-! ## Observations -/

/-- **An observation** is the next of its activation, unless it cannot be encoded; that it was made is known whether it
raises or not. -/
theorem emit_holds {Q : Except Exc Unit → CWorld C → Prop} {phase : Observed} {status : Status} {code : String}
    (h : Known P M w) (hs : stage w.st.activation (effects w.log) = some s) (hnext : s.next phase status = some q)
    (hP : N w.st.toCore (.observed w.st.activation phase status :: effects w.log))
    (hok : ∀ w', Known N M w' → w'.st.toCore = w.st.toCore → Q (.ok ()) w')
    (herr : ∀ w', Known N M w' → Q (.error (.stop "journal.unavailable")) w')
    (hskip : Q (.error (.stop "journal.unavailable")) w) :
    Holds (contract u) ctx i (emit u phase status code) Q w := by
  unfold emit
  rw [holds_bind, holds_read]
  dsimp only [id]
  cases hevent : (w.st.observation phase status code).filter u.encodes with
  | none => exact hskip
  | some event =>
    have hfields : event.activation = w.st.activation ∧ event.phase = phase ∧ event.status = status := by
      obtain ⟨hsome, -⟩ := Option.filter_eq_some_iff.1 hevent
      obtain ⟨v, -, rfl⟩ := Option.map_eq_some_iff.1 hsome
      exact ⟨rfl, rfl, rfl⟩
    have hcall : effect (.call (.observe event) : CAct C) = some (.observed w.st.activation phase status) := by
      rw [← hfields.1, ← hfields.2.1, ← hfields.2.2]
      rfl
    have hpush : Base (w.push i (.call (.observe event))) := by
      refine h.base.push ⟨h.base.calm, (by simp), (fun g hg => (by cases hg)), (fun g hg => (by cases hg)), (by simp), ?_,
        (by simp), (by simp)⟩ fun a phase' status' ha => ?_
      · intro op hop hw
        cases hop
        cases hw
      · rw [hcall] at ha
        cases ha
        rw [hs]
        exact ⟨by rw [Option.bind_some, hnext]; rfl, h.base.activation⟩
    dsimp only
    unfold perform ask
    refine holds_catching.2 (holds_bind.2 (holds_bind.2 (known_ask h.busy hpush fun w₁ a l hbase hcore hlog hl _ => ?_)))
    have heffects : effects w₁.log = .observed w.st.activation phase status :: effects w.log := by
      rw [hlog, effects_append, hl, effects_cons, hcall]
      rfl
    have hreply : Known N M (w₁.push i (.reply (.observe event) a)) := by
      refine ⟨hbase.idle (fun _ hc => by cases hc) rfl, (congrArg Core.busy hcore).trans h.busy, ?_, fun z hz => ?_⟩
      · rw [World.push_log, effects_cons, heffects, World.push_st, hcore]
        exact hP
      · rw [World.push_log, hlog]
        exact List.mem_cons_of_mem _ (List.mem_append_right _ (List.mem_cons_of_mem _ (h.given hz)))
    cases a with
    | raised => exact herr _ hreply
    | _ => exact hok _ hreply hcore

/-! ## Cleanup -/

/-- **A question** whose answer is an effect. -/
theorem proves_holds {Q : Except Exc Bool → CWorld C → Prop} {op : Op C} {f : Bool → Effect} {N : Bool → Core C → List Effect → Prop}
    (hplain : op.plain = true) (hworks : op.works = false)
    (heffect : ∀ a, effect (.reply op a : CAct C) = some (f a.isTrue)) (h : Known P M w)
    (hP : ∀ b k E, P k E → N b k (f b :: E)) (hok : ∀ b w', Known (N b) M w' → Q (.ok b) w')
    (herr : ∀ e w', Known (N false) M w' → Q (.error e) w') : Holds (contract u) ctx i (proves op) Q w := by
  unfold proves ask
  refine holds_bind.2 (holds_bind.2 ?_)
  refine plain_ask (N := fun _ _ => True) hplain h (fun hw => by rw [hworks] at hw; cases hw) (fun _ _ _ _ => trivial)
    (fun _ _ _ => trivial) fun a w₁ l h₁ hlog hl hcore _ => ?_
  have heffects : effects w₁.log = f a.isTrue :: effects w.log := by
    rw [hlog, effects_cons, effects_append, hl, effects_cons, effect_of_plain hplain, heffect]
    rfl
  have hknown : Known (N a.isTrue) M w₁ := by
    refine ⟨h₁.base, h₁.busy, ?_, h₁.given⟩
    rw [hcore, heffects]
    exact hP _ _ _ h.holds
  cases a with
  | truth b => exact hok b w₁ hknown
  | raised => exact herr _ w₁ hknown
  | _ => exact hok false w₁ hknown

/-- A turn that is ending: its device is stopped, its job is done, and the capture is idle, where this was found. -/
structure Ending (g : ℕ) (p : Phase) (s : Stage) (device job capture : Bool) (k : Core C) (E : List Effect) : Prop where
  going : Going g p s k E
  device : device = true → (turn E).isStopped
  job : job = true → (turn E).job ≠ some false
  capture : capture = true → (turn E).idle = true

/-- **The device is stopped**, if there is one. -/
theorem stopDevice_holds {Q : Except Exc Bool → CWorld C → Prop} (h : Known (Going g p s) M w)
    (hok : ∀ b w', Known (Ending g p s b false false) M w' → Q (.ok b) w') :
    Holds (contract u) ctx i stopDevice Q w := by
  have hlinked := h.holds.linked
  have hending : ∀ b, (b = true → (turn (effects w.log)).isStopped) → Q (.ok b) w := fun b hb =>
    hok b w ⟨h.base, h.busy, ⟨h.holds, hb, (fun hj => by cases hj), fun hc => by cases hc⟩, h.given⟩
  unfold stopDevice
  rw [holds_bind, holds_read]
  dsimp only [id]
  cases hdevice : w.st.device with
  | false =>
    refine hending true fun _ => .inl ?_
    rw [hlinked.device, hdevice]
    rfl
  | true =>
    have hturn : (turn (effects w.log)).device = some w.st.deviceCleaned := by
      rw [hlinked.device, hdevice]
      rfl
    cases hcleaned : w.st.deviceCleaned with
    | some b =>
      refine hending b fun hb => .inr ?_
      rw [hturn, hcleaned, hb]
    | none =>
      -- it is stopped for the first time, and so its turn records
      have hphase : ∀ k : Core C, k.phase = w.st.phase → ¬ (k.phase = .processing ∨ k.phase = .routing) := by
        intro k hk hp
        rw [hk] at hp
        rcases hlinked.stopped hp with hnone | hsome
        · rw [hturn] at hnone
          cases hnone
        · rw [hturn, hcleaned] at hsome
          cases hsome
      let N : Bool → Core C → List Effect → Prop := fun b k E => Ending g p s b false false { k with deviceCleaned := some b } E
      have hasked : Known (fun k E => Going g p s k E ∧ k.device = true ∧ k.phase = w.st.phase) M w :=
        ⟨h.base, h.busy, ⟨h.holds, hdevice, rfl⟩, h.given⟩
      have hwrite : ∀ (b : Bool) (w₁ : CWorld C), Known (N b) M w₁ → Q (.ok b) (w₁.put { w₁.st with deviceCleaned := some b }) :=
        fun b w₁ h₁ => hok b _ (h₁.put _ (h₁.base.put _ id (fun _ hg => hg) rfl rfl) rfl h₁.holds)
      dsimp only [Bool.not_true]
      refine holds_bind.2 (holds_catching.2 (proves_holds (f := .stopped) (N := N) rfl rfl (fun _ => rfl) hasked ?_ hwrite
        fun _ w₁ h₁ => hwrite false w₁ h₁))
      rintro b k E ⟨hgoing, hk, hp⟩
      refine ⟨⟨⟨hgoing.linked.held, ?_, hgoing.linked.job, fun hp' => absurd hp' (hphase _ hp), hgoing.linked.told,
        hgoing.linked.faulted⟩, hgoing.generation, hgoing.phase, hgoing.stage, hgoing.snapshot⟩, fun hb => .inr ?_,
        (fun hj => by cases hj), fun hc => by cases hc⟩
      · show some (some b) = if k.device then some (some b) else .none
        rw [hk]
        rfl
      · show some (some b) = _
        rw [hb]

/-- The speech is stopped; what raises does not prove it. -/
theorem stopSpeech_holds {Q : Except Exc Bool → CWorld C → Prop} (h : L w) (hL : Steady u ctx i L)
    (hok : ∀ b w', L w' → Q (.ok b) w') : Holds (contract u) ctx i (stopSpeech u) Q w := by
  unfold stopSpeech
  split
  · refine Keeps.handle (P := fun _ => True) ?_ h (fun b w' h' _ => hok b w' h') fun _ w' h' => hok false w' h'
    exact (keeps_perform (hL.silent ⟨rfl, rfl, fun _ => rfl⟩)).bind fun _ _ => keeps_proves (hL.silent ⟨rfl, rfl, fun _ => rfl⟩)
  · exact hok true w h

theorem quiet_holds {Q : Except Exc Bool → CWorld C → Prop} (h : Known P M w)
    (hok : ∀ b w', Known P M w' → Q (.ok b) w') : Holds (contract u) ctx i (quiet u) Q w := by
  unfold quiet
  rw [holds_bind, holds_read]
  dsimp only [id]
  split
  · exact stopSpeech_holds h steady_known hok
  · exact hok true w h

theorem stopJob_holds {Q : Except Exc Bool → CWorld C → Prop} {d : Bool} (h : Known (Ending g p s d false false) M w)
    (hok : ∀ b w', Known (Ending g p s d b false) M w' → Q (.ok b) w') : Holds (contract u) ctx i stopJob Q w := by
  unfold stopJob
  rw [holds_bind, holds_read]
  dsimp only [id]
  by_cases hjob : w.st.job = true
  · rw [if_pos hjob]
    have hjobs : Known (fun k E => Ending g p s d false false k E ∧ k.job = true) M w := ⟨h.base, h.busy, ⟨h.holds, hjob⟩, h.given⟩
    refine holds_catching.2 ((keeps_perform (steady_known.silent ⟨rfl, rfl, fun _ => rfl⟩)).seq hjobs (fun _ w₁ h₁ _ => ?_)
      fun _ w₁ h₁ => hok false w₁ (h₁.mono fun _ _ hp => hp.1))
    refine proves_holds (f := .done) (N := fun b => Ending g p s d b false) rfl rfl (fun _ => rfl) h₁ (fun b k E hp => ?_) hok
      fun _ w₂ h₂ => hok false w₂ h₂
    refine ⟨hp.1.going.proven hp.2 b, hp.1.device, fun hb => ?_, fun hc => by cases hc⟩
    rw [hb]
    show some true ≠ some false
    simp
  · rw [if_neg hjob]
    refine hok true w ⟨h.base, h.busy, ⟨h.holds.going, h.holds.device, fun _ hj => hjob ?_, fun hc => by cases hc⟩, h.given⟩
    rw [← h.holds.going.linked.job, hj]
    rfl

/-- The capture is canceled, unless it is idle. -/
theorem stopCapture_holds {Q : Except Exc Bool → CWorld C → Prop} {d j : Bool} (h : Known (Ending g p s d j false) M w)
    (hok : ∀ b w', Known (Ending g p s d j b) M w' → Q (.ok b) w') : Holds (contract u) ctx i stopCapture Q w := by
  have hidle : ∀ b (k : Core C) E, Ending g p s d j false k E → Ending g p s d j b k (.idle b :: E) := fun b _ _ hp =>
    ⟨hp.going.idle b, hp.device, hp.job, fun hb => hb⟩
  have hforget : ∀ b (k : Core C) E, Ending g p s d j b k E → Ending g p s d j false k E := fun _ _ _ hp =>
    ⟨hp.going, hp.device, hp.job, fun hc => by cases hc⟩
  have hask : Keeps (contract u) ctx i (Known (Ending g p s d j false) M) (ask .captureIdle) fun _ => True := by
    refine keeps_plain .captureIdle rfl (fun hw => by cases hw) fun a e k E he hp => ?_
    cases he
    exact hforget _ _ _ (hidle a.isTrue k E hp)
  have hcancel : Keeps (contract u) ctx i (Known (Ending g p s d j false) M) cancelCapture fun _ => True :=
    (keeps_proves hask).bind fun _ _ => Keeps.ite (fun _ => keeps_pure trivial) fun _ =>
      keeps_perform (steady_known.silent ⟨rfl, rfl, fun _ => rfl⟩)
  unfold stopCapture
  refine holds_catching.2 (hcancel.seq h (fun _ w₁ h₁ _ => ?_) fun _ w₁ h₁ => hok false w₁ h₁)
  exact proves_holds (f := .idle) (N := fun b => Ending g p s d j b) rfl rfl (fun _ => rfl) h₁ hidle hok fun _ w₂ h₂ =>
    hok false w₂ h₂

/-- **The cleanup** leaves the turn under way. What it proves is so. -/
theorem cleanup_holds {Q : Except Exc Bool → CWorld C → Prop} (h : Known (Going g p s) M w)
    (hok : ∀ b w', Known (fun k E => Going g p s k E ∧ (b = true → (turn E).Clean)) M w' → Q (.ok b) w') :
    Holds (contract u) ctx i (cleanup u) Q w := by
  unfold cleanup
  refine holds_bind.2 (stopDevice_holds h fun device w₁ h₁ => ?_)
  refine holds_bind.2 (quiet_holds h₁ fun speech w₂ h₂ => ?_)
  refine holds_bind.2 (stopJob_holds h₂ fun job w₃ h₃ => ?_)
  refine holds_bind.2 (stopCapture_holds h₃ fun capture w₄ h₄ => hok _ w₄ (h₄.mono fun k E hp => ⟨hp.going, fun hb => ?_⟩))
  simp only [Bool.and_eq_true] at hb
  exact ⟨hp.device hb.1.1.1, hp.job hb.1.2, hp.capture hb.2⟩

/-! ## The end of a turn -/

/-- What an activation has observed may still be ended so. -/
def Fits : Phase → Stage → Prop
  | .capturing, .fresh | .capturing, .started | .capturing, .silent | .capturing, .recorded => True
  | .processing, .transcribing | .processing, .finished => True
  | .routing, s | .idle, s => s ≠ .faulted
  | _, _ => False

theorem Fits.not_faulted (h : Fits p s) : p ≠ .faulted ∧ s ≠ .faulted := by
  refine ⟨fun hp => ?_, fun hs => ?_⟩
  · subst hp
    cases s <;> exact h
  · subst hs
    cases p with
    | routing => exact h rfl
    | idle => exact h rfl
    | _ => exact h

/-- What invalidates a generation does not raise. -/
theorem invalidateOwned_holds {Q : Except Exc Unit → CWorld C → Prop} (h : Known P M w)
    (hok : ∀ w', Known P M w' → Q (.ok ()) w') : Holds (contract u) ctx i invalidateOwned Q w := by
  unfold invalidateOwned
  rw [holds_bind, holds_read]
  dsimp only
  cases w.st.generation with
  | none => exact hok w h
  | some g =>
    have hsteady : Steady u ctx i (Known P M) := steady_known
    unfold invalidate perform ask
    refine holds_bind.2 (holds_bind.2 (holds_bind.2 ?_))
    refine plain_ask (N := P) rfl h (fun hw => by cases hw) (fun a e he => by cases he) (fun _ _ hp => hp)
      fun a w₁ l h₁ _ _ _ ha => ?_
    cases a with
    | done => exact hok _ (hsteady.owner _ h₁ fun _ _ _ _ hc => by cases hc)
    | _ => cases ha

/-- **What is held is released**; that does not raise. -/
theorem releaseOwner_holds {Q : Except Exc Unit → CWorld C → Prop} {clean : Bool} (h : Known P M w)
    (hgeneration : w.st.generation = some g) (hheld : (turn (effects w.log)).held = some g)
    (hclean : clean = true → (turn (effects w.log)).Clean)
    (hok : ∀ w', Known (fun k E => k = { w.st.toCore with generation := none } ∧ E = .released g :: effects w.log) M w' →
      Q (.ok ()) w') : Holds (contract u) ctx i (releaseOwner g clean) Q w := by
  have hcall : Base (w.push i (.call (.release g clean))) := by
    refine h.base.push ⟨h.base.calm, (by simp), (fun _ he => by cases he), (fun _ he => by cases he), fun g' hop => ?_,
      fun op hop hw => ?_, (by simp), by simp⟩ fun _ _ _ he => by cases he
    · cases hop
      exact hclean rfl
    · cases hop
      cases hw
  unfold releaseOwner perform ask
  refine holds_bind.2 (holds_bind.2 (holds_bind.2 (known_ask h.busy hcall fun w₁ a l hbase hcore hlog hl ha => ?_)))
  -- the owner is held, and so it is released
  have howns : Owns w₁.st.owner g := hbase.owns g ((congrArg Core.generation hcore).trans hgeneration)
  obtain ⟨o', ho', hgrows⟩ := howns.release clean
  have heffects : effects w₁.log = effects w.log := by
    rw [hlog, effects_append, hl, effects_cons]
    rfl
  cases a with
  | done =>
    have hreply : Base (w₁.push i (.reply (.release g clean) .done)) := by
      refine hbase.push (safe_other hbase.calm (fun _ hc => by cases hc) (fun _ he => by cases he) fun g' he => ?_)
        fun _ _ _ he => by cases he
      cases he
      rw [heffects]
      exact hheld
    have hknown : Known (fun k E => k = { w.st.toCore with generation := none } ∧ E = .released g :: effects w.log) M
        ((w₁.push i (.reply (.release g clean) .done)).put { w₁.st with generation := none, owner := o' }) := by
      refine ⟨hreply.write _ id (fun _ hg => by cases hg) (fun b hb => ?_) hgrows.ge, (congrArg Core.busy hcore).trans h.busy,
        ⟨?_, ?_⟩, fun z hz => ?_⟩
      · show b ≤ o'.generation
        rw [hgrows]
        exact hbase.activation b hb
      · show ({ w₁.st.toCore with generation := none } : Core C) = _
        rw [hcore]
      · rw [World.put_log, World.push_log, effects_cons, heffects]
        rfl
      · rw [World.put_log, World.push_log, hlog]
        exact List.mem_cons_of_mem _ (List.mem_append_right _ (List.mem_cons_of_mem _ (h.given hz)))
    have hend := hok _ hknown
    dsimp only
    rw [holds_pure]
    dsimp only
    rw [holds_pure]
    dsimp only
    rw [holds_write]
    dsimp only [World.push_st, Session.step]
    rw [ho']
    exact hend
  | raised =>
    have hraised : (w₁.st.owner.release (some (g : ℤ)) (some clean)).toOption.isNone = true := ha
    rw [ho'] at hraised
    cases hraised
  | _ => cases ha

/-- **A release** ends the turn, and it does not raise. -/
theorem release_holds {Q : Except Exc Unit → CWorld C → Prop} {clean : Bool}
    (h : Known (fun k E => Going g p s k E ∧ (clean = true → (turn E).Clean)) M w) (hp : p ≠ .faulted) (hs : s ≠ .faulted)
    (hok : ∀ w', Known Rested M w' → Q (.ok ()) w') : Holds (contract u) ctx i (release u clean) Q w := by
  obtain ⟨hgoing, hclean⟩ := h.holds
  unfold release releaseOwned
  refine holds_bind.2 (holds_bind.2 ?_)
  rw [holds_read]
  dsimp only
  rw [hgoing.generation]
  refine releaseOwner_holds h hgoing.generation (hgoing.linked.held.trans hgoing.generation) hclean fun w₁ h₁ => ?_
  obtain ⟨hcore, heffects⟩ := h₁.holds
  have hphase : w₁.st.phase ≠ .faulted := by
    rw [hcore]
    exact hgoing.phase ▸ hp
  have hended : Known (fun k E => Rested k E ∧ stage k.activation E = some s) M (w₁.put { w₁.st with
      job := false, device := false, framer := none, phase := if clean then .idle else .faulted }) := by
    refine h₁.become _ (h₁.base.put _ (fun _ => hphase) (fun _ hg => hg) rfl rfl) rfl (k := w.st.toCore.ended clean) ?_ heffects
      ⟨hgoing.rested hs clean, hgoing.stage⟩
    show ({ w₁.st.toCore with job := false, device := false, framer := none, phase := if clean then .idle else .faulted } :
      Core C) = _
    rw [hcore]
    rfl
  refine holds_bind.2 ?_
  cases clean with
  | true => exact hok _ (hended.mono fun _ _ hp => hp.1)
  | false =>
    -- the fault is observed last
    have hfault := hended.put { w₁.st with
      job := false, device := false, framer := none, phase := .faulted, valid := false, code := "owner.cleanup-unproven" }
      (N := fun k E => Rested k E ∧ k.phase = .faulted ∧ stage k.activation E = some s)
      (hended.base.put _ id (fun _ hg => hg) rfl rfl) rfl
      ⟨⟨⟨hended.holds.1.linked.held, hended.holds.1.linked.device, hended.holds.1.linked.job, hended.holds.1.linked.stopped,
        hended.holds.1.linked.told, hended.holds.1.linked.faulted⟩, hended.holds.1.generation, hended.holds.1.phase, rfl, rfl⟩,
        rfl, hended.holds.2⟩
    have hnext : s.next .ownerFaulted .uncertain = some .faulted := by cases s <;> first | rfl | exact absurd rfl hs
    obtain ⟨hrested, hphase', hstage⟩ := hfault.holds
    refine holds_bind.2 (holds_catching.2 (emit_holds hfault hstage hnext (N := Rested) ?_ (fun w₂ h₂ _ => hok _ h₂)
      (fun w₂ h₂ => hok _ h₂) (hok _ (hfault.mono fun _ _ hp => hp.1))))
    exact ⟨hrested.linked.observe _ _ _ fun _ => hphase', hrested.generation, hrested.phase, hrested.device, hrested.job⟩

/-- A turn may fail so: what was observed of it can be ended, or the journal is not available. -/
def MayFail (p : Phase) (s : Stage) (code : String) : Prop := Fits p s ∨ code = "journal.unavailable" ∧ p ≠ .faulted ∧ s ≠ .faulted

theorem MayFail.not_faulted {code : String} (h : MayFail p s code) : p ≠ .faulted ∧ s ≠ .faulted := by
  rcases h with h | ⟨-, h⟩
  · exact h.not_faulted
  · exact h

/-- What failed is observed, where it can be. -/
theorem lament_holds {Q : Except Exc Unit → CWorld C → Prop} {b : Bool} {code : String}
    (h : Known (fun k E => Going g p s k E ∧ (b = true → (turn E).Clean)) M w) (hfail : MayFail p s code)
    (hok : ∀ s' w', s' ≠ .faulted → Known (fun k E => Going g p s' k E ∧ (b = true → (turn E).Clean)) M w' → Q (.ok ()) w') :
    Holds (contract u) ctx i (lament u p code) Q w := by
  obtain ⟨hgoing, hclean⟩ := h.holds
  have hs := hfail.not_faulted.2
  have hwrite : ∀ s' w', s' ≠ .faulted → Known (fun k E => Going g p s' k E ∧ (b = true → (turn E).Clean)) M w' →
      Q (.ok ()) (w'.put { w'.st with code := "journal.unavailable" }) := fun s' w' hs' h' =>
    hok s' _ hs' (h'.put _ (h'.base.put _ id (fun _ hg => hg) rfl rfl) rfl ⟨h'.holds.1.minor _ _ _ _, h'.holds.2⟩)
  have hemit : ∀ phase s', s.next phase .canceled = some s' → s' ≠ .faulted →
      Holds (contract u) ctx i ((emit u phase .canceled code).catching fun _ =>
        Prog.write fun st => { st with code := "journal.unavailable" }) Q w := fun phase s' hnext hs' =>
    holds_catching.2 (emit_holds h hgoing.stage hnext ⟨hgoing.observe hnext hs', hclean⟩ (fun w₁ h₁ _ => hok s' w₁ hs' h₁)
      (fun w₁ h₁ => hwrite s' w₁ hs' h₁) (hwrite s w hs h))
  unfold lament
  split
  · exact hok s w hs h
  · rename_i hcode
    rcases hfail with hfits | ⟨hjournal, -⟩
    · cases p with
      | capturing => cases s <;> first | exact hfits.elim | exact hemit .captureCanceled .canceled rfl (by simp)
      | processing => cases s <;> first | exact hfits.elim | exact hemit .transcriptionFinished .canceled rfl (by simp)
      | _ => exact hok s w hs h
    · exact absurd hjournal hcode

/-- **What fails has ended the turn**, and does not raise. -/
theorem fail_holds {Q : Except Exc Unit → CWorld C → Prop} {code : String} (h : Known (Going g p s) M w) (hfail : MayFail p s code)
    (hok : ∀ w', Known Rested M w' → Q (.ok ()) w') : Holds (contract u) ctx i (fail u code) Q w := by
  have hsteady : Steady u ctx i (Known (Going g p s) M) := steady_known
  unfold fail
  rw [holds_bind, holds_read]
  dsimp only
  rw [h.holds.phase, holds_bind, holds_write]
  have h₀ := hsteady.write w { w.st with valid := false, pending := none, confirming := none } h rfl (fun _ _ ho => ho) le_rfl
  refine holds_bind.2 (invalidateOwned_holds h₀ fun w₁ h₁ => ?_)
  refine holds_bind.2 (cleanup_holds h₁ fun clean w₂ h₂ => ?_)
  dsimp only
  rw [holds_bind, holds_write]
  have h₃ : Known (fun k E => Going g p s k E ∧ (clean = true → (turn E).Clean)) M (w₂.put { w₂.st with code := code }) :=
    h₂.put _ (h₂.base.put _ id (fun _ hg => hg) rfl rfl) rfl ⟨h₂.holds.1.minor _ _ _ _, h₂.holds.2⟩
  refine holds_bind.2 (lament_holds h₃ hfail fun s' w₄ hs' h₄ => ?_)
  exact release_holds h₄ hfail.not_faulted.1 hs' hok

/-- A turn that is under way, and may end so where this is raised. -/
def Broken (M : List (CEntry C)) (e : Exc) (w : CWorld C) : Prop :=
  ∃ g p s, Known (Going g p s) M w ∧ ∀ other, MayFail p s (e.reason other)

theorem Known.broken {e : Exc} (h : Known (Going g p s) M w) (hfits : Fits p s) : Broken M e w :=
  ⟨g, p, s, h, fun _ => .inl hfits⟩

/-- What could not be observed. -/
theorem Known.unobserved (h : Known (Going g p s) M w) (hp : p ≠ .faulted) (hs : s ≠ .faulted) :
    Broken M (.stop "journal.unavailable") w :=
  ⟨g, p, s, h, fun _ => .inr ⟨rfl, hp, hs⟩⟩

/-- A part of a turn leaves the turn broken, if it raises. -/
structure Attempted (M : List (CEntry C)) (Q : Except Exc α → CWorld C → Prop) (r : Except Exc α) (w : CWorld C) : Prop where
  returned : ∀ a, r = .ok a → Q r w
  raised : ∀ e, r = .error e → Broken M e w

theorem Attempted.ok {Q : Except Exc α → CWorld C → Prop} {a : α} (h : Q (.ok a) w) : Attempted M Q (.ok a) w :=
  ⟨(fun _ _ => h), fun _ he => by cases he⟩

theorem Attempted.error {Q : Except Exc α → CWorld C → Prop} {e : Exc} (h : Broken M e w) : Attempted M Q (.error e) w :=
  ⟨(fun _ ha => by cases ha), fun _ he => by cases he; exact h⟩

/-- **What raises fails**, and has ended the turn. -/
theorem failing_holds {Q : Except Exc (Option α) → CWorld C → Prop} {other : Phase → String} {body : CM C (Option α)}
    (h : Holds (contract u) ctx i body (Attempted M Q) w) (hok : ∀ w', Known Rested M w' → Q (.ok none) w') :
    Holds (contract u) ctx i (failing u other body) Q w := by
  unfold failing
  refine holds_catching.2 (h.mono fun r w₁ hr => ?_)
  cases r with
  | ok a => exact hr.returned a rfl
  | error e =>
    obtain ⟨g, p, s, h₁, hfail⟩ := hr.raised e rfl
    dsimp only
    rw [holds_bind, holds_read]
    exact holds_bind.2 (fail_holds h₁ (hfail _) fun w₂ h₂ => hok w₂ h₂)

end Coordinate

end Arhugula
