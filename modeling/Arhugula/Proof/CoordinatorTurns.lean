import Arhugula.Proof.CoordinatorSteps

/-!
# Turns

A turn is begun where none is under way (`begin_holds`), it records (`record_holds`), it is transcribed
(`transcribe_holds`), and its transcript is routed (`route_holds`). Each part of it leaves the turn live, or it raises, and
leaves it broken: it has failed then, and is ended. So it is with what a tick does (`tick_holds`).
-/

namespace Arhugula

namespace Coordinate

open Reentrant Session
open Capture (Frame CaptureResult)
open Voice (VoiceReply)

variable {C : Type} [DecidableEq C] {u : Setup C} {w w' : CWorld C} {i : ℕ} {ctx : List (ℕ × Op C)} {α : Type}
  {P N : Core C → List Effect → Prop} {M : List (CEntry C)} {g : ℕ} {p : Phase} {s : Stage}

/-! ## The beginning -/

theorem stage_fresh {a : Option ℕ} {E : List Effect} (h : ∀ phase status, Effect.observed a phase status ∉ E) :
    stage a E = some .fresh := by
  induction E with
  | nil => rfl
  | cons e E ih =>
    have htail : stage a E = some .fresh := ih fun phase status hmem => h phase status (List.mem_cons_of_mem _ hmem)
    cases e with
    | observed b phase status =>
      have hne : b ≠ a := by
        intro hb
        subst hb
        exact h phase status List.mem_cons_self
      rw [stage, if_neg hne]
      exact htail
    | _ => exact htail

/-- **A generation is begun**, where none is held. Nothing was observed of it. -/
theorem begin_holds {Q : Except Exc ℕ → CWorld C → Prop} (h : Known P M w) (hrested : Rested w.st.toCore (effects w.log))
    (hidle : w.st.phase = .idle)
    (hok : ∀ g w', Known (fun k E => k = { w.st.toCore with generation := some g } ∧ E = .begun g :: effects w.log) M w' →
      stage (some g) (effects w'.log) = some .fresh → g ≤ w'.st.owner.generation → Q (.ok g) w')
    (herr : ∀ x w', Known (fun k E => k = w.st.toCore ∧ E = effects w.log) M w' → Q (.error x) w') :
    Holds (contract u) ctx i begin Q w := by
  have hcall : Base (w.push i (.call .begin)) := by
    refine h.base.push ⟨h.base.calm, (fun _ => hidle), (fun _ he => by cases he), (fun _ he => by cases he), (by simp),
      fun op hop hw => ?_, (by simp), by simp⟩ fun _ _ _ he => by cases he
    cases hop
    cases hw
  unfold begin
  refine holds_bind.2 (known_ask h.busy hcall fun w₁ a l hbase hcore hlog hl ha => ?_)
  have heffects : effects w₁.log = effects w.log := by
    rw [hlog, effects_append, hl, effects_cons]
    rfl
  have hgiven : ∀ act, M ⊆ (w₁.push i act).log := by
    intro act z hz
    rw [World.push_log, hlog]
    exact List.mem_cons_of_mem _ (List.mem_append_right _ (List.mem_cons_of_mem _ (h.given hz)))
  have hbusy : w₁.st.busy = true := (congrArg Core.busy hcore).trans h.busy
  cases a with
  | generation g =>
    have hanswer : decide ((w₁.st.owner.begin (some "command")).toOption.map Prod.fst = some g) = true := ha
    cases hb : w₁.st.owner.begin (some "command") with
    | error x =>
      rw [hb] at hanswer
      cases hanswer
    | ok r =>
      obtain ⟨g', o'⟩ := r
      rw [hb, decide_eq_true_eq] at hanswer
      obtain rfl : g' = g := Option.some.inj hanswer
      obtain ⟨howns, hnew, hgrows⟩ := begin_owns hb
      have hreply : Base (w₁.push i (.reply .begin (.generation g'))) := by
        refine hbase.push (safe_other hbase.calm (fun _ hc => by cases hc) (fun _ _ => ?_) fun _ he => by cases he)
          fun _ _ _ he => by cases he
        rw [heffects]
        exact hrested.linked.held.trans hrested.generation
      have hfresh : stage (some g') (effects w.log) = some .fresh := by
        refine stage_fresh fun phase status hmem => ?_
        have := hbase.known g' phase status (heffects ▸ hmem)
        omega
      have hlater : effects (w₁.push i (.reply .begin (.generation g'))).log = .begun g' :: effects w.log := by
        rw [World.push_log, effects_cons, heffects]
        rfl
      have hknown : Known (fun k E => k = { w.st.toCore with generation := some g' } ∧ E = .begun g' :: effects w.log) M
          ((w₁.push i (.reply .begin (.generation g'))).put { w₁.st with generation := some g', owner := o' }) := by
        refine ⟨hreply.write _ id (fun _ hg => ?_) (fun b hb => ?_) ?_, hbusy, ⟨?_, hlater⟩, hgiven _⟩
        · cases hg
          exact howns
        · have hle := hbase.activation b hb
          show b ≤ o'.generation
          omega
        · show w₁.st.owner.generation ≤ o'.generation
          omega
        · show ({ w₁.st.toCore with generation := some g' } : Core C) = _
          rw [hcore]
      have hend := hok g' _ hknown (by rw [World.put_log, hlater]; exact hfresh) hgrows.ge
      dsimp only
      rw [holds_bind, holds_write]
      dsimp only [World.push_st, Session.step]
      rw [hb]
      exact hend
  | raised =>
    refine herr _ _ ⟨hbase.idle (fun _ hc => by cases hc) rfl, hbusy, ⟨hcore, ?_⟩, hgiven _⟩
    rw [World.push_log, effects_cons, heffects]
    rfl
  | _ => cases ha

theorem keeps_preflight (token : Option String) :
    Keeps (contract u) ctx i (Known P M) (preflight u token : CM C (VoiceState C)) fun _ => True := by
  have hL : Steady u ctx i (Known P M) := steady_known
  have hspeech : Keeps (contract u) ctx i (Known P M) (stopSpeech u) fun _ => True := fun w h =>
    stopSpeech_holds h hL fun b w' h' => ⟨h', fun _ _ => trivial⟩
  unfold preflight
  refine Keeps.bind (P := fun _ => True) (Keeps.ite (fun _ => hL.volatile (fun _ => rfl) fun _ => rfl) fun _ => keeps_pure trivial)
    fun _ _ => hspeech.bind fun b _ => Keeps.ite (fun _ => ?_) fun _ => keeps_throw
  refine (keeps_read (P := fun _ => True) fun _ _ => trivial).bind fun st _ => Keeps.ite (fun _ => ?_) fun _ => keeps_throw
  refine Keeps.bind (P := fun _ => True) (Keeps.ite (fun _ => keeps_pure trivial) fun _ => keeps_current hL)
    fun good _ => Keeps.ite (fun _ => ?_) fun _ => keeps_throw
  refine ((keeps_sample hL).catching fun _ => keeps_throw).bind fun v _ => ?_
  exact (keeps_read (P := fun _ => True) fun _ _ => trivial).bind fun st _ => Keeps.ite (fun _ => keeps_throw) fun _ => keeps_pure trivial

/-! ## Recording -/

/-- An operation that takes part in a turn that is under way. -/
theorem keeps_work (op : Op C) (hplain : op.plain = true) (hsilent : ∀ a, effect (.reply op a : CAct C) = none)
    (hP : ∀ k E, P k E → Going g p s k E) (hp : p ≠ .faulted) :
    Keeps (contract u) ctx i (Known P M) (ask op) fun _ => True := by
  refine keeps_plain op hplain (fun _ k E h => ?_) fun a e k E he => ?_
  · have hgoing := hP k E h
    rw [hgoing.phase, hgoing.linked.held, hgoing.generation]
    exact ⟨hp, rfl⟩
  · rw [hsilent] at he
    cases he

/-- **A device, or a job, is made.** -/
theorem make_holds {Q : Except Exc Unit → CWorld C → Prop} {op : Op C} {e : Effect} (hplain : op.plain = true)
    (hraised : effect (.reply op .raised : CAct C) = none)
    (hmade : ∀ a, a ≠ .raised → effect (.reply op a : CAct C) = some e) (h : Known (Going g p s) M w) (hp : p ≠ .faulted)
    (hP : N w.st.toCore (e :: effects w.log)) (hok : ∀ w', Known N M w' → Q (.ok ()) w')
    (herr : ∀ x w', Known (Going g p s) M w' → Q (.error x) w') : Holds (contract u) ctx i (perform op) Q w := by
  unfold perform ask
  refine holds_bind.2 (holds_bind.2 ?_)
  refine plain_ask (N := fun _ _ => True) hplain h (fun _ => ?_) (fun _ _ _ _ => trivial) (fun _ _ _ => trivial)
    fun a w₁ l h₁ hlog hl hcore _ => ?_
  · rw [h.holds.phase, h.holds.linked.held, h.holds.generation]
    exact ⟨hp, rfl⟩
  · have heffects : effects w₁.log = (effect (.reply op a : CAct C)).toList ++ effects w.log := by
      rw [hlog, effects_cons, effects_append, hl, effects_cons, effect_of_plain hplain]
      rfl
    have hdone : a ≠ .raised → Q (.ok ()) w₁ := by
      intro ha
      refine hok w₁ ⟨h₁.base, h₁.busy, ?_, h₁.given⟩
      rw [hcore, heffects, hmade a ha]
      exact hP
    cases a with
    | raised =>
      refine herr _ w₁ ⟨h₁.base, h₁.busy, ?_, h₁.given⟩
      rw [hcore, heffects, hraised]
      exact h.holds
    | _ => exact hdone (by simp)

/-- **The device is opened.** -/
theorem openDevice_holds {Q : Except Exc Unit → CWorld C → Prop}
    (h : Known (fun k E => Going g .capturing .started k E ∧ k.deviceCleaned = none) M w)
    (hok : ∀ w', Known (Going g .capturing .started) M w' → Q (.ok ()) w')
    (herr : ∀ x w', Broken M x w' → Q (.error x) w') : Holds (contract u) ctx i openDevice Q w := by
  have hbroken : ∀ x w', Known (Going g .capturing .started) M w' → Q (.error x) w' := fun x w' h' =>
    herr x w' (h'.broken trivial)
  have hgoing := h.holds.1
  unfold openDevice
  refine holds_bind.2 (make_holds (N := fun k E => Going g .capturing .started { k with device := true } E) (e := .device) rfl rfl
    (fun a ha => by cases a <;> first | rfl | exact absurd rfl ha) (h.mono fun _ _ hp => hp.1) (by simp) ?_ (fun w₁ h₁ => ?_)
    hbroken)
  · refine ⟨⟨hgoing.linked.held, ?_, hgoing.linked.job, fun hp => ?_, hgoing.linked.told, hgoing.linked.faulted⟩,
      hgoing.generation, hgoing.phase, hgoing.stage, hgoing.snapshot⟩
    · show some Option.none = some w.st.deviceCleaned
      rw [h.holds.2]
    · have hphase := hgoing.phase
      simp [hphase] at hp
  · dsimp only
    rw [holds_bind, holds_write]
    have h₂ : Known (Going g .capturing .started) M (w₁.put { w₁.st with device := true }) :=
      h₁.put _ (h₁.base.put _ id (fun _ hg => hg) rfl rfl) rfl h₁.holds
    refine (keeps_check steady_known).seq h₂ (fun _ w₃ h₃ _ => ?_) hbroken
    refine (keeps_perform (keeps_work _ rfl (fun _ => rfl) (fun _ _ hp => hp) (by simp))).seq h₃ (fun _ w₄ h₄ _ => ?_) hbroken
    exact (keeps_check steady_known).holds h₄ (fun _ w₅ h₅ _ => hok w₅ h₅) hbroken

/-- **A recording begins.** -/
theorem record_holds {Q : Except Exc Unit → CWorld C → Prop}
    (h : Known (fun k E => Going g .capturing .fresh k E ∧ k.deviceCleaned = none) M w)
    (hok : ∀ w', Known (Going g .capturing .started) M w' → Q (.ok ()) w')
    (herr : ∀ x w', Broken M x w' → Q (.error x) w') : Holds (contract u) ctx i (record u) Q w := by
  have hbroken : ∀ x w', Known (fun k E => Going g .capturing .started k E ∧ k.deviceCleaned = none) M w' → Q (.error x) w' :=
    fun x w' h' => herr x w' ((h'.mono fun _ _ hp => hp.1).broken trivial)
  have hsteady : Steady u ctx i (Known (fun k E => Going g .capturing .started k E ∧ k.deviceCleaned = none) M) := steady_known
  unfold record
  refine (keeps_now steady_known).seq h (fun t w₁ h₁ _ => ?_) fun x w₁ h₁ =>
    herr x w₁ ((h₁.mono fun _ _ hp => hp.1).broken trivial)
  rw [holds_bind, holds_write]
  dsimp only
  have h₂ : Known (fun k E => Going g .capturing .fresh k E ∧ k.deviceCleaned = none) M
      (w₁.put { w₁.st with deadline := some (t.plus 15) }) :=
    h₁.put _ (h₁.base.put _ id (fun _ hg => hg) rfl rfl) rfl ⟨h₁.holds.1.minor _ _ _ _, h₁.holds.2⟩
  refine holds_bind.2 (emit_holds h₂ h₂.holds.1.stage (q := .started) rfl ⟨h₂.holds.1.observe rfl (by simp), h₂.holds.2⟩
    (fun w₃ h₃ _ => ?_) (fun w₃ h₃ => hbroken _ w₃ h₃) (herr _ _ ((h₂.mono fun _ _ hp => hp.1).broken trivial)))
  refine (keeps_check hsteady).seq h₃ (fun _ w₄ h₄ _ => ?_) hbroken
  refine (keeps_work .keyEqual rfl (fun _ => rfl) (fun _ _ hp => hp.1) (by simp)).seq h₄ (fun a w₅ h₅ _ => ?_) hbroken
  cases a with
  | capture r =>
    dsimp only
    split
    · refine (keeps_check hsteady).seq h₅ (fun _ w₆ h₆ _ => ?_) hbroken
      split
      · exact openDevice_holds h₆ hok herr
      · exact hok w₆ (h₆.mono fun _ _ hp => hp.1)
    · exact hbroken _ w₅ h₅
  | _ => exact hbroken _ w₅ h₅

/-! ## Activation -/

/-- **An activation** leaves a turn that records, or none. -/
theorem activateBody_holds (h : Known Rested M w) (hidle : w.st.phase = .idle) (token : Option String) (correlation : String) :
    Holds (contract u) ctx i (activateBody u token correlation) (fun _ w' => Known Live M w') w := by
  have h₀ : Known (fun k E => Rested k E ∧ k.phase = .idle) M w := ⟨h.base, h.busy, ⟨h.holds, hidle⟩, h.given⟩
  unfold activateBody
  refine (keeps_preflight token).seq h₀ (fun v w₁ h₁ _ => ?_) fun _ w₁ h₁ => h₁.mono fun _ _ hp => .rested hp.1
  refine holds_bind.2 (begin_holds h₁ h₁.holds.1 h₁.holds.2 (fun g w₂ h₂ hfresh hle => ?_) fun _ w₂ h₂ =>
    h₂.mono fun k E hp => ?_)
  · -- what the new turn has
    obtain ⟨hcore, heffects⟩ := h₂.holds
    have hphase : w₂.st.phase ≠ .faulted := by
      rw [hcore]
      show w₁.st.phase ≠ .faulted
      rw [h₁.holds.2]
      simp
    have hturn : turn (effects w₂.log) = { Turn.none with held := some g } := by
      rw [heffects]
      rfl
    have hbegun : ∀ st : Coordinator C, st.busy = w₂.st.busy → st.generation = w₂.st.generation → st.snapshot = some v →
        st.activation = some g → st.job = false → st.device = false → st.deviceCleaned = none → st.phase = .capturing →
        st.owner = w₂.st.owner → Known (fun k E => Going g .capturing .fresh k E ∧ k.deviceCleaned = none) M (w₂.put st) := by
      intro st hbusy hgeneration hsnapshot hactivation hjob hdevice hcleaned hp howner
      have hheld : st.generation = some g := by rw [hgeneration, hcore]
      have hstage : stage st.activation (effects w₂.log) = some .fresh := by
        rw [hactivation]
        exact hfresh
      refine h₂.put st (h₂.base.write st (fun _ => hphase) (fun g' hg => ?_) (fun a ha => ?_) (howner ▸ le_rfl)) hbusy
        ⟨⟨⟨?_, ?_, ?_, fun hp' => ?_, fun _ => ?_, fun hf => ?_⟩, hheld, hp, hstage, ?_⟩, hcleaned⟩
      · rw [howner]
        exact h₂.base.owns g' (hgeneration ▸ hg)
      · rw [howner]
        rw [hactivation] at ha
        cases ha
        exact hle
      · rw [hturn, hheld]
      · rw [hturn, hdevice]
        rfl
      · rw [hturn, hjob]
        rfl
      · rw [hp] at hp'
        simp at hp'
      · rw [hturn]
        rfl
      · rw [hstage] at hf
        cases hf
      · rw [hsnapshot]
        rfl
    dsimp only
    rw [holds_bind, holds_write]
    dsimp only
    refine holds_bind.2 (failing_holds (holds_bind.2 (record_holds (hbegun _ rfl rfl rfl rfl rfl rfl rfl rfl rfl)
      (fun w₃ h₃ => .ok ?_) fun _ w₃ hb => Attempted.error hb)) fun w₃ h₃ => ?_)
    · exact h₃.mono fun _ _ hp => .capturing g hp
    · exact h₃.mono fun _ _ hp => .rested hp
  · obtain ⟨rfl, rfl⟩ := hp
    exact .rested h₁.holds.1

/-! ## Frames -/

/-- A recording without speech has ended. -/
theorem fallSilent_holds {Q : Except Exc Unit → CWorld C → Prop} (h : Known (Going g .capturing .silent) M w)
    (hok : ∀ w', Known Rested M w' → Q (.ok ()) w') : Holds (contract u) ctx i (fallSilent u) Q w := by
  unfold fallSilent
  rw [holds_bind, holds_write]
  have h₁ := h.minor "capture.initial-silence" w.st.sequence w.st.framer w.st.deadline
  exact holds_bind.2 (cleanup_holds h₁ fun clean w₂ h₂ => release_holds h₂ (by simp) (by simp) hok)

/-- **A recording is transcribed.** -/
theorem transcribe_holds {Q : Except Exc Unit → CWorld C → Prop} {audio : Pcm.Bytes}
    (h : Known (fun k E => Going g .capturing .recorded k E ∧ (turn E).isStopped) M w)
    (hok : ∀ w', Known (Going g .processing .transcribing) M w' → Q (.ok ()) w')
    (herr : ∀ x w', Broken M x w' → Q (.error x) w') : Holds (contract u) ctx i (transcribe u audio) Q w := by
  have hbroken : ∀ x w', Known (Going g .processing .transcribing) M w' → Q (.error x) w' := fun x w' h' =>
    herr x w' (h'.broken trivial)
  have hsteady : Steady u ctx i (Known (Going g .processing .transcribing) M) := steady_known
  obtain ⟨hgoing, hstopped⟩ := h.holds
  have htold : (turn (effects w.log)).told = false := hgoing.linked.told (.inl hgoing.phase)
  have hphase : w.st.phase ≠ .faulted := by
    rw [hgoing.phase]
    simp
  have hfaulted : stage w.st.activation (effects w.log) ≠ some .faulted := by
    rw [hgoing.stage]
    simp
  unfold transcribe
  rw [holds_bind, holds_write]
  dsimp only
  have h₁ : Known (Going g .processing .recorded) M (w.put { w.st with phase := .processing, code := "transcription.started" }) :=
    h.put _ (h.base.put _ (fun _ => hphase) (fun _ hg => hg) rfl rfl) rfl
      ⟨⟨hgoing.linked.held, hgoing.linked.device, hgoing.linked.job, fun _ => hstopped, fun _ => htold, fun hf => absurd hf hfaulted⟩,
        hgoing.generation, rfl, hgoing.stage, hgoing.snapshot⟩
  refine holds_bind.2 (emit_holds h₁ h₁.holds.stage (q := .transcribing) rfl (h₁.holds.observe rfl (by simp))
    (fun w₂ h₂ _ => ?_) (fun w₂ h₂ => hbroken _ w₂ h₂) (herr _ _ (h₁.unobserved (by simp) (by simp))))
  refine (keeps_check hsteady).seq h₂ (fun _ w₃ h₃ _ => ?_) hbroken
  have hlinked := h₃.holds.linked
  refine holds_bind.2 (make_holds (N := fun k E => Going g .processing .transcribing { k with job := true } E) (e := .job) rfl rfl
    (fun a ha => by cases a <;> first | rfl | exact absurd rfl ha) h₃ (by simp) ?_ (fun w₄ h₄ => ?_) hbroken)
  · exact ⟨⟨hlinked.held, hlinked.device, rfl, hlinked.stopped, hlinked.told, hlinked.faulted⟩, h₃.holds.generation,
      h₃.holds.phase, h₃.holds.stage, h₃.holds.snapshot⟩
  · dsimp only
    rw [holds_bind, holds_write]
    have h₅ : Known (Going g .processing .transcribing) M (w₄.put { w₄.st with job := true }) :=
      h₄.put _ (h₄.base.put _ id (fun _ hg => hg) rfl rfl) rfl h₄.holds
    refine (keeps_check hsteady).seq h₅ (fun _ w₆ h₆ _ => ?_) hbroken
    refine (keeps_now hsteady).seq h₆ (fun t w₇ h₇ _ => ?_) hbroken
    rw [holds_bind, holds_write]
    have h₈ := h₇.minor w₇.st.code w₇.st.sequence w₇.st.framer (some (t.plus 30))
    have hstart : Keeps (contract u) ctx i (Known (Going g .processing .transcribing) M) (startJob audio) fun _ => True := by
      unfold startJob
      refine (keeps_read (P := fun _ => True) fun _ _ => trivial).bind fun generation _ => ?_
      cases generation with
      | none => exact keeps_throw
      | some g' => exact keeps_perform (keeps_work _ rfl (fun _ => rfl) (fun _ _ hp => hp) (by simp))
    refine hstart.seq h₈ (fun _ w₉ h₉ _ => ?_) hbroken
    exact (keeps_check hsteady).holds h₉ (fun _ w' h' _ => hok w' h') hbroken

/-- **What the capture has ended with.** -/
theorem ended_holds {Q : Except Exc Unit → CWorld C → Prop} {r : CaptureResult} (silent : Bool)
    (h : Known (Going g .capturing .started) M w) (hok : ∀ w', Known Live M w' → Q (.ok ()) w')
    (herr : ∀ x w', Broken M x w' → Q (.error x) w') : Holds (contract u) ctx i (ended u r silent) Q w := by
  unfold ended
  refine holds_bind.2 (stopDevice_holds h fun b w₁ h₁ => ?_)
  cases b with
  | false => exact herr _ w₁ ((h₁.mono fun _ _ hp => hp.going).broken trivial)
  | true =>
    obtain ⟨hgoing, hstopped, -, -⟩ := h₁.holds
    dsimp only
    rw [if_pos rfl]
    cases silent with
    | true =>
      have hbroken : ∀ x w', Known (Going g .capturing .silent) M w' → Q (.error x) w' := fun x w' h' =>
        herr x w' (h'.broken trivial)
      refine holds_bind.2 (emit_holds h₁ hgoing.stage (q := .silent) rfl (hgoing.observe rfl (by simp))
        (fun w₂ h₂ _ => ?_) (fun w₂ h₂ => hbroken _ w₂ h₂) (herr _ _ ((h₁.mono fun _ _ hp => hp.going).broken trivial)))
      refine (keeps_check steady_known).seq h₂ (fun _ w₃ h₃ _ => ?_) hbroken
      exact fallSilent_holds h₃ fun w₄ h₄ => hok w₄ (h₄.mono fun _ _ hp => .rested hp)
    | false =>
      have hbroken : ∀ x w', Known (fun k E => Going g .capturing .recorded k E ∧ (turn E).isStopped) M w' → Q (.error x) w' :=
        fun x w' h' => herr x w' ((h'.mono fun _ _ hp => hp.1).broken trivial)
      refine holds_bind.2 (emit_holds h₁ hgoing.stage (q := .recorded) rfl ⟨hgoing.observe rfl (by simp), hstopped rfl⟩
        (fun w₂ h₂ _ => ?_) (fun w₂ h₂ => hbroken _ w₂ h₂) (herr _ _ ((h₁.mono fun _ _ hp => hp.going).broken trivial)))
      refine (keeps_check steady_known).seq h₂ (fun _ w₃ h₃ _ => ?_) hbroken
      exact transcribe_holds h₃ (fun w₄ h₄ => hok w₄ (h₄.mono fun _ _ hp => .processing g hp)) herr

/-- **A frame of the recording.** -/
theorem take_holds {Q : Except Exc Unit → CWorld C → Prop} {frame : Frame} (h : Known (Going g .capturing .started) M w)
    (hok : ∀ w', Known Live M w' → Q (.ok ()) w') (herr : ∀ x w', Broken M x w' → Q (.error x) w') :
    Holds (contract u) ctx i (take u frame) Q w := by
  have hbroken : ∀ x w', Known (Going g .capturing .started) M w' → Q (.error x) w' := fun x w' h' =>
    herr x w' (h'.broken trivial)
  unfold take
  rw [holds_bind, holds_write]
  have h₁ := h.minor w.st.code (w.st.sequence + 1) w.st.framer w.st.deadline
  refine (keeps_work (.captureFeed frame) rfl (fun _ => rfl) (fun _ _ hp => hp) (by simp)).seq h₁ (fun a w₂ h₂ _ => ?_) hbroken
  cases a with
  | capture r =>
    refine (keeps_check steady_known).seq h₂ (fun _ w₃ h₃ _ => ?_) hbroken
    cases r.status with
    | recording => exact hok w₃ (h₃.mono fun _ _ hp => .capturing g hp)
    | idle => exact ended_holds true h₃ hok herr
    | processing => exact ended_holds false h₃ hok herr
    | _ => exact hbroken _ w₃ h₃
  | _ => exact hbroken _ w₂ h₂

theorem accept_holds {Q : Except Exc Unit → CWorld C → Prop} {frame : Option Frame} {sequence : Option (Option ℤ)}
    (h : Known (Going g .capturing .started) M w)
    (hok : ∀ w', Known Live M w' → Q (.ok ()) w') (herr : ∀ x w', Broken M x w' → Q (.error x) w') :
    Holds (contract u) ctx i (accept u frame sequence) Q w := by
  have hbroken : ∀ x w', Known (Going g .capturing .started) M w' → Q (.error x) w' := fun x w' h' =>
    herr x w' (h'.broken trivial)
  unfold accept
  refine (keeps_check steady_known).seq h (fun _ w₁ h₁ _ => ?_) hbroken
  rw [holds_bind, holds_read]
  dsimp only [id]
  cases place w₁.st.sequence sequence with
  | past => exact hok w₁ (h₁.mono fun _ _ hp => .capturing g hp)
  | unknown => exact hbroken _ w₁ h₁
  | next =>
    cases frame with
    | none => exact hbroken _ w₁ h₁
    | some frame =>
      dsimp only
      split
      · exact take_holds h₁ hok herr
      · exact hbroken _ w₁ h₁

/-- **A frame** that is fed leaves the turn live; it does not raise. -/
theorem feedFrame_holds {Q : Except Exc Unit → CWorld C → Prop} {generation : Option ℤ} {frame : Option Frame}
    {sequence : Option (Option ℤ)} (h : Known Live M w) (hok : ∀ w', Known Live M w' → Q (.ok ()) w') :
    Holds (contract u) ctx i (feedFrame u generation frame sequence) Q w := by
  unfold feedFrame
  rw [holds_bind, holds_read]
  dsimp only [id]
  split
  · rename_i hcond
    simp only [Bool.and_eq_true, decide_eq_true_eq] at hcond
    obtain ⟨g, hgoing⟩ := h.holds.recording hcond.2
    have h₀ : Known (Going g .capturing .started) M w := ⟨h.base, h.busy, hgoing, h.given⟩
    refine holds_bind.2 (failing_holds (holds_bind.2 (accept_holds h₀ (fun w₁ h₁ => .ok ?_)
      fun _ w₁ hb => Attempted.error hb)) fun w₁ h₁ => ?_)
    · exact hok w₁ h₁
    · exact hok w₁ (h₁.mono fun _ _ hp => .rested hp)
  · exact hok w h

/-! ## Transcripts -/

/-- **The router is told a text.** -/
theorem told_holds {Q : Except Exc (Answer C) → CWorld C → Prop} {op : Op C} {text : String}
    (hop : op = .handle text ∨ ∃ token, op = .answer token text) (h : Known P M w) (hphase : w.st.phase = .routing)
    (htold : Told text w.log) (hP : N w.st.toCore (.told :: effects w.log)) (hok : ∀ a w', Known N M w' → Q (.ok a) w')
    (herr : ∀ x w', Known N M w' → Q (.error x) w') : Holds (contract u) ctx i (ask op) Q w := by
  have hcall : effect (.call op : CAct C) = some .told := by rcases hop with rfl | ⟨token, rfl⟩ <;> rfl
  have hreply : ∀ a, effect (.reply op a : CAct C) = none := by rcases hop with rfl | ⟨token, rfl⟩ <;> exact fun _ => rfl
  have hbase : Base (w.push i (.call op)) := by
    refine h.base.push ⟨h.base.calm, fun he => ?_, fun g he => ?_, fun g he => ?_, fun g he => ?_, fun op' he hw => ?_,
      fun text' he => ?_, fun token' text' he => ?_⟩ fun b phase status he => ?_
    · rcases hop with rfl | ⟨token, rfl⟩ <;> cases he
    · rw [hcall] at he
      cases he
    · rw [hcall] at he
      cases he
    · rcases hop with rfl | ⟨token, rfl⟩ <;> cases he
    · cases he
      rcases hop with rfl | ⟨token, rfl⟩ <;> cases hw
    · rcases hop with rfl | ⟨token, rfl⟩ <;> cases he
      exact ⟨hphase, htold⟩
    · rcases hop with rfl | ⟨token, rfl⟩ <;> cases he
      exact ⟨hphase, htold⟩
    · rw [hcall] at he
      cases he
  unfold ask
  refine holds_bind.2 (known_ask h.busy hbase fun w₁ a l hbase₁ hcore hlog hl _ => ?_)
  have heffects : effects w₁.log = .told :: effects w.log := by
    rw [hlog, effects_append, hl, effects_cons, hcall]
    rfl
  have hknown : Known N M (w₁.push i (.reply op a)) := by
    refine ⟨hbase₁.idle (fun _ hc => by cases hc) (hreply a), (congrArg Core.busy hcore).trans h.busy, ?_, fun z hz => ?_⟩
    · rw [World.push_log, effects_cons, hreply, heffects, World.push_st, hcore]
      exact hP
    · rw [World.push_log, hlog]
      exact List.mem_cons_of_mem _ (List.mem_append_right _ (List.mem_cons_of_mem _ (h.given hz)))
  cases a with
  | raised => exact herr _ _ hknown
  | _ => exact hok _ _ hknown

theorem tell_holds {Q : Except Exc VoiceReply → CWorld C → Prop} {text : String} (h : Known P M w)
    (hphase : w.st.phase = .routing) (htold : Told text w.log) (hP : N w.st.toCore (.told :: effects w.log))
    (hok : ∀ r w', Known N M w' → Q (.ok r) w') (herr : ∀ x w', Known N M w' → Q (.error x) w') :
    Holds (contract u) ctx i (tell text) Q w := by
  unfold tell
  rw [holds_bind, holds_read]
  dsimp only [id]
  have hop : w.st.telling text = .handle text ∨ ∃ token, w.st.telling text = .answer token text := by
    unfold Coordinator.telling
    cases w.st.confirming with
    | none => exact .inl rfl
    | some token => exact .inr ⟨token, rfl⟩
  refine holds_bind.2 (told_holds hop h hphase htold hP (fun a w₁ h₁ => ?_) herr)
  cases a with
  | reply r => exact hok r w₁ h₁
  | _ => exact herr _ w₁ h₁

/-- The end of a turn that was routed. -/
theorem conclude_holds {Q : Except Exc Unit → CWorld C → Prop} {r : VoiceReply} (h : Known (Going g p s) M w) (hp : p ≠ .faulted)
    (hs : s ≠ .faulted) (hok : ∀ w', Known Rested M w' → Q (.ok ()) w') : Holds (contract u) ctx i (conclude u r) Q w := by
  unfold conclude
  rw [holds_bind, holds_write]
  have h₁ := h.minor r.code w.st.sequence w.st.framer w.st.deadline
  exact holds_bind.2 (cleanup_holds h₁ fun clean w₂ h₂ => release_holds h₂ hp hs hok)

/-- **A transcript is routed**, if a check passes after its job is done. -/
theorem route_holds {Q : Except Exc (Option VoiceReply) → CWorld C → Prop} {r : Transcribe.TranscriptResult}
    (h : Known (fun k E => Going g .processing .transcribing k E ∧ (turn E).job = some true) M w)
    (hgiven : ∃ y ∈ M, Given r y) (hgeneration : r.generation = (g : ℤ)) (hok : ∀ v w', Known Rested M w' → Q (.ok v) w')
    (herr : ∀ x w', Broken M x w' → Q (.error x) w') : Holds (contract u) ctx i (route u r) Q w := by
  obtain ⟨hgoing, hdone⟩ := h.holds
  have hbroken : ∀ x w', Known (fun k E => Going g .processing .finished k E ∧ (turn E).job = some true) M w' → Q (.error x) w' :=
    fun x w' h' => herr x w' ((h'.mono fun _ _ hp => hp.1).broken trivial)
  have hnext : Stage.next .transcribing .transcriptionFinished (if (spoken r).isSome then .success else .failed) = some .finished := by
    cases (spoken r).isSome <;> rfl
  unfold route
  dsimp only
  refine holds_bind.2 (emit_holds h hgoing.stage hnext ⟨hgoing.observe hnext (by simp), hdone⟩
    (fun w₁ h₁ _ => ?_) (fun w₁ h₁ => hbroken _ w₁ h₁) (herr _ _ ((h.mono fun _ _ hp => hp.1).broken trivial)))
  refine holds_bind.2 (check_holds h₁ (fun _ _ hp => hp.1.generation) (fun w₂ h₂ hfresh => ?_) hbroken)
  obtain ⟨hgoing₂, hdone₂⟩ := h₂.holds
  have htold : (turn (effects w₂.log)).told = false := hgoing₂.linked.told (.inr hgoing₂.phase)
  have hstopped : (turn (effects w₂.log)).isStopped := hgoing₂.linked.stopped (.inl hgoing₂.phase)
  have hphase : w₂.st.phase ≠ .faulted := by
    rw [hgoing₂.phase]
    simp
  have hfits : Fits .routing .finished := by
    show Stage.finished ≠ .faulted
    simp
  dsimp only
  rw [holds_bind, holds_write]
  dsimp only
  have h₃ : Known (Going g .routing .finished) M (w₂.put { w₂.st with phase := .routing }) := by
    refine h₂.put _ (h₂.base.put _ (fun _ => hphase) (fun _ hg => hg) rfl rfl) rfl ⟨⟨hgoing₂.linked.held, hgoing₂.linked.device,
      hgoing₂.linked.job, fun _ => hstopped, fun hp => ?_, fun hf => ?_⟩, hgoing₂.generation, rfl, hgoing₂.stage, hgoing₂.snapshot⟩
    · rcases hp with hp | hp <;> cases hp
    · exact absurd (Option.some.inj (hgoing₂.stage.symm.trans hf)) (by simp)
  cases hspoken : spoken r with
  | none => exact holds_bind.2 (fail_holds h₃ (.inl hfits) fun w₄ h₄ => hok none w₄ h₄)
  | some text =>
    obtain ⟨y, hy, hgive⟩ := hgiven
    have hheld : (turn (effects w₂.log)).held = some g := hgoing₂.linked.held.trans hgoing₂.generation
    have hdue : Told text w₂.log := ⟨htold, hstopped, hdone₂, g, hheld, hfresh, y, h₂.given hy, r, hgive, hgeneration, hspoken⟩
    have hrouted : Going g .routing .finished { w₂.st.toCore with phase := .routing } (.told :: effects w₂.log) := by
      have hgoing₃ := h₃.holds
      refine ⟨⟨hgoing₃.linked.held, hgoing₃.linked.device, hgoing₃.linked.job, hgoing₃.linked.stopped, fun hp => ?_,
        hgoing₃.linked.faulted⟩, hgoing₃.generation, rfl, hgoing₃.stage, hgoing₃.snapshot⟩
      rcases hp with hp | hp <;> cases hp
    refine holds_bind.2 (tell_holds (N := Going g .routing .finished) h₃ rfl hdue hrouted (fun reply w₄ h₄ => ?_) fun _ w₄ h₄ =>
      herr _ w₄ (h₄.broken hfits))
    dsimp only
    rw [holds_bind, holds_write]
    have hsteady : Steady u ctx i (Known (Going g .routing .finished) M) := steady_known
    refine holds_bind.2 (conclude_holds (hsteady.write w₄ _ h₄ rfl (fun _ _ ho => ho) le_rfl) (by simp) (by simp) fun w₅ h₅ => ?_)
    exact hok (some reply) w₅ h₅

/-- **A transcript**, if its job is done. -/
theorem settleJob_holds {Q : Except Exc (Option VoiceReply) → CWorld C → Prop} {r : Transcribe.TranscriptResult}
    (h : Known (Going g .processing .transcribing) M w) (hgiven : ∃ y ∈ M, Given r y) (hgeneration : r.generation = (g : ℤ))
    (hok : ∀ v w', Known Rested M w' → Q (.ok v) w') (herr : ∀ x w', Broken M x w' → Q (.error x) w') :
    Holds (contract u) ctx i (settleJob u r) Q w := by
  have hbroken : ∀ x w', Known (Going g .processing .transcribing) M w' → Q (.error x) w' := fun x w' h' =>
    herr x w' (h'.broken trivial)
  unfold settleJob
  refine (keeps_check steady_known).seq h (fun _ w₁ h₁ _ => ?_) hbroken
  unfold jobDone
  refine holds_bind.2 (holds_bind.2 ?_)
  rw [holds_read]
  dsimp only [id]
  by_cases hjob : w₁.st.job = true
  · rw [if_pos hjob]
    have hjobs : Known (fun k E => Going g .processing .transcribing k E ∧ k.job = true) M w₁ :=
      ⟨h₁.base, h₁.busy, ⟨h₁.holds, hjob⟩, h₁.given⟩
    refine proves_holds (f := .done) (N := fun b k E => Going g .processing .transcribing k E ∧ (turn E).job = some b) rfl rfl
      (fun _ => rfl) hjobs (fun b k E hp => ⟨hp.1.proven hp.2 b, rfl⟩) (fun b w₂ h₂ => ?_) fun x w₂ h₂ =>
        hbroken x w₂ (h₂.mono fun _ _ hp => hp.1)
    cases b with
    | true => exact route_holds h₂ hgiven hgeneration hok herr
    | false => exact hbroken _ w₂ (h₂.mono fun _ _ hp => hp.1)
  · rw [if_neg hjob]
    exact hbroken _ w₁ h₁

/-- **A transcript** that is given leaves the turn live; it does not raise. -/
theorem transcribedBody_holds {Q : Except Exc (Option VoiceReply) → CWorld C → Prop} {r : Transcribe.TranscriptResult}
    (h : Known Live M w) (hgiven : ∃ y ∈ M, Given r y) (hok : ∀ v w', Known Live M w' → Q (.ok v) w') :
    Holds (contract u) ctx i (transcribedBody u r) Q w := by
  unfold transcribedBody
  rw [holds_bind, holds_read]
  dsimp only [id]
  split
  · rename_i hcond
    simp only [Bool.and_eq_true, decide_eq_true_eq, Option.any_eq_true] at hcond
    obtain ⟨⟨g', hg', hgeneration⟩, hphase⟩ := hcond
    obtain ⟨g, hgoing⟩ := h.holds.transcribing hphase
    obtain rfl : g' = g := Option.some.inj (hg'.symm.trans hgoing.generation)
    have h₀ : Known (Going g' .processing .transcribing) M w := ⟨h.base, h.busy, hgoing, h.given⟩
    refine failing_holds (settleJob_holds h₀ hgiven hgeneration (fun v w₁ h₁ => .ok ?_)
      fun _ w₁ hb => Attempted.error hb) fun w₁ h₁ => ?_
    · exact hok v w₁ (h₁.mono fun _ _ hp => .rested hp)
    · exact hok none w₁ (h₁.mono fun _ _ hp => .rested hp)
  · exact hok none w h

/-! ## Ticks -/

/-- What is under way may fail. -/
theorem live_broken {x : Exc} (h : Known Live M w) (hphase : w.st.phase = .capturing ∨ w.st.phase = .processing) : Broken M x w := by
  rcases hphase with hp | hp
  · obtain ⟨g, hgoing⟩ := h.holds.recording hp
    exact Known.broken ⟨h.base, h.busy, hgoing, h.given⟩ trivial
  · obtain ⟨g, hgoing⟩ := h.holds.transcribing hp
    exact Known.broken ⟨h.base, h.busy, hgoing, h.given⟩ trivial

/-- A part of a tick leaves the turn live, or it raises, and leaves it broken. -/
def Ticks (u : Setup C) (ctx : List (ℕ × Op C)) (i : ℕ) (M : List (CEntry C)) (body : CM C α) (w : CWorld C) : Prop :=
  Holds (contract u) ctx i body (fun r w' => (∀ a, r = .ok a → Known Live M w') ∧ ∀ x, r = .error x → Broken M x w') w

theorem feedFrames_ticks (frames : List Pcm.Bytes) (h : Known Live M w) (hphase : w.st.phase = .capturing) :
    Ticks u ctx i M (feedFrames u frames) w := by
  induction frames generalizing w with
  | nil => exact ⟨fun _ _ => h, fun _ he => by cases he⟩
  | cons pcm frames ih =>
    have h₀ : Known (fun k E => Live k E ∧ k.phase = .capturing) M w := ⟨h.base, h.busy, ⟨h.holds, hphase⟩, h.given⟩
    have hbroken : ∀ w' : CWorld C, Known (fun k E => Live k E ∧ k.phase = .capturing) M w' → ∀ x, Broken M x w' := fun w' h' _ =>
      live_broken (h'.mono fun _ _ hp => hp.1) (.inl h'.holds.2)
    unfold feedFrames Ticks
    refine (steady_known.silent (⟨rfl, rfl, fun _ => rfl⟩ : Silent (.isSpeech pcm : Op C))).seq h₀ (fun a w₁ h₁ _ => ?_) fun x w₁ h₁ =>
      ⟨(fun _ ha => by cases ha), fun x _ => hbroken w₁ h₁ x⟩
    cases a with
    | truth speech =>
      dsimp only
      cases frameOf pcm speech with
      | none => exact ⟨(fun _ ha => by cases ha), fun x _ => hbroken w₁ h₁ x⟩
      | some frame =>
        dsimp only
        rw [holds_bind, holds_read]
        refine holds_bind.2 (feedFrame_holds (h₁.mono fun _ _ hp => hp.1) fun w₂ h₂ => ?_)
        dsimp only
        rw [holds_bind, holds_read]
        dsimp only [id]
        split
        · rename_i hp
          exact ih h₂ hp
        · exact ⟨fun _ _ => h₂, fun _ he => by cases he⟩
    | _ => exact ⟨(fun _ ha => by cases ha), fun x _ => hbroken w₁ h₁ x⟩

theorem feedChunks_ticks (chunks : List Pcm.Bytes) (h : Known Live M w) : Ticks u ctx i M (feedChunks u chunks) w := by
  induction chunks generalizing w with
  | nil => exact ⟨fun _ _ => h, fun _ he => by cases he⟩
  | cons chunk chunks ih =>
    unfold feedChunks Ticks
    rw [holds_bind, holds_read]
    dsimp only [id]
    split
    · rename_i framer hphase hframer
      obtain ⟨g, hgoing⟩ := h.holds.recording hphase
      have h₀ : Known (Going g .capturing .started) M w := ⟨h.base, h.busy, hgoing, h.given⟩
      rw [holds_bind, holds_write]
      have h₁ := h₀.minor w.st.code w.st.sequence (some (framer.feed chunk).2) w.st.deadline
      dsimp only
      cases (framer.feed chunk).1 with
      | error x => exact ⟨(fun _ ha => by cases ha), fun _ _ => h₁.broken trivial⟩
      | ok frames =>
        refine holds_bind.2 ((feedFrames_ticks frames (h₁.mono fun _ _ hp => .capturing g hp) hphase).mono fun r w₂ hr => ?_)
        cases r with
        | ok _ => exact ih (hr.1 _ rfl)
        | error x => exact ⟨(fun _ ha => by cases ha), fun _ he => by cases he; exact hr.2 x rfl⟩
    · rename_i hphase hframer
      exact ⟨(fun _ ha => by cases ha), fun _ _ => live_broken h (.inl hphase)⟩
    · exact ⟨fun _ _ => h, fun _ he => by cases he⟩

theorem tickDevice_ticks (h : Known Live M w) : Ticks u ctx i M (tickDevice u) w := by
  unfold tickDevice Ticks
  rw [holds_bind, holds_read]
  dsimp only [id]
  split
  · rename_i hcond
    simp only [Bool.and_eq_true, decide_eq_true_eq] at hcond
    have h₀ : Known (fun k E => Live k E ∧ k.phase = .capturing) M w := ⟨h.base, h.busy, ⟨h.holds, hcond.1⟩, h.given⟩
    have hbroken : ∀ w' : CWorld C, Known (fun k E => Live k E ∧ k.phase = .capturing) M w' → ∀ x, Broken M x w' := fun w' h' _ =>
      live_broken (h'.mono fun _ _ hp => hp.1) (.inl h'.holds.2)
    unfold pollDevice
    refine (steady_known.silent (⟨rfl, rfl, fun _ => rfl⟩ : Silent (.devicePoll : Op C))).seq h₀ (fun a w₁ h₁ _ => ?_) fun x w₁ h₁ =>
      ⟨(fun _ ha => by cases ha), fun x _ => hbroken w₁ h₁ x⟩
    cases a with
    | chunks chunks =>
      dsimp only
      split
      · exact ⟨(fun _ ha => by cases ha), fun x _ => hbroken w₁ h₁ x⟩
      · exact feedChunks_ticks chunks (h₁.mono fun _ _ hp => hp.1)
    | _ => exact ⟨(fun _ ha => by cases ha), fun x _ => hbroken w₁ h₁ x⟩
  · exact ⟨fun _ _ => h, fun _ he => by cases he⟩

theorem tickJob_ticks (h : Known Live M w) : Ticks u ctx i M (tickJob u) w := by
  unfold tickJob Ticks
  rw [holds_bind, holds_read]
  dsimp only [id]
  split
  · rename_i hphase
    have hbroken : ∀ w' : CWorld C, Known (fun k E => Live k E ∧ k.phase = .processing) M w' → ∀ x, Broken M x w' := fun w' h' _ =>
      live_broken (h'.mono fun _ _ hp => hp.1) (.inr h'.holds.2)
    have h₀ : Known (fun k E => Live k E ∧ k.phase = .processing) M w := ⟨h.base, h.busy, ⟨h.holds, hphase⟩, h.given⟩
    unfold pollJob
    rw [holds_bind, holds_read]
    dsimp only [id]
    split
    · unfold ask
      refine holds_bind.2 (holds_bind.2 (plain_ask (N := fun k E => Live k E ∧ k.phase = .processing) rfl h₀
        (fun hw => by cases hw) (fun a e he => by cases he) (fun _ _ hp => hp) fun a w₁ l h₁ hlog _ _ _ => ?_))
      cases a with
      | transcript r =>
        -- the transcript is known from here on
        have h₂ : Known Live (⟨i, .reply .jobPoll (.transcript r), w₁.st⟩ :: M) w₁ := by
          refine ⟨h₁.base, h₁.busy, h₁.holds.1, fun z hz => ?_⟩
          rcases List.mem_cons.1 hz with rfl | hz
          · rw [hlog]
            exact List.mem_cons_self
          · exact h₁.given hz
        refine transcribedBody_holds h₂ ⟨_, List.mem_cons_self, .inl rfl⟩ fun v w₃ h₃ => ⟨fun _ _ => ?_, fun _ he => by cases he⟩
        exact ⟨h₃.base, h₃.busy, h₃.holds, fun z hz => h₃.given (List.mem_cons_of_mem _ hz)⟩
      | raised => exact ⟨(fun _ ha => by cases ha), fun x _ => hbroken w₁ h₁ x⟩
      | _ => exact ⟨fun _ _ => h₁.mono fun _ _ hp => hp.1, fun _ he => by cases he⟩
    · exact ⟨(fun _ ha => by cases ha), fun x _ => hbroken w h₀ x⟩
  · exact ⟨fun _ _ => h, fun _ he => by cases he⟩

/-- **A tick.** -/
theorem tick_ticks (h : Known Live M w) (hphase : w.st.phase = .capturing ∨ w.st.phase = .processing) :
    Ticks u ctx i M (tick u) w := by
  let P : Core C → List Effect → Prop := fun k E => Live k E ∧ (k.phase = .capturing ∨ k.phase = .processing)
  have h₀ : Known P M w := ⟨h.base, h.busy, ⟨h.holds, hphase⟩, h.given⟩
  have hsteady : Steady u ctx i (Known P M) := steady_known
  have hbroken : ∀ w' : CWorld C, Known P M w' → ∀ x, Broken M x w' := fun w' h' _ =>
    live_broken (h'.mono fun _ _ hp => hp.1) h'.holds.2
  unfold tick Ticks
  refine (keeps_check hsteady).seq h₀ (fun _ w₁ h₁ _ => ?_) fun x w₁ h₁ => ⟨(fun _ ha => by cases ha), fun x _ => hbroken w₁ h₁ x⟩
  refine (keeps_timely hsteady).seq h₁ (fun _ w₂ h₂ _ => ?_) fun x w₂ h₂ => ⟨(fun _ ha => by cases ha), fun x _ => hbroken w₂ h₂ x⟩
  refine holds_bind.2 ((tickDevice_ticks (h₂.mono fun _ _ hp => hp.1)).mono fun r w₃ hr => ?_)
  cases r with
  | ok _ => exact tickJob_ticks (hr.1 _ rfl)
  | error x => exact ⟨(fun _ ha => by cases ha), fun _ he => by cases he; exact hr.2 x rfl⟩

end Coordinate

end Arhugula
