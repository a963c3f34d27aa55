import Arhugula.Proof.CaptureState
import Arhugula.Reentrant.Logic

/-!
# What a capture hands over

`capture_exact`, for every run of a capture with any observer: what it hands over are the frames that it was fed
since the start, cut at the longest recording, and one of them is speech; each call of `feed` ends as the verdict
on these frames says; an idle capture holds nothing, and neither does one whose observer raised.

The frames that it was fed are read off the calls (`fed`). A call is refused while the observer is notified, so
the state at each callback is the state after it (`CaptureRel`).
-/

namespace Arhugula

namespace Capture

open Reentrant

/-- A world of the capture. -/
abbrev CWorld := World CommandCapture Op Answer Exc Method CaptureResult

/-- A log entry of the capture. -/
abbrev CEntry := Entry CommandCapture Op Answer Exc Method CaptureResult

/-- The call is a start that is not refused. -/
def Starts (e : CEntry) : Prop :=
  e.st.notifying = false ∧ e.st.state = .idle ∧ ∃ token, e.act = .invoke (.keyEqual token)

/-- The call feeds this frame, and is not refused. -/
def Feeds (frame : Frame) (e : CEntry) : Prop :=
  e.st.notifying = false ∧ e.st.state = .recording ∧ e.act = .invoke (.feed (some frame))

/-- **The frames fed since the start.** -/
def fed : List CEntry → List Frame
  | [] => []
  | e :: older =>
    match e.act with
    | .invoke (.keyEqual _) => if e.st.notifying = false ∧ e.st.state = .idle then [] else fed older
    | .invoke (.feed (some frame)) =>
      if e.st.notifying = false ∧ e.st.state = .recording then fed older ++ [frame] else fed older
    | _ => fed older

/-- **How a call of `feed` ends** on these frames. -/
def outcome (config : CaptureConfig) (token : Option String) (frames : List Frame) : CaptureResult :=
  match verdict config frames with
  | none => ⟨.recording, .recording, token, []⟩
  | some .initialSilence => ⟨.idle, .initialSilence, token, []⟩
  | some reason => ⟨.processing, reason, token, cut config frames⟩

/-- What is handed over is the recording, and there is speech in it. -/
def HandsOver (config : CaptureConfig) (e : CEntry) (older : List CEntry) : Prop :=
  ∀ res, e.act = .ret (.ok res) → (res.status = .processing ∨ res.audio ≠ []) →
    res.status = .processing ∧ e.st.state = .processing ∧ res.audio = cut config (fed older) ∧
      spoken (fed older) = true

/-- A call of `feed` that is not refused ends as its frames say, or with what the observer raised. -/
def Ends (config : CaptureConfig) (e : CEntry) (older : List CEntry) : Prop :=
  ∀ res, e.act = .ret (.ok res) → ∀ a ∈ older, a.frame = e.frame → ∀ frame, Feeds frame a →
    res = outcome config a.st.token (fed older) ∨ res = ⟨.failed, .observationFailed, a.st.token, []⟩

/-- Where the observer raised an exception, nothing is kept or handed over. -/
def Discards (e : CEntry) (older : List CEntry) : Prop :=
  ∀ r, e.act = .ret r → ∀ a ∈ older, a.frame = e.frame → ∀ notice, a.act = .reply (.observe notice) (.raised false) →
    r = .ok ⟨.failed, .observationFailed, notice.token, []⟩ ∧ e.st.state = .idle ∧ e.st.buffer = []

/-- What is owed of every entry. -/
def Owed (config : CaptureConfig) (e : CEntry) (older : List CEntry) : Prop :=
  HandsOver config e older ∧ Ends config e older ∧ Discards e older

/-- The invariant. -/
structure CaptureInv (config : CaptureConfig) (w : CWorld) : Prop where
  fixed : w.st.config = config
  recorded : Recorded w.st (fed w.log)
  owed : Throughout (Owed config) w.log

/-- What a nested call may do: nothing, while the observer is notified. -/
def CaptureRel (a b : CWorld) : Prop := a.st.notifying = true → b.st = a.st ∧ fed b.log = fed a.log

/-- The contract. -/
def captureContract (config : CaptureConfig) : Contract machine where
  Inv := CaptureInv config
  Rel _ := CaptureRel
  refl _ _ _ := ⟨rfl, rfl⟩
  trans h h' hn := by
    obtain ⟨hst, hfed⟩ := h hn
    obtain ⟨hst', hfed'⟩ := h' (by rw [hst]; exact hn)
    exact ⟨hst'.trans hst, hfed'.trans hfed⟩

variable {ctx : List (ℕ × Op)} {i : ℕ} {w w' : CWorld} {phase : Phase} {res : CaptureResult} {frames : List Frame}
  {c : CommandCapture} {config : CaptureConfig}

/-! ## Callbacks -/

theorem recorded_notify (b : Bool) : Recorded (c.notify b) frames ↔ Recorded c frames :=
  ⟨fun h => ⟨h.idle, h.audio, h.heard, fun hs => ⟨(h.sums hs).speech, (h.sums hs).silence⟩, h.going, h.ended⟩,
    fun h => ⟨h.idle, h.audio, h.heard, fun hs => ⟨(h.sums hs).speech, (h.sums hs).silence⟩, h.going, h.ended⟩⟩

/-- Nothing is owed of an entry that is no return. -/
theorem owed_silent {x : Act Op Answer Exc Method CaptureResult} (hx : ∀ r, x ≠ .ret r) (st : CommandCapture)
    (older : List CEntry) : Owed config ⟨i, x, st⟩ older :=
  ⟨fun _ h => absurd h (hx _), fun _ h => absurd h (hx _), fun _ h => absurd h (hx _)⟩

theorem fed_silent {x : Act Op Answer Exc Method CaptureResult} (hx : ∀ m, x ≠ .invoke m) (st : CommandCapture)
    (older : List CEntry) : fed (⟨i, x, st⟩ :: older) = fed older := by
  cases x with
  | invoke m => exact absurd rfl (hx m)
  | _ => rfl

theorem CaptureInv.push (h : CaptureInv config w) {x : Act Op Answer Exc Method CaptureResult} (hx : ∀ m, x ≠ .invoke m)
    (hr : ∀ r, x ≠ .ret r) : CaptureInv config (w.push i x) := by
  refine ⟨h.fixed, ?_, owed_silent hr _ _, h.owed⟩
  rw [World.push_log, fed_silent hx]
  exact h.recorded

theorem CaptureInv.put (h : CaptureInv config w) {c : CommandCapture} (hconfig : c.config = config)
    (hc : Recorded c (fed w.log)) : CaptureInv config (w.put c) :=
  ⟨hconfig, hc, h.owed⟩

/-- The replies of activation `i` so far. -/
def Raised (i : ℕ) (w : CWorld) (token : Option String) : Prop :=
  ∀ a ∈ w.log, a.frame = i → ∀ notice, a.act = .reply (.observe notice) (.raised false) → notice.token = token

/-- The observer of activation `i` raised no exception so far. -/
def Untroubled (i : ℕ) (w : CWorld) : Prop :=
  ∀ a ∈ w.log, a.frame = i → ∀ notice, a.act ≠ .reply (.observe notice) (.raised false)

/-- How `_observed` ends: as it was told, or with what the observer raised. -/
inductive Observed (i : ℕ) (w : CWorld) (res : CaptureResult) : Except Exc CaptureResult → CWorld → Prop where
  | returned {w' : CWorld} (hst : w'.st = w.st) (hquiet : Untroubled i w') : Observed i w res (.ok res) w'
  | raised {w' : CWorld} (hst : w'.st = w.st.discard) (hraised : Raised i w' res.token) :
    Observed i w res (.ok ⟨.failed, .observationFailed, res.token, []⟩) w'
  | interrupted {w' : CWorld} (hst : w'.st = w.st) (hquiet : Untroubled i w') :
    Observed i w res (.error .interrupt) w'

/-- **`_observed`**: one callback, during which nothing changes. -/
theorem observed_holds (hinv : CaptureInv config w) (hfree : w.st.notifying = false) (hquiet : Untroubled i w) :
    Holds (captureContract config) ctx i (observed phase res)
      (fun r w' => CaptureInv config w' ∧ fed w'.log = fed w.log ∧ Observed i w res r w') w := by
  have hrestore : (w.st.notify true).notify false = w.st := by
    rw [← hfree]
    rfl
  unfold observed notify observe
  rw [holds_bind, holds_bind, holds_write]
  dsimp only
  rw [holds_lastly, holds_bind, holds_ask]
  have hcall : CaptureInv config ((w.put (w.st.notify true)).push i (.call (.observe ⟨res.token, phase, res.status, res.reason⟩))) :=
    (hinv.put (c := w.st.notify true) hinv.fixed ((recorded_notify true).2 hinv.recorded)).push (fun m h => by cases h) (fun r h => by cases h)
  refine ⟨hcall, fun w₁ hinv₁ hgrow hrel answer _ => ?_⟩
  obtain ⟨hst, hfed⟩ := hrel rfl
  replace hst : w₁.st = w.st.notify true := hst
  replace hfed : fed w₁.log = fed w.log := hfed
  -- the later entries are of later activations
  have hlater : ∀ a ∈ w₁.log, a.frame = i → a ∈ w.log ∨ ∃ op, a.act = .call op := by
    obtain ⟨-, new, hnew, hframes⟩ := hgrow
    intro a ha hi
    rw [hnew, List.mem_append] at ha
    rcases ha with ha | ha
    · exact absurd hi (hframes a ha).ne'
    · rcases List.mem_cons.1 ha with rfl | ha
      · exact .inr ⟨_, rfl⟩
      · exact .inl ha
  have hbefore : ∀ a ∈ w₁.log, a.frame = i → ∀ notice, a.act ≠ .reply (.observe notice) (.raised false) := by
    intro a ha hi notice hact
    rcases hlater a ha hi with ha | ⟨op, hop⟩
    · exact hquiet a ha hi notice hact
    · rw [hop] at hact
      cases hact
  have hreply : CaptureInv config (w₁.push i (.reply (.observe ⟨res.token, phase, res.status, res.reason⟩) answer)) :=
    hinv₁.push (fun m h => by cases h) (fun r h => by cases h)
  have hfed' : fed (w₁.push i (.reply (.observe ⟨res.token, phase, res.status, res.reason⟩) answer)).log = fed w.log := by
    rw [World.push_log, fed_silent (fun m h => by cases h), hfed]
  have hback : CaptureInv config ((w₁.push i (.reply (.observe ⟨res.token, phase, res.status, res.reason⟩) answer)).put w.st) := by
    refine hreply.put hinv.fixed ?_
    rw [hfed']
    exact hinv.recorded
  have hend : (w₁.push i (.reply (.observe ⟨res.token, phase, res.status, res.reason⟩) answer)).st.notify false = w.st := by
    rw [World.push_st, hst, hrestore]
  cases answer with
  | returned =>
    show CaptureInv config (World.put _ (CommandCapture.notify false _)) ∧ _ ∧ Observed i w res (.ok res) _
    rw [hend]
    refine ⟨hback, hfed', .returned hend ?_⟩
    intro a ha hi notice hact
    rcases List.mem_cons.1 ha with rfl | ha
    · cases hact
    · exact hbefore a ha hi notice hact
  | raised interrupt =>
    cases interrupt with
    | false =>
      show CaptureInv config (World.put (World.put _ (CommandCapture.notify false _)) (CommandCapture.discard _)) ∧ _ ∧
        Observed i w res (.ok ⟨.failed, .observationFailed, res.token, []⟩) _
      rw [hend]
      refine ⟨hback.put (c := CommandCapture.discard _) ((congrArg CommandCapture.config hend).trans hinv.fixed) (recorded_discard _ _), hfed', .raised (congrArg CommandCapture.discard hend) ?_⟩
      intro a ha hi notice hact
      rcases List.mem_cons.1 ha with rfl | ha
      · cases hact
        rfl
      · exact absurd hact (hbefore a ha hi notice)
    | true =>
      show CaptureInv config (World.put _ (CommandCapture.notify false _)) ∧ _ ∧ Observed i w res (.error .interrupt) _
      rw [hend]
      refine ⟨hback, hfed', .interrupted hend ?_⟩
      intro a ha hi notice hact
      rcases List.mem_cons.1 ha with rfl | ha
      · cases hact
      · exact hbefore a ha hi notice hact

/-! ## Calls -/

section Calls

variable {w₀ : CWorld} {m : Method}

/-- What a call owes that is made in `w₀`: the contract, at its return. -/
def Returns (config : CaptureConfig) (ctx : List (ℕ × Op)) (w₀ : CWorld) (r : Except Exc CaptureResult) (w : CWorld) : Prop :=
  (captureContract config).Inv (w.push w₀.next (.ret r)) ∧ (captureContract config).Rel ctx w₀ (w.push w₀.next (.ret r))

/-- A call that begins has had no callback. -/
theorem untroubled_enter (hlog : ∀ e ∈ w₀.log, e.frame < w₀.next) (c : CommandCapture) :
    Untroubled w₀.next ((w₀.enter m).put c) := by
  intro a ha hi notice hact
  rcases List.mem_cons.1 ha with rfl | ha
  · cases hact
  · have := hlog a ha
    omega

theorem own_invoke (hlog : ∀ e ∈ w₀.log, e.frame < w₀.next) (c : CommandCapture) :
    ∀ e ∈ ((w₀.enter m).put c).log, e.frame = w₀.next → ∀ x, e.act = .invoke x → x = m ∧ e.st = w₀.st := by
  intro e he hi x hx
  rcases List.mem_cons.1 he with rfl | he
  · cases hx
    exact ⟨rfl, rfl⟩
  · have := hlog e he
    omega

theorem outcome_token (config : CaptureConfig) (token : Option String) (frames : List Frame) :
    (outcome config token frames).token = token := by
  unfold outcome
  split <;> rfl

/-- **A call that ends with `_observed`** keeps the contract, if what it is told to return may be returned. -/
theorem observed_end (hlog : ∀ e ∈ w₀.log, e.frame < w₀.next) (hinv : CaptureInv config w₀) (hfree : w₀.st.notifying = false)
    (hc : c.notifying = false) (hconfig : c.config = config) (hrec : Recorded c (fed (w₀.enter m).log))
    (hand : (res.status = .processing ∨ res.audio ≠ []) → res.status = .processing ∧ c.state = .processing ∧
      res.audio = cut config (fed (w₀.enter m).log) ∧ spoken (fed (w₀.enter m).log) = true)
    (hends : ∀ frame, m = .feed (some frame) → w₀.st.state = .recording →
      res = outcome config w₀.st.token (fed (w₀.enter m).log)) :
    Holds (captureContract config) ctx w₀.next (observed phase res) (Returns config ctx w₀) ((w₀.enter m).put c) := by
  have hstart : CaptureInv config ((w₀.enter m).put c) :=
    ⟨hconfig, hrec, owed_silent (fun r h => by cases h) _ _, hinv.owed⟩
  have hobserved : Holds (captureContract config) ctx w₀.next (observed phase res)
      (fun r w' => CaptureInv config w' ∧ fed w'.log = fed ((w₀.enter m).put c).log ∧
        Observed w₀.next ((w₀.enter m).put c) res r w') ((w₀.enter m).put c) :=
    observed_holds hstart hc (untroubled_enter hlog c)
  refine (hobserved.invoked (P := fun x s => x = m ∧ s = w₀.st) (own_invoke hlog c)).mono ?_
  rintro r w' ⟨⟨hinv', hfed, hobs⟩, hown⟩
  replace hfed : fed w'.log = fed (w₀.enter m).log := hfed
  have hfeeds : ∀ a ∈ w'.log, a.frame = w₀.next → ∀ frame, Feeds frame a →
      res = outcome config w₀.st.token (fed (w₀.enter m).log) ∧ a.st.token = w₀.st.token := by
    rintro a ha hi frame ⟨-, hstate, hact⟩
    obtain ⟨hm, hst⟩ := hown a ha hi _ hact
    rw [hst] at hstate
    exact ⟨hends frame hm.symm hstate, by rw [hst]⟩
  refine ⟨⟨hinv'.fixed, ?_, ?_, hinv'.owed⟩, fun hn => ?_⟩
  · rw [World.push_log, fed_silent (fun m h => by cases h)]
    exact hinv'.recorded
  · cases hobs with
    | returned hst hquiet =>
      replace hst : w'.st = c := hst
      refine ⟨?_, ?_, ?_⟩
      · intro res' hres' hhand
        cases hres'
        show _ ∧ w'.st.state = _ ∧ _ = cut config (fed w'.log) ∧ spoken (fed w'.log) = true
        rw [hfed, hst]
        exact hand hhand
      · intro res' hres' a ha hi frame hf
        cases hres'
        obtain ⟨hres, htoken⟩ := hfeeds a ha hi frame hf
        left
        show res = outcome config a.st.token (fed w'.log)
        rw [hfed, htoken]
        exact hres
      · intro r hr a ha hi notice hact
        exact absurd hact (hquiet a ha hi notice)
    | raised hst hraised =>
      replace hst : w'.st = c.discard := hst
      refine ⟨?_, ?_, ?_⟩
      · rintro res' hres' hhand
        cases hres'
        rcases hhand with h | h
        · cases h
        · exact absurd rfl h
      · intro res' hres' a ha hi frame hf
        cases hres'
        obtain ⟨hres, htoken⟩ := hfeeds a ha hi frame hf
        right
        rw [htoken, hres, outcome_token]
      · intro r hr a ha hi notice hact
        cases hr
        show _ ∧ w'.st.state = _ ∧ w'.st.buffer = _
        rw [hst, hraised a ha hi notice hact]
        exact ⟨rfl, rfl, rfl⟩
    | interrupted hst hquiet =>
      refine ⟨?_, ?_, ?_⟩
      · intro res' hres'
        cases hres'
      · intro res' hres'
        cases hres'
      · intro r hr a ha hi notice hact
        exact absurd hact (hquiet a ha hi notice)
  · rw [hfree] at hn
    cases hn

/-- **A call that is refused**, or one that discards without a notice. -/
theorem refused_end (hlog : ∀ e ∈ w₀.log, e.frame < w₀.next) (hinv : CaptureInv config w₀) (hconfig : c.config = config)
    (hrec : Recorded c (fed (w₀.enter m).log)) (hres : res.status ≠ .processing ∧ res.audio = [])
    (hrel : w₀.st.notifying = true → c = w₀.st ∧ fed (w₀.enter m).log = fed w₀.log)
    (hends : ∀ frame, m = .feed (some frame) → w₀.st.notifying = false → w₀.st.state ≠ .recording) :
    Returns config ctx w₀ (.ok res) ((w₀.enter m).put c) := by
  refine ⟨⟨hconfig, ?_, ⟨?_, ?_, ?_⟩, owed_silent (fun r h => by cases h) _ _, hinv.owed⟩, fun hn => ?_⟩
  · rw [World.push_log, fed_silent (fun m h => by cases h)]
    exact hrec
  · rintro res' hres' (h | h)
    · cases hres'
      exact absurd h hres.1
    · cases hres'
      exact absurd hres.2 h
  · rintro res' hres' a ha hi frame ⟨hfree, hstate, hact⟩
    obtain ⟨hm, hst⟩ := own_invoke hlog c a ha hi _ hact
    rw [hst] at hfree hstate
    exact absurd hstate (hends frame hm.symm hfree)
  · intro r hr a ha hi notice hact
    exact absurd hact (untroubled_enter (m := m) hlog c a ha hi notice)
  · obtain ⟨hc, hfed⟩ := hrel hn
    refine ⟨hc, ?_⟩
    rw [World.push_log, fed_silent (fun m h => by cases h)]
    exact hfed

/-- `_discard`, and the notice of it. -/
theorem drop_end {status : Status} {reason : Reason} (hlog : ∀ e ∈ w₀.log, e.frame < w₀.next) (hinv : CaptureInv config w₀)
    (hfree : w₀.st.notifying = false) (hc : c.notifying = false) (hconfig : c.config = config)
    (hstatus : status ≠ .processing)
    (hends : ∀ frame, m = .feed (some frame) → w₀.st.state = .recording →
      ⟨status, reason, c.token, []⟩ = outcome config w₀.st.token (fed (w₀.enter m).log)) :
    Holds (captureContract config) ctx w₀.next (drop phase status reason) (Returns config ctx w₀) ((w₀.enter m).put c) := by
  show Holds (captureContract config) ctx w₀.next (observed phase ⟨status, reason, c.token, []⟩) (Returns config ctx w₀)
    ((w₀.enter m).put c.discard)
  refine observed_end hlog hinv hfree hc hconfig (recorded_discard _ _) ?_ hends
  rintro (h | h)
  · exact absurd h hstatus
  · exact absurd rfl h

/-- `_finish`, of a recording that is at its end. -/
theorem finish_end {reason : Reason} (hlog : ∀ e ∈ w₀.log, e.frame < w₀.next) (hinv : CaptureInv config w₀)
    (hfree : w₀.st.notifying = false) (hc : c.notifying = false) (hconfig : c.config = config) (htoken : c.token = w₀.st.token)
    (hbuffer : c.buffer = cut c.config (fed (w₀.enter m).log)) (hheard : c.heardSpeech = spoken (fed (w₀.enter m).log))
    (hverdict : verdict c.config (fed (w₀.enter m).log) = some (if c.heardSpeech then reason else .initialSilence))
    (hreason : reason ≠ .initialSilence) :
    Holds (captureContract config) ctx w₀.next (finish reason) (Returns config ctx w₀) ((w₀.enter m).put c) := by
  by_cases hspeech : c.heardSpeech = true
  · have hresult : Holds (captureContract config) ctx w₀.next (observed .finished (c.result .processing reason c.buffer))
        (Returns config ctx w₀) ((w₀.enter m).put c.stop) := by
      rw [hspeech, if_pos rfl] at hverdict
      have hspoken : spoken (fed (w₀.enter m).log) = true := hheard ▸ hspeech
      rw [hconfig] at hbuffer hverdict
      refine observed_end hlog hinv hfree hc hconfig ⟨fun h => ?_, fun _ => hconfig ▸ hbuffer, fun _ => hheard, fun h => ?_, fun h => ?_,
        fun _ => hspoken⟩ (fun _ => ⟨rfl, rfl, hbuffer, hspoken⟩) fun frame _ _ => ?_
      · cases h
      · cases h
      · cases h
      · show (⟨.processing, reason, c.token, c.buffer⟩ : CaptureResult) = outcome config _ _
        unfold outcome
        rw [hverdict, htoken, hbuffer]
        cases reason <;> first | rfl | exact absurd rfl hreason
    unfold finish
    rw [holds_bind, holds_read]
    show Holds _ _ _ (if (!c.heardSpeech) = true then _ else _) _ _
    rw [if_neg (by rw [hspeech]; decide)]
    exact hresult
  · rw [Bool.not_eq_true] at hspeech
    rw [hspeech, if_neg (by decide)] at hverdict
    unfold finish
    rw [holds_bind, holds_read]
    show Holds _ _ _ (if (!c.heardSpeech) = true then _ else _) _ _
    rw [if_pos (by rw [hspeech]; decide)]
    refine drop_end hlog hinv hfree hc hconfig (by decide) fun frame _ _ => ?_
    rw [hconfig] at hverdict
    unfold outcome
    rw [hverdict, htoken]

/-! ## Methods -/

/-- A call leaves the frames as they are, unless it starts a recording, or feeds it. -/
theorem fed_enter (hstart : ∀ token, m = .keyEqual token → w₀.st.notifying = false → w₀.st.state ≠ .idle)
    (hfeed : ∀ frame, m = .feed (some frame) → w₀.st.notifying = false → w₀.st.state ≠ .recording) :
    fed (w₀.enter m).log = fed w₀.log := by
  rw [World.enter_log]
  cases m with
  | keyEqual token =>
    show (if _ ∧ _ then _ else _) = _
    exact if_neg fun h => hstart token rfl h.1 h.2
  | feed frame =>
    cases frame with
    | none => rfl
    | some frame =>
      show (if _ ∧ _ then _ else _) = _
      exact if_neg fun h => hfeed frame rfl h.1 h.2
  | cancel => rfl
  | complete token => rfl

theorem recorded_fed (h : Recorded c frames) (hidle : c.state = .idle) (frames' : List Frame) : Recorded c frames' where
  idle := h.idle
  audio hs := absurd hidle hs
  heard hs := absurd hidle hs
  sums hs := by rw [hidle] at hs; cases hs
  going hs := by rw [hidle] at hs; cases hs
  ended hs := by rw [hidle] at hs; cases hs

/-- A call that is refused as it finds the capture. -/
theorem blocked_end {reason : Reason} (hlog : ∀ e ∈ w₀.log, e.frame < w₀.next) (hinv : CaptureInv config w₀)
    (hstart : ∀ token, m = .keyEqual token → w₀.st.notifying = false → w₀.st.state ≠ .idle)
    (hfeed : ∀ frame, m = .feed (some frame) → w₀.st.notifying = false → w₀.st.state ≠ .recording) :
    Returns config ctx w₀ (.ok (w₀.st.blocked reason)) (w₀.enter m) := by
  have hfed := fed_enter hstart hfeed
  have hres : (w₀.st.blocked reason).status ≠ .processing := by
    intro h
    cases h
  exact refused_end (c := w₀.st) hlog hinv hinv.fixed (hfed ▸ hinv.recorded) ⟨hres, rfl⟩ (fun _ => ⟨rfl, hfed⟩) hfeed

theorem keyEqual_end {token : String} (hlog : ∀ e ∈ w₀.log, e.frame < w₀.next) (hinv : CaptureInv config w₀) :
    Holds (captureContract config) ctx w₀.next (keyEqual token) (Returns config ctx w₀) (w₀.enter (.keyEqual token)) := by
  unfold keyEqual
  rw [holds_bind, holds_read]
  dsimp only
  show Holds _ _ _ (if w₀.st.notifying = true then _ else _) _ _
  by_cases hn : w₀.st.notifying = true
  · rw [if_pos hn]
    exact blocked_end hlog hinv (fun _ _ hf => by rw [hn] at hf; cases hf) fun _ h => by cases h
  rw [if_neg hn]
  rw [Bool.not_eq_true] at hn
  show Holds _ _ _ (if w₀.st.state ≠ .idle then _ else _) _ _
  by_cases hidle : w₀.st.state = .idle
  · rw [if_neg (not_not.2 hidle)]
    have hfed : fed (w₀.enter (.keyEqual token)).log = [] := by
      rw [World.enter_log]
      show (if _ ∧ _ then _ else _) = _
      exact if_pos ⟨hn, hidle⟩
    obtain ⟨hbuffer, hspeech, hsilence, hheard, -⟩ := hinv.recorded.idle hidle
    refine observed_end (c := w₀.st.start token) hlog hinv hn hn hinv.fixed ?_ ?_ fun _ h => by cases h
    · rw [hfed]
      refine ⟨fun h => (by cases h), fun _ => ?_, fun _ => hheard, fun _ => ⟨?_, ?_⟩, fun _ => verdict_nil _, fun h => by cases h⟩
      · show w₀.st.buffer = ([] : Bytes).take _
        rw [hbuffer, List.take_nil]
      · show w₀.st.speechMs = _
        rw [hspeech]
        rfl
      · show w₀.st.silenceMs = _
        rw [hsilence]
        rfl
    · rintro (h | h)
      · cases h
      · exact absurd rfl h
  · rw [if_pos hidle]
    exact blocked_end hlog hinv (fun _ _ _ => hidle) fun _ h => by cases h

theorem feed_invalid (hlog : ∀ e ∈ w₀.log, e.frame < w₀.next) (hinv : CaptureInv config w₀) :
    Holds (captureContract config) ctx w₀.next (feed none) (Returns config ctx w₀) (w₀.enter (.feed none)) := by
  have hfed : fed (w₀.enter (.feed none)).log = fed w₀.log := rfl
  unfold feed
  rw [holds_bind, holds_read]
  dsimp only
  show Holds _ _ _ (if w₀.st.notifying = true then _ else _) _ _
  by_cases hn : w₀.st.notifying = true
  · rw [if_pos hn]
    exact blocked_end hlog hinv (fun _ h => by cases h) fun _ h => by cases h
  rw [if_neg hn]
  show Holds _ _ _ (if w₀.st.state ≠ .idle then _ else _) _ _
  by_cases hidle : w₀.st.state = .idle
  · rw [if_neg (not_not.2 hidle)]
    exact refused_end (c := w₀.st) hlog hinv hinv.fixed (hfed ▸ hinv.recorded) ⟨fun h => (by cases h), rfl⟩ (fun h => absurd h hn)
      fun _ h => by cases h
  · rw [if_pos hidle]
    exact refused_end (c := w₀.st.discard) hlog hinv hinv.fixed (recorded_discard _ _) ⟨fun h => (by cases h), rfl⟩ (fun h => absurd h hn)
      fun _ h => by cases h

/-- **The end of a frame**: the verdict on the frames fed so far. -/
theorem extended_end {frame : Frame} (hlog : ∀ e ∈ w₀.log, e.frame < w₀.next) (hinv : CaptureInv config w₀)
    (hn : w₀.st.notifying = false) (hstate : w₀.st.state = .recording) (hfed : fed (w₀.enter m).log = fed w₀.log ++ [frame])
    (hc : c = w₀.st.extend frame) :
    Holds (captureContract config) ctx w₀.next
      (if c.buffer.length = CommandCapture.limit c.config then finish .maxDuration
      else if !c.heardSpeech && c.config.initialSilenceMs ≤ c.silenceMs then drop .finished .idle .initialSilence
      else if c.heardSpeech && c.silenceLimit ≤ c.silenceMs then finish .silence
      else observed .recording (c.result .recording .recording [])) (Returns config ctx w₀) ((w₀.enter m).put c) := by
  have hbuffer : c.buffer = cut c.config (fed (w₀.enter m).log) := by
    rw [hc, hfed]
    exact hinv.recorded.extend_buffer hstate frame
  have hheard : c.heardSpeech = spoken (fed (w₀.enter m).log) := by
    rw [hc, hfed]
    exact hinv.recorded.extend_heard hstate frame
  have hquiet : c.notifying = false := by rw [hc]; exact hn
  have hconfig : c.config = config := by rw [hc]; exact hinv.fixed
  have htoken : c.token = w₀.st.token := by rw [hc]; rfl
  have hrecording : c.state = .recording := by rw [hc]; exact hstate
  by_cases hfull : c.buffer.length = CommandCapture.limit c.config
  · rw [if_pos hfull]
    have hmax : c.config.maxMs ≤ ms (fed (w₀.enter m).log) := (full_iff _ _).1 (hbuffer ▸ hfull)
    refine finish_end hlog hinv hn hquiet hconfig htoken hbuffer hheard ?_ (by decide)
    rw [hheard]
    unfold verdict
    rw [if_pos hmax]
  rw [if_neg hfull]
  have hmax : ¬ c.config.maxMs ≤ ms (fed (w₀.enter m).log) := fun h => hfull (hbuffer ▸ (full_iff _ _).2 h)
  have hsums : Sums c (fed (w₀.enter m).log) := by
    rw [hfed, hc] at hmax ⊢
    exact hinv.recorded.extend_sums hstate frame (not_le.1 hmax)
  have hlimit : c.silenceLimit = silenceLimit c.config (fed (w₀.enter m).log) := by
    unfold CommandCapture.silenceLimit silenceLimit
    rw [hsums.speech]
  -- a frame that ends nothing
  have hgoing : verdict c.config (fed (w₀.enter m).log) = none →
      Holds (captureContract config) ctx w₀.next (observed .recording (c.result .recording .recording [])) (Returns config ctx w₀)
        ((w₀.enter m).put c) := by
    intro hverdict
    have hrec : Recorded c (fed (w₀.enter m).log) := by
      refine ⟨fun h => ?_, fun _ => hbuffer, fun _ => hheard, fun _ => hsums, fun _ => hverdict, fun h => ?_⟩
      · rw [hrecording] at h
        cases h
      · rw [hrecording] at h
        cases h
    refine observed_end hlog hinv hn hquiet hconfig hrec ?_ fun _ _ _ => ?_
    · rintro (h | h)
      · cases h
      · exact absurd rfl h
    · unfold outcome
      rw [← hconfig, hverdict, ← htoken]
      rfl
  by_cases hspoken : spoken (fed (w₀.enter m).log) = true
  · -- an utterance: silence ends it
    rw [hspoken] at hheard
    rw [hheard, if_neg (by simp)]
    by_cases hsilence : silenceLimit c.config (fed (w₀.enter m).log) ≤ ms (trailing (fed (w₀.enter m).log))
    · rw [if_pos (by rw [hlimit, hsums.silence, Bool.true_and, decide_eq_true_eq]; exact hsilence)]
      refine finish_end hlog hinv hn hquiet hconfig htoken hbuffer (hheard.trans hspoken.symm) ?_ (by decide)
      rw [hheard]
      unfold verdict
      rw [if_neg hmax, if_pos hspoken, if_pos hsilence]
      rfl
    · rw [if_neg (by rw [hlimit, hsums.silence, Bool.true_and, decide_eq_true_eq]; exact hsilence)]
      refine hgoing ?_
      unfold verdict
      rw [if_neg hmax, if_pos hspoken, if_neg hsilence]
  · rw [Bool.not_eq_true] at hspoken
    rw [hspoken] at hheard
    have hall := ms_unspoken hspoken
    rw [hheard, hsums.silence, hall]
    by_cases hsilence : c.config.initialSilenceMs ≤ ms (fed (w₀.enter m).log)
    · rw [if_pos (by rw [Bool.not_false, Bool.true_and, decide_eq_true_eq]; exact hsilence)]
      refine drop_end hlog hinv hn hquiet hconfig (by decide) fun _ _ _ => ?_
      rw [← hconfig]
      unfold outcome verdict
      rw [if_neg hmax, hspoken, if_neg (by decide), if_pos hsilence, htoken]
    · rw [if_neg (by rw [Bool.not_false, Bool.true_and, decide_eq_true_eq]; exact hsilence), if_neg (by simp)]
      refine hgoing ?_
      unfold verdict
      rw [if_neg hmax, hspoken, if_neg (by decide), if_neg hsilence]

theorem feed_end {frame : Frame} (hlog : ∀ e ∈ w₀.log, e.frame < w₀.next) (hinv : CaptureInv config w₀) :
    Holds (captureContract config) ctx w₀.next (feed (some frame)) (Returns config ctx w₀) (w₀.enter (.feed (some frame))) := by
  unfold feed
  rw [holds_bind, holds_read]
  dsimp only
  show Holds _ _ _ (if w₀.st.notifying = true then _ else _) _ _
  by_cases hn : w₀.st.notifying = true
  · rw [if_pos hn]
    exact blocked_end hlog hinv (fun _ h => by cases h) fun _ _ hf => by rw [hn] at hf; cases hf
  rw [if_neg hn]
  rw [Bool.not_eq_true] at hn
  show Holds _ _ _ (if w₀.st.state ≠ .recording then _ else _) _ _
  by_cases hstate : w₀.st.state = .recording
  · rw [if_neg (not_not.2 hstate)]
    have hfed : fed (w₀.enter (.feed (some frame))).log = fed w₀.log ++ [frame] := by
      rw [World.enter_log]
      show (if _ ∧ _ then _ else _) = _
      exact if_pos ⟨hn, hstate⟩
    exact extended_end hlog hinv hn hstate hfed rfl
  · rw [if_pos hstate]
    exact blocked_end hlog hinv (fun _ h => by cases h) fun _ _ _ => hstate

theorem cancel_end (hlog : ∀ e ∈ w₀.log, e.frame < w₀.next) (hinv : CaptureInv config w₀) :
    Holds (captureContract config) ctx w₀.next cancel (Returns config ctx w₀) (w₀.enter .cancel) := by
  unfold cancel
  rw [holds_bind, holds_read]
  dsimp only
  show Holds _ _ _ (if w₀.st.notifying = true then _ else if w₀.st.state = .idle then _ else _) _ _
  by_cases hn : w₀.st.notifying = true
  · rw [if_pos hn]
    exact blocked_end hlog hinv (fun _ h => by cases h) fun _ h => by cases h
  rw [if_neg hn]
  by_cases hidle : w₀.st.state = .idle
  · rw [if_pos hidle]
    exact blocked_end hlog hinv (fun _ h => by cases h) fun _ h => by cases h
  · rw [if_neg hidle]
    rw [Bool.not_eq_true] at hn
    exact drop_end (c := w₀.st) hlog hinv hn hn hinv.fixed (by decide) fun _ h => by cases h

theorem complete_end {token : Option String} (hlog : ∀ e ∈ w₀.log, e.frame < w₀.next) (hinv : CaptureInv config w₀) :
    Holds (captureContract config) ctx w₀.next (complete token) (Returns config ctx w₀) (w₀.enter (.complete token)) := by
  unfold complete
  rw [holds_bind, holds_read]
  dsimp only
  show Holds _ _ _ (if w₀.st.notifying = true then _ else if _ = true then _ else _) _ _
  by_cases hn : w₀.st.notifying = true
  · rw [if_pos hn]
    exact blocked_end hlog hinv (fun _ h => by cases h) fun _ h => by cases h
  rw [if_neg hn]
  split
  · exact blocked_end hlog hinv (fun _ h => by cases h) fun _ h => by cases h
  · rw [Bool.not_eq_true] at hn
    exact drop_end (c := w₀.st) hlog hinv hn hn hinv.fixed (by decide) fun _ h => by cases h

end Calls

/-- **Every method keeps the contract.** -/
theorem captureContract_kept : (captureContract config).Kept where
  method ctx m w _ hlog _ hinv := by
    cases m with
    | keyEqual token => exact keyEqual_end hlog hinv
    | feed frame =>
      cases frame with
      | none => exact feed_invalid hlog hinv
      | some frame => exact feed_end hlog hinv
    | cancel => exact cancel_end hlog hinv
    | complete token => exact complete_end hlog hinv
  crash w s _ hs := by cases hs

/-- Where nothing is speech by the initial limit, the recording ends as initial silence. -/
theorem outcome_silent (config : CaptureConfig) (token : Option String) (h : spoken frames = false)
    (hlimit : config.initialSilenceMs ≤ ms frames) : outcome config token frames = ⟨.idle, .initialSilence, token, []⟩ := by
  unfold outcome verdict
  rw [h]
  by_cases hmax : config.maxMs ≤ ms frames
  · rw [if_pos hmax]
    rfl
  · rw [if_neg hmax, if_neg (by decide), if_pos hlimit]

/-- **What a capture keeps, and what it hands over.** In every run with any observer: the buffer never exceeds the
longest recording; an idle capture holds nothing; a recording goes on only below both limits; what is handed over
are the frames fed since the start, cut at the longest recording, with speech in them; each call of `feed` ends as
the verdict on these frames says; and what an observer fails on is discarded. -/
theorem capture_exact (config : CaptureConfig) {c : Config CommandCapture Op Answer Exc Method CaptureResult}
    (h : machine.Reachable (.new config) c) :
    c.w.st.buffer.length ≤ CommandCapture.limit config ∧
    (c.w.st.state = .idle → c.w.st.buffer = [] ∧ c.w.st.speechMs = 0 ∧ c.w.st.silenceMs = 0 ∧ c.w.st.heardSpeech = false) ∧
    (c.w.st.state ≠ .idle → c.w.st.buffer = cut config (fed c.w.log)) ∧
    (c.w.st.state = .recording → ms (fed c.w.log) < config.maxMs ∧
      (spoken (fed c.w.log) = false → ms (fed c.w.log) < config.initialSilenceMs)) ∧
    (∀ newer e older, c.w.log = newer ++ e :: older → HandsOver config e older ∧ Ends config e older ∧ Discards e older) ∧
    ∀ token frames, spoken frames = false → config.initialSilenceMs ≤ ms frames →
      outcome config token frames = ⟨.idle, .initialSilence, token, []⟩ := by
  have hstart : CaptureInv config (Machine.start (.new config) : Config CommandCapture Op Answer Exc Method CaptureResult).w := by
    refine ⟨rfl, ⟨fun _ => ⟨rfl, rfl, rfl, rfl, rfl⟩, ?_, ?_, ?_, ?_, ?_⟩, trivial⟩
    · exact fun hs => absurd rfl hs
    · exact fun hs => absurd rfl hs
    · intro hs
      cases hs
    · intro hs
      cases hs
    · intro hs
      cases hs
  have hinv : CaptureInv config c.w := Contract.sound captureContract_kept hstart h
  have hrec := hinv.recorded
  refine ⟨?_, fun hidle => ?_, fun hs => ?_, fun hs => ?_, fun newer e older hlog => ?_, fun token frames hs hl => ?_⟩
  · have hbounded := hrec.bounded
    rwa [hinv.fixed] at hbounded
  · obtain ⟨hbuffer, hspeech, hsilence, hheard, -⟩ := hrec.idle hidle
    exact ⟨hbuffer, hspeech, hsilence, hheard⟩
  · have haudio := hrec.audio hs
    rwa [hinv.fixed] at haudio
  · have hgoing := hrec.going hs
    rw [hinv.fixed] at hgoing
    exact verdict_none hgoing
  · have howed := hinv.owed
    rw [hlog] at howed
    exact howed.at
  · exact outcome_silent config token hs hl

namespace Example

/-- A configuration of a few milliseconds. -/
def brief : CaptureConfig := ⟨4, 2, 1, 1, 2, by decide, by decide⟩

/-- A millisecond. -/
def frame (speech : Bool) : Frame := ⟨List.replicate 32 0, speech, by decide, by decide⟩

/-- A millisecond of speech, and one of silence. -/
def utterance : List (Input Answer Method) :=
  [.invoke (.keyEqual "token"), .reply .returned, .invoke (.feed (some (frame true))), .invoke .cancel, .reply .returned,
    .invoke (.feed (some (frame false))), .reply .returned]

/-- What the last call returned. -/
def returned (c : Config CommandCapture Op Answer Exc Method CaptureResult) : Option CaptureResult :=
  match c.w.log.head?.map Entry.act with
  | some (.ret (.ok res)) => some res
  | _ => none

theorem returned_entry {c : Config CommandCapture Op Answer Exc Method CaptureResult} {res : CaptureResult}
    (h : returned c = some res) : ∃ e older, c.w.log = e :: older ∧ e.act = .ret (.ok res) := by
  unfold returned at h
  split at h
  · rename_i res' hact
    cases h
    obtain ⟨e, he, hact⟩ := Option.map_eq_some_iff.1 hact
    obtain ⟨older, hlog⟩ := List.head?_eq_some_iff.1 he
    exact ⟨e, older, hlog, hact⟩
  · cases h

end Example

/-- An utterance is handed over; a cancellation by the observer was refused. -/
theorem capture_exact_utterance :
    ∃ c e older, machine.Reachable (.new Example.brief) c ∧ c.w.log = e :: older ∧
      e.act = .ret (.ok ⟨.processing, .silence, some "token", List.replicate 64 0⟩) ∧ spoken (fed older) = true ∧
      List.replicate 64 0 = cut Example.brief (fed older) := by
  obtain ⟨c, hc, hx⟩ := Machine.Reachable.of_run machine (.new Example.brief) Example.utterance
    (fun c => Example.returned c = some ⟨.processing, .silence, some "token", List.replicate 64 0⟩) (by decide +kernel)
  obtain ⟨e, older, hlog, hact⟩ := Example.returned_entry (of_decide_eq_true hx)
  obtain ⟨-, -, -, -, howed, -⟩ := capture_exact Example.brief hc
  obtain ⟨-, -, haudio, hspoken⟩ := (howed [] e older hlog).1 _ hact (.inl rfl)
  exact ⟨c, e, older, hc, hlog, hact, hspoken, haudio⟩

end Capture

end Arhugula
