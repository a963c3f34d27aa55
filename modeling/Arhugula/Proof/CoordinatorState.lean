import Arhugula.Proof.SessionSafety
import Arhugula.Reentrant.Keeps
import Arhugula.Spec.Coordinator

/-!
# What an activation of the coordinator did

What the coordinator does to others is read off its callbacks (`effects`), and so is how far a turn has come (`turn`) and
what was observed of an activation (`stage`). A call that is under way knows its fields and these: other calls change
neither, so that what it knows is known again after every callback (`known_ask`).
-/

namespace Arhugula

namespace Coordinate

open Reentrant Session

variable {C : Type}

/-- A world of the coordinator. -/
abbrev CWorld (C : Type) := World (Coordinator C) (Op C) (Answer C) Exc Method (Value C)

/-- A log entry of the coordinator. -/
abbrev CEntry (C : Type) := Entry (Coordinator C) (Op C) (Answer C) Exc Method (Value C)

/-- A configuration of the coordinator. -/
abbrev CConfig (C : Type) := Config (Coordinator C) (Op C) (Answer C) Exc Method (Value C)

/-- An act of the coordinator. -/
abbrev CAct (C : Type) := Act (Op C) (Answer C) Exc Method (Value C)

/-! ## Effects -/

/-- What is done to others, and what they say of it. -/
inductive Effect where
  | begun (generation : ℕ)
  | released (generation : ℕ)
  | device
  | stopped (proven : Bool)
  | job
  | done (proven : Bool)
  | idle (proven : Bool)
  | told
  | observed (activation : Option ℕ) (phase : Observed) (status : Status)

/-- The answer is `True`. -/
def Answer.isTrue : Answer C → Bool
  | .truth b => b
  | _ => false

/-- The effect of an act. -/
def effect : CAct C → Option Effect
  | .call (.observe e) => some (.observed e.activation e.phase e.status)
  | .call (.handle _) => some .told
  | .call (.answer _ _) => some .told
  | .reply .begin (.generation g) => some (.begun g)
  | .reply (.release g _) .done => some (.released g)
  | .reply .makeDevice .raised => none
  | .reply .makeDevice _ => some .device
  | .reply .deviceCancel a => some (.stopped a.isTrue)
  | .reply .makeJob .raised => none
  | .reply .makeJob _ => some .job
  | .reply .jobProven a => some (.done a.isTrue)
  | .reply .captureIdle a => some (.idle a.isTrue)
  | _ => none

/-- **What was done to others**, the last first. -/
def effects (log : List (CEntry C)) : List Effect := log.filterMap fun z => effect z.act

theorem effects_cons (z : CEntry C) (log : List (CEntry C)) :
    effects (z :: log) = (effect z.act).toList ++ effects log := by
  unfold effects
  rw [List.filterMap_cons]
  cases effect z.act with
  | none => rfl
  | some e => rfl

theorem effects_append (l log : List (CEntry C)) : effects (l ++ log) = effects l ++ effects log :=
  List.filterMap_append

/-- An operation that has no part in a turn. -/
def Op.plain : Op C → Bool
  | .observe _ | .begin | .release _ _ | .handle _ | .answer _ _ => false
  | _ => true

theorem effect_of_plain {op : Op C} (hplain : op.plain = true) : effect (.call op : CAct C) = none := by
  cases op <;> first | rfl | cases hplain

/-- What answers a plain operation neither begins nor releases, nor is it observed. -/
theorem effect_of_answer {op : Op C} {a : Answer C} (hplain : op.plain = true) {e : Effect} (he : effect (.reply op a : CAct C) = some e) :
    (∀ g, e ≠ .begun g) ∧ (∀ g, e ≠ .released g) ∧ ∀ b phase status, e ≠ .observed b phase status := by
  cases op with
  | begin => cases hplain
  | release g cleaned => cases hplain
  | makeDevice => cases a <;> cases he <;> simp
  | makeJob => cases a <;> cases he <;> simp
  | deviceCancel => cases he; simp
  | jobProven => cases he; simp
  | captureIdle => cases he; simp
  | _ => cases he

/-- How far a turn has come: what was begun and is not released, whether it has a device and what stopping that said,
whether it has a job and what that said last, whether the capture was idle when it was last asked, and whether the router
was told. -/
structure Turn where
  held : Option ℕ
  device : Option (Option Bool)
  job : Option Bool
  idle : Bool
  told : Bool

/-- No turn. -/
def Turn.none : Turn := ⟨.none, .none, .none, false, false⟩

/-- What an effect makes of a turn. -/
def Turn.step (t : Turn) : Effect → Turn
  | .begun g => { Turn.none with held := some g }
  | .released _ => Turn.none
  | .device => { t with device := some .none }
  | .stopped proven => { t with device := some (some proven) }
  | .job => { t with job := some false }
  | .done proven => { t with job := some proven }
  | .idle proven => { t with idle := proven }
  | .told => { t with told := true }
  | .observed _ _ _ => t

/-- **The turn** that is under way. -/
def turn : List Effect → Turn
  | [] => Turn.none
  | e :: older => (turn older).step e

/-- What was observed of an activation. -/
inductive Stage where
  | fresh | started | silent | recorded | transcribing | finished | canceled | faulted
  deriving DecidableEq

/-- **What may be observed next.** -/
def Stage.next : Stage → Observed → Status → Option Stage
  | .faulted, _, _ => none
  | _, .ownerFaulted, .uncertain => some .faulted
  | .fresh, .captureStarted, .recording => some .started
  | .started, .captureStopped, .idle => some .silent
  | .started, .captureStopped, .processing => some .recorded
  | .fresh, .captureCanceled, .canceled => some .canceled
  | .started, .captureCanceled, .canceled => some .canceled
  | .silent, .captureCanceled, .canceled => some .canceled
  | .recorded, .captureCanceled, .canceled => some .canceled
  | .recorded, .transcriptionStarted, .processing => some .transcribing
  | .transcribing, .transcriptionFinished, .success => some .finished
  | .transcribing, .transcriptionFinished, .failed => some .finished
  | .transcribing, .transcriptionFinished, .canceled => some .canceled
  | .finished, .transcriptionFinished, .canceled => some .canceled
  | _, _, _ => none

/-- **What was observed of an activation**; `none` where it was not in order. -/
def stage (a : Option ℕ) : List Effect → Option Stage
  | [] => some .fresh
  | .observed a' phase status :: older =>
    if a' = a then (stage a older).bind fun s => s.next phase status else stage a older
  | _ :: older => stage a older

/-! ## Turns -/

/-- A stopped device, or none. -/
def Turn.isStopped (t : Turn) : Prop := t.device = .none ∨ t.device = some (some true)

/-- **All that a turn had is proven to have ended**: its device, its job, and the capture. -/
structure Turn.Clean (t : Turn) : Prop where
  device : t.isStopped
  job : t.job ≠ some false
  capture : t.idle = true

/-- What the fields of a call say is what was done. -/
structure Linked (k : Core C) (E : List Effect) : Prop where
  held : (turn E).held = k.generation
  device : (turn E).device = if k.device then some k.deviceCleaned else .none
  job : (turn E).job.isSome = k.job
  stopped : k.phase = .processing ∨ k.phase = .routing → (turn E).isStopped
  told : k.phase = .capturing ∨ k.phase = .processing → (turn E).told = false
  faulted : stage k.activation E = some .faulted → k.phase = .faulted

/-- **A turn is under way**, in a phase, and so much was observed of its activation. -/
structure Going (g : ℕ) (p : Phase) (s : Stage) (k : Core C) (E : List Effect) : Prop where
  linked : Linked k E
  generation : k.generation = some g
  phase : k.phase = p
  stage : stage k.activation E = some s
  snapshot : k.snapshot.isSome

/-- No turn is under way. -/
structure Rested (k : Core C) (E : List Effect) : Prop where
  linked : Linked k E
  generation : k.generation = none
  phase : k.phase = .idle ∨ k.phase = .faulted
  device : k.device = false
  job : k.job = false

/-- **Between the calls**: no turn is under way, or one that records, or one that is transcribed. -/
inductive Live (k : Core C) (E : List Effect) : Prop where
  | rested (h : Rested k E)
  | capturing (g : ℕ) (h : Going g .capturing .started k E)
  | processing (g : ℕ) (h : Going g .processing .transcribing k E)

/-- A live turn that captures records. -/
theorem Live.recording {k : Core C} {E : List Effect} (h : Live k E) (hp : k.phase = .capturing) :
    ∃ g, Going g .capturing .started k E := by
  cases h with
  | rested h => rcases h.phase with hi | hi <;> rw [hp] at hi <;> cases hi
  | capturing g h => exact ⟨g, h⟩
  | processing g h => rw [h.phase] at hp; cases hp

/-- A live turn that processes is transcribed. -/
theorem Live.transcribing {k : Core C} {E : List Effect} (h : Live k E) (hp : k.phase = .processing) :
    ∃ g, Going g .processing .transcribing k E := by
  cases h with
  | rested h => rcases h.phase with hi | hi <;> rw [hp] at hi <;> cases hi
  | capturing g h => rw [h.phase] at hp; cases hp
  | processing g h => exact ⟨g, h⟩

/-- What is not under way is idle, or it has a fault. -/
theorem Live.resting {k : Core C} {E : List Effect} (h : Live k E) (hg : k.generation = none) : Rested k E := by
  cases h with
  | rested h => exact h
  | capturing g h => rw [h.generation] at hg; cases hg
  | processing g h => rw [h.generation] at hg; cases hg

/-- Who has the lock has no part in a turn. -/
theorem Live.busy {k : Core C} {E : List Effect} (h : Live k E) (b : Bool) : Live { k with busy := b } E := by
  have hlinked : Linked k E → Linked { k with busy := b } E := fun hl =>
    ⟨hl.held, hl.device, hl.job, hl.stopped, hl.told, hl.faulted⟩
  cases h with
  | rested h => exact .rested ⟨hlinked h.linked, h.generation, h.phase, h.device, h.job⟩
  | capturing g h => exact .capturing g ⟨hlinked h.linked, h.generation, h.phase, h.stage, h.snapshot⟩
  | processing g h => exact .processing g ⟨hlinked h.linked, h.generation, h.phase, h.stage, h.snapshot⟩

/-- What is observed leaves the turn as it is. -/
theorem Linked.observe {k : Core C} {E : List Effect} (h : Linked k E) (a : Option ℕ) (phase : Observed) (status : Status)
    (hfaulted : stage k.activation (.observed a phase status :: E) = some .faulted → k.phase = .faulted) :
    Linked k (.observed a phase status :: E) :=
  ⟨h.held, h.device, h.job, h.stopped, h.told, hfaulted⟩

theorem stage_observed {s s' : Stage} (k : Core C) (E : List Effect) (phase : Observed) (status : Status)
    (hs : stage k.activation E = some s) (hnext : s.next phase status = some s') :
    stage k.activation (.observed k.activation phase status :: E) = some s' := by
  rw [stage, if_pos rfl, hs]
  exact hnext

theorem Going.observe {g : ℕ} {p : Phase} {s s' : Stage} {k : Core C} {E : List Effect} {phase : Observed}
    {status : Status} (h : Going g p s k E) (hnext : s.next phase status = some s') (hs' : s' ≠ .faulted) :
    Going g p s' k (.observed k.activation phase status :: E) := by
  have hstage := stage_observed k E phase status h.stage hnext
  refine ⟨h.linked.observe _ _ _ fun hf => ?_, h.generation, h.phase, hstage, h.snapshot⟩
  rw [hstage] at hf
  exact absurd (Option.some.inj hf) hs'

/-- What is written has no part in a turn. -/
theorem Going.minor {g : ℕ} {p : Phase} {s : Stage} {k : Core C} {E : List Effect} (h : Going g p s k E) (code : String)
    (sequence : ℕ) (framer : Option Pcm.PcmFramer) (deadline : Option Time) :
    Going g p s { k with code := code, sequence := sequence, framer := framer, deadline := deadline } E :=
  ⟨⟨h.linked.held, h.linked.device, h.linked.job, h.linked.stopped, h.linked.told, h.linked.faulted⟩, h.generation, h.phase,
    h.stage, h.snapshot⟩

/-- The fields at the end of a turn. -/
def Core.ended (k : Core C) (clean : Bool) : Core C :=
  { k with
    generation := none
    job := false
    device := false
    framer := none
    phase := if clean then .idle else .faulted }

/-- **The end of a turn.** -/
theorem Going.rested {g : ℕ} {p : Phase} {s : Stage} {k : Core C} {E : List Effect} (h : Going g p s k E)
    (hs : s ≠ .faulted) (clean : Bool) : Rested (k.ended clean) (.released g :: E) := by
  have hphase : (k.ended clean).phase = .idle ∨ (k.ended clean).phase = .faulted := by
    cases clean with
    | true => exact .inl rfl
    | false => exact .inr rfl
  refine ⟨⟨rfl, rfl, rfl, fun hp => ?_, fun hp => ?_, fun hf => ?_⟩, rfl, hphase, rfl, rfl⟩
  · rcases hphase with hi | hi <;> rw [hi] at hp <;> simp at hp
  · rcases hphase with hi | hi <;> rw [hi] at hp <;> simp at hp
  · exact absurd (Option.some.inj (h.stage.symm.trans hf)) hs

/-- What the capture says of itself is recorded. -/
theorem Going.idle {g : ℕ} {p : Phase} {s : Stage} {k : Core C} {E : List Effect} (h : Going g p s k E) (b : Bool) :
    Going g p s k (.idle b :: E) :=
  ⟨⟨h.linked.held, h.linked.device, h.linked.job, h.linked.stopped, h.linked.told, h.linked.faulted⟩, h.generation, h.phase,
    h.stage, h.snapshot⟩

/-- What a job says of its cleanup is recorded. -/
theorem Going.proven {g : ℕ} {p : Phase} {s : Stage} {k : Core C} {E : List Effect} (h : Going g p s k E)
    (hjob : k.job = true) (b : Bool) : Going g p s k (.done b :: E) :=
  ⟨⟨h.linked.held, h.linked.device, hjob.symm, h.linked.stopped, h.linked.told, h.linked.faulted⟩, h.generation, h.phase,
    h.stage, h.snapshot⟩

/-! ## The owner -/

/-- The owner is held by a generation. -/
def Owns (o : SessionOwner) (g : ℕ) : Prop := o.owner = some g ∧ 0 < g ∧ (o.state = .owned ∨ o.state = .canceling)

theorem Owns.not_faulted {o : SessionOwner} {g : ℕ} (h : Owns o g) : o.state ≠ .faulted := by
  intro hs
  rcases h.2.2 with ho | hc
  · rw [hs] at ho
    cases ho
  · rw [hs] at hc
    cases hc

/-- What is begun is held. -/
theorem begin_owns {o o' : SessionOwner} {g : ℕ} (h : o.begin (some "command") = .ok (g, o')) :
    Owns o' g ∧ g = o.generation + 1 ∧ o'.generation = g := by
  obtain ⟨-, rfl, rfl⟩ := begin_spec h
  exact ⟨⟨rfl, Nat.succ_pos _, .inl rfl⟩, rfl, rfl⟩

/-- What is held can be released. -/
theorem Owns.release {o : SessionOwner} {g : ℕ} (h : Owns o g) (clean : Bool) :
    ∃ o', o.release (some (g : ℤ)) (some clean) = .ok o' ∧ o'.generation = o.generation := by
  have hpositive : positive (some (g : ℤ)) = some g := by
    have := h.2.1
    show (if 0 < (g : ℤ) then some (g : ℤ).toNat else none) = some g
    rw [if_pos (by omega), Int.toNat_natCast]
  unfold SessionOwner.release
  rw [hpositive]
  dsimp only
  rw [if_neg h.not_faulted, if_neg (not_not.2 h.1)]
  cases clean <;> exact ⟨_, rfl, rfl⟩

/-- **What is held stays held**, unless it is released. -/
theorem Owns.step {o : SessionOwner} {g : ℕ} (h : Owns o g) (call : Call)
    (hforeign : ∀ z c, call = .release z c → positive z ≠ some g) : Owns (Session.step o call).2 g := by
  cases call with
  | begin mode =>
    unfold Session.step
    dsimp only
    cases hb : o.begin mode with
    | error x => exact h
    | ok r =>
      -- it is not idle
      have hidle := (begin_spec hb).1
      rcases h.2.2 with hs | hs <;> rw [hidle] at hs <;> cases hs
  | cancel z =>
    unfold Session.step
    dsimp only
    cases hc : o.cancel z with
    | error x => exact h
    | ok r =>
      obtain ⟨k, o'⟩ := r
      rcases cancel_spec hc with ⟨rfl, -⟩ | ⟨rfl, -⟩
      · refine ⟨h.1, h.2.1, ?_⟩
        show (if o.state = .owned then State.canceling else o.state) = .owned ∨
          (if o.state = .owned then State.canceling else o.state) = .canceling
        split
        · exact .inr rfl
        · exact h.2.2
      · exact h
  | accepts z => exact h
  | release z c =>
    unfold Session.step
    dsimp only
    cases hr : o.release z c with
    | error x => exact h
    | ok o' =>
      obtain ⟨n, c', rfl, -, howner, -⟩ := release_spec hr
      have hn : n = g := Option.some.inj (howner.symm.trans h.1)
      refine absurd ?_ (hforeign _ c rfl)
      subst hn
      have := h.2.1
      show (if 0 < (n : ℤ) then some (n : ℤ).toNat else none) = some n
      rw [if_pos (by omega), Int.toNat_natCast]

/-- Generations rise. -/
theorem step_grows (o : SessionOwner) (call : Call) : o.generation ≤ (Session.step o call).2.generation := by
  cases call with
  | begin mode =>
    unfold Session.step
    dsimp only
    cases hb : o.begin mode with
    | error x => exact le_rfl
    | ok r =>
      obtain ⟨g, o'⟩ := r
      obtain ⟨-, -, rfl⟩ := begin_spec hb
      exact Nat.le_succ _
  | cancel z =>
    unfold Session.step
    dsimp only
    cases hc : o.cancel z with
    | error x => exact le_rfl
    | ok r =>
      obtain ⟨k, o'⟩ := r
      rcases cancel_spec hc with ⟨rfl, -⟩ | ⟨rfl, -⟩
      · exact Nat.le_succ _
      · exact le_rfl
  | accepts z => exact le_rfl
  | release z c =>
    unfold Session.step
    dsimp only
    cases hr : o.release z c with
    | error x => exact le_rfl
    | ok o' =>
      obtain ⟨n, c', -, -, -, -, rfl⟩ := release_spec hr
      cases c' <;> exact le_rfl

/-! ## What is owed -/

variable [DecidableEq C]

/-- The sample of a check that passed: it is what the activation was given, and there was no reason to stop. -/
def Sampled (g : ℕ) (z : CEntry C) : Prop :=
  ∃ v, z.act = .reply .sample (.voice v) ∧ z.st.stands (some v) = true ∧ z.st.generation = some g

/-- **The last check passed**, in time, and nothing was done to others since. -/
def Fresh (g : ℕ) (log : List (CEntry C)) : Prop :=
  ∃ newer z older, log = newer ++ z :: older ∧ Sampled g z ∧ effects newer = [] ∧
    (∃ y ∈ newer, y.act = .reply (.accepts g) (.truth true)) ∧
    ∃ y ∈ newer, ∃ t, y.act = .reply .clock (.time t) ∧ y.st.isLate t = .ok ()

/-- A transcript was given. -/
def Given (r : Transcribe.TranscriptResult) (z : CEntry C) : Prop :=
  z.act = .reply .jobPoll (.transcript r) ∨ z.act = .invoke (.transcribed (some r))

/-- What is owed of a text that the router is told. -/
structure Told (text : String) (older : List (CEntry C)) : Prop where
  once : (turn (effects older)).told = false
  stopped : (turn (effects older)).isStopped
  done : (turn (effects older)).job = some true
  fresh : ∃ g, (turn (effects older)).held = some g ∧ Fresh g older ∧
    ∃ y ∈ older, ∃ r, Given r y ∧ r.generation = (g : ℤ) ∧ spoken r = some text

/-- What takes part in a turn. -/
def Op.works : Op C → Bool
  | .keyEqual | .captureFeed _ | .makeDevice | .deviceStart | .makeJob | .jobStart _ _ | .confirm _ _ _ => true
  | _ => false

/-- What is owed of an entry. -/
structure Safe (z : CEntry C) (older : List (CEntry C)) : Prop where
  calm : z.st.phase ≠ .faulted → ∀ y ∈ older, y.st.phase ≠ .faulted
  begins : z.act = .call .begin → z.st.phase = .idle
  begun : ∀ g, effect z.act = some (.begun g) → (turn (effects older)).held = none
  released : ∀ g, effect z.act = some (.released g) → (turn (effects older)).held = some g
  clean : ∀ g, z.act = .call (.release g true) → (turn (effects older)).Clean
  works : ∀ op, z.act = .call op → op.works → z.st.phase ≠ .faulted ∧ ((turn (effects older)).held).isSome
  handled : ∀ text, z.act = .call (.handle text) → z.st.phase = .routing ∧ Told text older
  answered : ∀ token text, z.act = .call (.answer token text) → z.st.phase = .routing ∧ Told text older

/-- What is so between any two callbacks. -/
structure Base (w : CWorld C) : Prop where
  safe : Throughout Safe w.log
  calm : w.st.phase ≠ .faulted → ∀ z ∈ w.log, z.st.phase ≠ .faulted
  observed : ∀ a, (stage a (effects w.log)).isSome
  known : ∀ a phase status, Effect.observed (some a) phase status ∈ effects w.log → a ≤ w.st.owner.generation
  activation : ∀ a, w.st.activation = some a → a ≤ w.st.owner.generation
  owns : ∀ g, w.st.generation = some g → Owns w.st.owner g

/-- The invariant. -/
structure Inv (w : CWorld C) : Prop where
  base : Base w
  live : w.st.busy = false → Live w.st.toCore (effects w.log)

/-- What other calls do: nothing to one that is under way. -/
structure Rel (a b : CWorld C) : Prop where
  held : a.st.busy = true → b.st.toCore = a.st.toCore ∧ effects b.log = effects a.log
  free : a.st.busy = false → b.st.busy = false

/-- The contract. -/
def contract (u : Setup C) : Contract (machine (C := C) u) where
  Inv := Inv
  Rel _ := Rel
  refl _ _ := ⟨fun _ => ⟨rfl, rfl⟩, fun h => h⟩
  trans {ctx a b c} h h' := by
    refine ⟨fun ha => ?_, fun ha => h'.free (h.free ha)⟩
    obtain ⟨hcore, heffects⟩ := h.held ha
    have hbusy : b.st.busy = true := (congrArg Core.busy hcore).trans ha
    obtain ⟨hcore', heffects'⟩ := h'.held hbusy
    exact ⟨hcore'.trans hcore, heffects'.trans heffects⟩

variable {u : Setup C} {w w' : CWorld C} {i : ℕ} {ctx : List (ℕ × Op C)} {op : Op C} {a : Answer C} {act : CAct C} {α : Type}

/-! ## Entries -/

/-- What is owed of an entry that is no callback. -/
theorem safe_other {z : CEntry C} {older : List (CEntry C)} (hcalm : z.st.phase ≠ .faulted → ∀ y ∈ older, y.st.phase ≠ .faulted)
    (hact : ∀ op, z.act ≠ .call op) (hbegun : ∀ g, effect z.act = some (.begun g) → (turn (effects older)).held = none)
    (hreleased : ∀ g, effect z.act = some (.released g) → (turn (effects older)).held = some g) : Safe z older :=
  ⟨hcalm, fun h => absurd h (hact _), hbegun, hreleased, fun _ h => absurd h (hact _), fun op h => absurd h (hact op),
    fun _ h => absurd h (hact _), fun _ _ h => absurd h (hact _)⟩

/-- **An entry is logged.** -/
theorem Base.push (h : Base w) (hsafe : Safe ⟨i, act, w.st⟩ w.log)
    (hobserved : ∀ a phase status, effect act = some (.observed a phase status) →
      ((stage a (effects w.log)).bind fun s => s.next phase status).isSome ∧ ∀ b, a = some b → b ≤ w.st.owner.generation) :
    Base (w.push i act) := by
  have hlog : effects (w.push i act).log = (effect act).toList ++ effects w.log := effects_cons _ _
  refine ⟨⟨hsafe, h.safe⟩, fun hf z hz => ?_, fun b => ?_, fun b phase status hb => ?_, h.activation, h.owns⟩
  · rcases List.mem_cons.1 hz with rfl | hz
    · exact hf
    · exact h.calm hf z hz
  · rw [hlog]
    cases he : effect act with
    | none => exact h.observed b
    | some e =>
      cases e with
      | observed a phase status =>
        show (if a = b then (stage b (effects w.log)).bind fun s => s.next phase status
          else stage b (effects w.log)).isSome = true
        split
        · rename_i hab
          exact hab ▸ (hobserved a phase status he).1
        · exact h.observed b
      | _ => exact h.observed b
  · rw [hlog] at hb
    rcases List.mem_append.1 hb with hb | hb
    · exact (hobserved _ phase status (Option.mem_toList.1 hb)).2 b rfl
    · exact h.known b phase status hb

/-- A call, or its end, is logged. -/
theorem Base.idle (h : Base w) (hact : ∀ op, act ≠ .call op) (heffect : effect act = none) : Base (w.push i act) := by
  refine h.push (safe_other h.calm hact (fun g hg => ?_) fun g hg => ?_) fun a phase status ha => ?_
  all_goals
    rw [heffect] at *
    simp at *

/-- The state is written: a fault stays, the owner is held, and its generations grow. -/
theorem Base.write (s : Coordinator C) (h : Base w) (hphase : s.phase ≠ .faulted → w.st.phase ≠ .faulted)
    (howns : ∀ g, s.generation = some g → Owns s.owner g) (hactivation : ∀ a, s.activation = some a → a ≤ s.owner.generation)
    (howner : w.st.owner.generation ≤ s.owner.generation) : Base (w.put s) :=
  ⟨h.safe, fun hf => h.calm (hphase hf), h.observed, fun b phase status hb => (h.known b phase status hb).trans howner,
    hactivation, howns⟩

/-- The state is written: neither the owner nor the activation is another, and a fault stays. -/
theorem Base.put (s : Coordinator C) (h : Base w) (hphase : s.phase ≠ .faulted → w.st.phase ≠ .faulted)
    (hgeneration : ∀ g, s.generation = some g → w.st.generation = some g) (hactivation : s.activation = w.st.activation)
    (howner : s.owner = w.st.owner) : Base (w.put s) := by
  refine h.write s hphase (fun g hg => ?_) (fun a ha => ?_) (howner ▸ le_rfl)
  · exact howner ▸ h.owns g (hgeneration g hg)
  · exact howner ▸ h.activation a (hactivation ▸ ha)

/-! ## What a call knows -/

variable {P N : Core C → List Effect → Prop} {M : List (CEntry C)}

/-- **What a call that is under way knows** between its callbacks. -/
structure Known (P : Core C → List Effect → Prop) (M : List (CEntry C)) (w : CWorld C) : Prop where
  base : Base w
  busy : w.st.busy = true
  holds : P w.st.toCore (effects w.log)
  given : M ⊆ w.log

theorem Known.mono (h : Known P M w) (hP : ∀ k E, P k E → N k E) : Known N M w :=
  ⟨h.base, h.busy, hP _ _ h.holds, h.given⟩

theorem Known.put (s : Coordinator C) (h : Known P M w) (hbase : Base (w.put s)) (hbusy : s.busy = w.st.busy)
    (hP : N s.toCore (effects w.log)) : Known N M (w.put s) :=
  ⟨hbase, hbusy.trans h.busy, hP, h.given⟩

/-- The fields that are written, and the effects so far, are known. -/
theorem Known.become {k : Core C} {E : List Effect} (s : Coordinator C) (h : Known P M w) (hbase : Base (w.put s))
    (hbusy : s.busy = w.st.busy) (hcore : s.toCore = k) (heffects : effects w.log = E) (hP : N k E) : Known N M (w.put s) := by
  subst hcore heffects
  exact h.put s hbase hbusy hP

/-- What is written has no part in a turn. -/
theorem Known.minor {g : ℕ} {p : Phase} {s : Stage} (h : Known (Going g p s) M w) (code : String) (sequence : ℕ)
    (framer : Option Pcm.PcmFramer) (deadline : Option Time) :
    Known (Going g p s) M
      (w.put { w.st with code := code, sequence := sequence, framer := framer, deadline := deadline }) :=
  h.put _ (h.base.put _ id (fun _ hg => hg) rfl rfl) rfl (h.holds.minor _ _ _ _)

/-- **A callback**: whatever other calls are made meanwhile, its call knows its own fields and effects. -/
theorem known_ask {Q : Except Exc (Answer C) → CWorld C → Prop} (hbusy : w.st.busy = true)
    (hbase : Base (w.push i (.call op)))
    (hQ : ∀ w' a l, Base w' → w'.st.toCore = w.st.toCore → w'.log = l ++ ⟨i, .call op, w.st⟩ :: w.log →
      effects l = [] → answers w'.st.owner op a = true → Q (.ok a) (w'.push i (.reply op a))) :
    Holds (contract u) ctx i (Prog.ask op) Q w := by
  have hheld : (w.push i (.call op)).st.busy = true := hbusy
  refine ⟨⟨hbase, fun hfree => absurd (hheld.symm.trans hfree) (by simp)⟩, fun w' hinv hgrows hrel a ha => ?_⟩
  obtain ⟨hcore, heffects⟩ := Rel.held hrel hheld
  obtain ⟨-, l, hlog, -⟩ := hgrows
  refine hQ w' a l (Inv.base hinv) hcore hlog ?_ ha
  rw [hlog, World.push_log, effects_append] at heffects
  exact List.append_left_eq_self.1 heffects

/-- What is owed of a plain operation. -/
theorem safe_plain (hplain : op.plain = true) (h : Base w)
    (hworks : op.works = true → w.st.phase ≠ .faulted ∧ ((turn (effects w.log)).held).isSome) :
    Safe ⟨i, .call op, w.st⟩ w.log := by
  refine ⟨h.calm, fun hop => ?_, fun g hg => ?_, fun g hg => ?_, fun g hop => ?_, fun op' hop hw => ?_, fun text hop => ?_,
    fun token text hop => ?_⟩
  · cases hop
    cases hplain
  · rw [effect_of_plain hplain] at hg
    cases hg
  · rw [effect_of_plain hplain] at hg
    cases hg
  · cases hop
    cases hplain
  · cases hop
    exact hworks hw
  · cases hop
    cases hplain
  · cases hop
    cases hplain

/-- **A plain operation** keeps what its effects keep. Its answer is the last entry then. -/
theorem plain_ask {Q : Except Exc (Answer C) → CWorld C → Prop} (hplain : op.plain = true) (h : Known P M w)
    (hworks : op.works = true → w.st.phase ≠ .faulted ∧ ((turn (effects w.log)).held).isSome)
    (hreply : ∀ a e, effect (.reply op a : CAct C) = some e → P w.st.toCore (effects w.log) →
      N w.st.toCore (e :: effects w.log))
    (hsame : ∀ a, effect (.reply op a : CAct C) = none → P w.st.toCore (effects w.log) → N w.st.toCore (effects w.log))
    (hQ : ∀ a w' l, Known N M w' → w'.log = ⟨i, .reply op a, w'.st⟩ :: (l ++ ⟨i, .call op, w.st⟩ :: w.log) →
      effects l = [] → w'.st.toCore = w.st.toCore → answers w'.st.owner op a = true → Q (.ok a) w') :
    Holds (contract u) ctx i (Prog.ask op) Q w := by
  have hcall : effect (.call op : CAct C) = none := effect_of_plain hplain
  refine known_ask h.busy (h.base.push (safe_plain hplain h.base hworks) fun b phase status hb => ?_)
    fun w' a l hbase hcore hlog hl ha => hQ a _ l ⟨hbase.push ?_ fun b phase status hb => ?_, ?_, ?_, ?_⟩ ?_ hl hcore ha
  · rw [hcall] at hb
    cases hb
  · refine safe_other hbase.calm (fun _ hc => by cases hc) (fun g hg => ?_) fun g hg => ?_
    · exact absurd rfl ((effect_of_answer hplain hg).1 g)
    · exact absurd rfl ((effect_of_answer hplain hg).2.1 g)
  · exact absurd rfl ((effect_of_answer hplain hb).2.2 b phase status)
  · exact (congrArg Core.busy hcore).trans h.busy
  · have heffects : effects w'.log = effects w.log := by
      rw [hlog, effects_append, hl, effects_cons, hcall]
      rfl
    show N w'.st.toCore (effects (w'.push i (.reply op a)).log)
    rw [World.push_log, effects_cons, heffects, hcore]
    cases he : effect (.reply op a : CAct C) with
    | none => exact hsame a he h.holds
    | some e => exact hreply a e he h.holds
  · intro z hz
    rw [World.push_log, hlog]
    exact List.mem_cons_of_mem _ (List.mem_append_right _ (List.mem_cons_of_mem _ (h.given hz)))
  · rw [World.push_log, hlog]
    rfl

/-- A plain operation, wherever an assertion is kept. -/
theorem keeps_plain (op : Op C) (hplain : op.plain = true)
    (hworks : op.works = true → ∀ k E, P k E → k.phase ≠ .faulted ∧ ((turn E).held).isSome)
    (hreply : ∀ a e k E, effect (.reply op a : CAct C) = some e → P k E → P k (e :: E)) :
    Keeps (contract u) ctx i (Known P M) (ask op) fun _ => True := by
  intro w h
  unfold ask
  rw [holds_bind]
  refine plain_ask (N := P) hplain h (fun hw => hworks hw _ _ h.holds) (fun a e he => hreply a e _ _ he) (fun _ _ hp => hp)
    fun a w' l h' _ _ _ _ => ?_
  cases a <;> exact ⟨h', fun _ _ => trivial⟩

theorem keeps_perform {op : Op C} {L : CWorld C → Prop} (h : Keeps (contract u) ctx i L (ask op) fun _ => True) :
    Keeps (contract u) ctx i L (perform op) fun _ => True :=
  h.bind fun _ _ => keeps_pure trivial

theorem keeps_proves {op : Op C} {L : CWorld C → Prop} (h : Keeps (contract u) ctx i L (ask op) fun _ => True) :
    Keeps (contract u) ctx i L (proves op) fun _ => True :=
  h.bind fun a _ => by cases a <;> exact keeps_pure trivial

/-! ## Steady assertions -/

/-- An operation that has no effect, and no part in a turn. -/
structure Silent (op : Op C) : Prop where
  plain : op.plain = true
  works : op.works = false
  silent : ∀ a, effect (.reply op a : CAct C) = none

/-- **A steady assertion** is kept by what other calls may do, too: operations that have no effect, and writes of what is
not in the core. -/
structure Steady (u : Setup C) (ctx : List (ℕ × Op C)) (i : ℕ) (L : CWorld C → Prop) : Prop where
  ask : ∀ op, Silent op → Survives (contract u) ctx i L op
  write : ∀ (w : CWorld C) (s : Coordinator C), L w → s.toCore = w.st.toCore →
    (∀ g, w.st.generation = some g → Owns w.st.owner g → Owns s.owner g) →
    w.st.owner.generation ≤ s.owner.generation → L (w.put s)

/-- What a call knows is steady. -/
theorem steady_known : Steady u ctx i (Known P M) where
  ask op h w hw := by
    refine (holds_ask op).1 (plain_ask (Q := fun _ w' => Known P M w') (N := P) h.plain hw (fun hworks => ?_) (fun a e he => ?_)
      (fun _ _ hp => hp) fun a w' l h' _ _ _ _ => h')
    · rw [h.works] at hworks
      cases hworks
    · rw [h.silent] at he
      cases he
  write w s h hcore howns hgrows := by
    have hgeneration : s.generation = w.st.generation := congrArg Core.generation hcore
    have hactivation : s.activation = w.st.activation := congrArg Core.activation hcore
    refine h.put s (h.base.write s (fun hf => ?_) (fun g hg => ?_) (fun a ha => ?_) hgrows) (congrArg Core.busy hcore) ?_
    · rw [← congrArg Core.phase hcore]
      exact hf
    · rw [hgeneration] at hg
      exact howns g hg (h.base.owns g hg)
    · exact (h.base.activation a (hactivation ▸ ha)).trans hgrows
    · rw [hcore]
      exact h.holds

/-- What other calls may do has been done since a world. -/
structure Aside (w₀ w : CWorld C) : Prop where
  inv : Inv w
  rel : Rel w₀ w

/-- An entry without an effect is logged. -/
theorem Aside.push {w₀ : CWorld C} (h : Aside w₀ w) (hbase : Base (w.push i act)) (heffect : effect act = none) :
    Aside w₀ (w.push i act) := by
  have hsame : effects (w.push i act).log = effects w.log := by
    rw [World.push_log, effects_cons, heffect]
    rfl
  refine ⟨⟨hbase, fun hb => ?_⟩, fun hb => ?_, h.rel.free⟩
  · rw [hsame]
    exact h.inv.live hb
  · rw [hsame]
    exact h.rel.held hb

/-- What other calls may do is steady. -/
theorem steady_aside (w₀ : CWorld C) : Steady u ctx i (Aside w₀) where
  ask op h w hw := by
    have hcall : effect (.call op : CAct C) = none := effect_of_plain h.plain
    have hpush : Aside w₀ (w.push i (.call op)) := by
      refine hw.push (hw.inv.base.push (safe_plain h.plain hw.inv.base fun hworks => ?_) fun b phase status hb => ?_) hcall
      · rw [h.works] at hworks
        cases hworks
      · rw [hcall] at hb
        cases hb
    refine ⟨hpush.inv, fun w' hinv _ hrel a _ => ?_⟩
    have hlong : (contract u).Rel [] w₀ w' := (contract u).trans hpush.rel hrel
    have hw' : Aside w₀ w' := ⟨hinv, hlong⟩
    exact hw'.push (Base.idle (Inv.base hinv) (fun _ hc => by cases hc) (h.silent a)) (h.silent a)
  write w s h hcore howns hgrows := by
    have hbusy : s.busy = w.st.busy := congrArg Core.busy hcore
    have hgeneration : s.generation = w.st.generation := congrArg Core.generation hcore
    have hactivation : s.activation = w.st.activation := congrArg Core.activation hcore
    refine ⟨⟨h.inv.base.write s (fun hf => ?_) (fun g hg => ?_) (fun a ha => ?_) hgrows, fun hb => ?_⟩, fun hb => ?_, fun hb => ?_⟩
    · rw [← congrArg Core.phase hcore]
      exact hf
    · rw [hgeneration] at hg
      exact howns g hg (h.inv.base.owns g hg)
    · exact (h.inv.base.activation a (hactivation ▸ ha)).trans hgrows
    · show Live s.toCore (effects w.log)
      rw [hcore]
      exact h.inv.live (hbusy.symm.trans hb)
    · show s.toCore = _ ∧ _
      rw [hcore]
      exact h.rel.held hb
    · exact hbusy.trans (h.rel.free hb)

variable {L : CWorld C → Prop}

theorem Steady.silent (hL : Steady u ctx i L) {op : Op C} (h : Silent op) :
    Keeps (contract u) ctx i L (Coordinate.ask op) fun _ => True := by
  refine (keeps_ask (hL.ask op h)).bind fun a _ => ?_
  cases a <;> first | exact keeps_throw | exact keeps_pure trivial

/-- What other calls may change, too. -/
theorem Steady.volatile (hL : Steady u ctx i L) {f : Coordinator C → Coordinator C} (hcore : ∀ s, (f s).toCore = s.toCore)
    (howner : ∀ s, (f s).owner = s.owner) : Keeps (contract u) ctx i L (Prog.write f) fun _ => True :=
  keeps_write fun w h => hL.write w _ h (hcore w.st) (fun _ _ ho => (howner w.st).symm ▸ ho) (howner w.st ▸ le_rfl)

/-- A call to the owner, unless it releases what is held. -/
theorem Steady.owner (hL : Steady u ctx i L) (call : Call) (h : L w)
    (hforeign : ∀ g, w.st.generation = some g → ∀ z c, call = .release z c → positive z ≠ some g) :
    L (w.put { w.st with owner := (Session.step w.st.owner call).2 }) :=
  hL.write w _ h rfl (fun g hg ho => ho.step call (hforeign g hg)) (step_grows _ _)

end Coordinate

end Arhugula
