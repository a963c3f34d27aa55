import Arhugula.Proof.ConversationState
import Arhugula.Reentrant.Keeps

/-!
# The steps of a conversation

`deskContract` is the contract of the conversation: its invariant, and what nested calls and other
threads may do while a call is under way. Then each part of `_run` has its lemma: what `_check`,
`_invalidate`, `_cleanup` and `_stop` leave, whatever their callbacks do.
-/

namespace Arhugula

namespace Conversation

open Reentrant Session

variable {latch : Bool} {w w' w₁ w₂ : DWorld} {d d' : Desk} {log : List DEntry} {e : DEntry}
  {ctx : List (ℕ × Op)} {i : ℕ} {op : Op} {a : Answer}

/-! ## What the log says -/

/-- A callback of activation `i` raised what is no `Exception`. -/
def Broken (log : List DEntry) (i : ℕ) : Prop :=
  ∃ e ∈ log, e.frame = i ∧ ∃ op, e.act = .reply op (.raised true)

/-- A callback raised what is no `Exception`. -/
def Disturbed (log : List DEntry) : Prop := ∃ i, Broken log i

/-- Activation `i` made a callback. -/
def Called (log : List DEntry) (i : ℕ) : Prop := ∃ e ∈ log, e.frame = i ∧ ∃ op, e.act = .call op

theorem Broken.cons (h : Broken log i) : Broken (e :: log) i := by
  obtain ⟨m, hm, hrest⟩ := h
  exact ⟨m, List.mem_cons_of_mem e hm, hrest⟩

theorem Disturbed.cons (h : Disturbed log) : Disturbed (e :: log) := by
  obtain ⟨i, hi⟩ := h
  exact ⟨i, hi.cons⟩

theorem broken_cons (h : Broken (e :: log) i) :
    Broken log i ∨ (e.frame = i ∧ ∃ op, e.act = .reply op (.raised true)) := by
  obtain ⟨m, hm, hf, hact⟩ := h
  rcases List.mem_cons.1 hm with rfl | hm
  · exact .inr ⟨hf, hact⟩
  · exact .inl ⟨m, hm, hf, hact⟩

theorem broken_grows (h : Grows i w w') : Broken w'.log i ↔ Broken w.log i := by
  obtain ⟨-, l, hl, hnew⟩ := h
  constructor
  · rintro ⟨e, he, hf, hact⟩
    rw [hl] at he
    rcases List.mem_append.1 he with he | he
    · exact absurd hf (hnew e he).ne'
    · exact ⟨e, he, hf, hact⟩
  · rintro ⟨e, he, hrest⟩
    rw [hl]
    exact ⟨e, List.mem_append_right l he, hrest⟩

theorem disturbed_grows (h : Grows i w w') (hd : Disturbed w.log) : Disturbed w'.log := by
  obtain ⟨j, e, he, hrest⟩ := hd
  exact ⟨j, e, h.mem he, hrest⟩

/-! ## The history -/

/-- **The exchange that was published** carries the token that was pending, in the same session. -/
def Published (a b : Desk) : Prop :=
  ∃ (r : Request) (x : Exchange), a.request = some r ∧ a.sessionId = some r.token.sessionId ∧ b.sessionId = a.sessionId ∧
    x.token = r.token ∧ x.text = r.text ∧ b.history = a.history ++ [x]

/-- **How the history may change**: an exchange is published, or all is cleared where the session
ends. -/
def Follows (a b : Desk) : Prop :=
  b.history = a.history ∨ Published a b ∨ (b.history = [] ∧ (b.phase = .inactive ∨ b.phase = .faulted))

/-- The history follows from that of the last entry. -/
def Linked (log : List DEntry) (d : Desk) : Prop :=
  match log with
  | [] => d.history = []
  | m :: _ => Follows m.st d

/-- The history is that of the last entry. -/
def Level (log : List DEntry) (history : List Exchange) : Prop :=
  match log with
  | [] => history = []
  | m :: _ => history = m.st.history

theorem Level.linked (h : Level log d.history) : Linked log d := by
  cases log with
  | nil => exact h
  | cons m log => exact .inl h

/-! ## Where nothing is under way -/

/-- **What is known where nothing is under way.** The end of a stop is missed, and a job stays
unknown, only where a callback raised what is no `Exception`, or where the owner was faulted by
another client. -/
structure Rest (latch : Bool) (log : List DEntry) (d : Desk) : Prop where
  gate : d.gate = false
  active : d.active = true → d.lease ≠ none
  still : d.phase = .ready ∨ d.phase = .clarifying ∨ d.phase = .inactive → d.job = none ∧ d.unknownJob = false
  ready : d.phase = .ready → d.request = none
  ended : d.phase = .inactive ∨ d.phase = .faulted → d.lease = none ∧ d.request = none ∧
    d.snapshot = none ∧ d.sessionId = none ∧ d.history = []
  faulted : d.phase = .faulted → d.owner.state = .faulted
  stopping : d.phase = .stopping → d.intent ≠ none ∧
    (Disturbed log ∨ (latch = true ∧ d.owner.state = .faulted))
  unknown : d.unknownJob = true → d.phase = .faulted ∨ Disturbed log ∨
    (latch = true ∧ d.owner.state = .faulted)

/-! ## What a return owes -/

/-- The operations that a fault of another client is to be absorbed by. -/
def Method.absorbs : Method → Bool
  | .poll | .submit _ | .cancelTurn | .end' | .handoff | .exitKey _ => true
  | _ => false

/-- **A fault was absorbed**: the display shows the end, all is cleared, and no `FaultedError`
escapes. -/
structure Absorbed (r : Except Exc Value) (d : Desk) : Prop where
  display : d.display = .inactive ∨ d.display = .faulted
  cleared : d.history = [] ∧ d.snapshot = none ∧ d.sessionId = none ∧ d.request = none
  escapes : r ≠ .error (.session .faulted)

/-- What an entry owes to the entries before it. -/
structure Owes (e : DEntry) (older : List DEntry) : Prop where
  linked : Linked older e.st
  absorbed : ∀ r, e.act = .ret r → ∀ m ∈ older, m.frame = e.frame → ∀ x, m.act = .invoke x →
    x.absorbs = true → m.st.busy = false → m.st.owner.state = .faulted → Called older e.frame →
      e.st.active = false → (Absorbed r e.st ↔ m.st.lease = none ∧ ¬ Broken older e.frame)

/-! ## The contract -/

/-- What is known whatever is under way. -/
structure Core (latch : Bool) (w : DWorld) : Prop where
  owes : Throughout Owes w.log
  owning : Owning latch w.st.owner w.st.lease w.st.others w.st.deeds
  bounds : Bounds w.st.snapshot w.st.sessionId w.st.request w.st.history w.st.turn
  jobs : Jobs w.log w.st.job w.st.unknownJob
  lost : w.st.lease = none → w.st.job = none ∧ (w.st.unknownJob = true → w.st.owner.state = .faulted)

/-- **The invariant.** -/
structure DInv (latch : Bool) (w : DWorld) : Prop extends Core latch w where
  level : Level w.log w.st.history
  rest : w.st.busy = false → Rest latch w.log w.st

/-- **What may change while a call is under way**: the intent, but it stays one; and the owner, but
a fault stays. -/
structure Moves (d d' : Desk) : Prop where
  own : d'.toController = d.toController
  intent : d.intent ≠ none → d'.intent ≠ none
  faulted : d.owner.state = .faulted → d'.owner.state = .faulted

theorem Moves.refl (d : Desk) : Moves d d := ⟨rfl, id, id⟩

theorem Moves.trans {d'' : Desk} (h : Moves d d') (h' : Moves d' d'') : Moves d d'' :=
  ⟨h'.own.trans h.own, fun hi => h'.intent (h.intent hi), fun hf => h'.faulted (h.faulted hf)⟩

section Own

variable (h : Moves d d')
include h

theorem Moves.busy : d'.busy = d.busy := congrArg Controller.busy h.own
theorem Moves.lease : d'.lease = d.lease := congrArg Controller.lease h.own
theorem Moves.snapshot : d'.snapshot = d.snapshot := congrArg Controller.snapshot h.own
theorem Moves.sessionId : d'.sessionId = d.sessionId := congrArg Controller.sessionId h.own
theorem Moves.request : d'.request = d.request := congrArg Controller.request h.own
theorem Moves.job : d'.job = d.job := congrArg Controller.job h.own
theorem Moves.unknownJob : d'.unknownJob = d.unknownJob := congrArg Controller.unknownJob h.own
theorem Moves.history : d'.history = d.history := congrArg Controller.history h.own
theorem Moves.turn : d'.turn = d.turn := congrArg Controller.turn h.own
theorem Moves.phase : d'.phase = d.phase := congrArg Controller.phase h.own
theorem Moves.gate : d'.gate = d.gate := congrArg Controller.gate h.own

end Own

/-- **The contract of the conversation.** -/
def deskContract (latch : Bool) : Contract (conversation latch) where
  Inv := DInv latch
  Rel _ w w' := (w.st.busy = false → w'.st.busy = false) ∧
    (w.st.busy = true → Moves w.st w'.st ∧ loose w'.log = loose w.log)
  refl _ w := ⟨id, fun _ => ⟨.refl w.st, rfl⟩⟩
  trans h h' := by
    refine ⟨fun hb => h'.1 (h.1 hb), fun hb => ?_⟩
    obtain ⟨hm, hl⟩ := h.2 hb
    obtain ⟨hm', hl'⟩ := h'.2 (hm.busy.trans hb)
    exact ⟨hm.trans hm', hl'.trans hl⟩

/-! ## Callbacks -/

/-- What is known between the callbacks of a call. -/
structure Mid (latch : Bool) (w : DWorld) : Prop extends Core latch w where
  level : Level w.log w.st.history
  busy : w.st.busy = true

/-- A change of the state that leaves what is known. -/
theorem Core.put {s : Desk} (h : Core latch w) (ho : Owning latch s.owner s.lease s.others s.deeds)
    (hb : Bounds s.snapshot s.sessionId s.request s.history s.turn) (hj : Jobs w.log s.job s.unknownJob)
    (hl : s.lease = none → s.job = none ∧ (s.unknownJob = true → s.owner.state = .faulted)) :
    Core latch (w.put s) :=
  ⟨h.owes, ho, hb, hj, hl⟩

/-- An act that does nothing to the jobs, and returns nothing. -/
def quiet : Act Op Answer Exc Method Value → Bool
  | .invoke _ | .call _ => true
  | _ => false

theorem Core.push (h : Core latch w) {x : Act Op Answer Exc Method Value} (hx : quiet x = true)
    (hl : Linked w.log w.st) : Core latch (w.push i x) := by
  have hloose : loose (w.push i x).log = loose w.log := by
    cases x with
    | invoke m => rfl
    | call op => rfl
    | reply op a => cases hx
    | ret r => cases hx
    | crash => cases hx
  refine ⟨⟨⟨hl, fun r hr => ?_⟩, h.owes⟩, h.owning, h.bounds, ?_, h.lost⟩
  · have hq : quiet (.ret r) = true := hr ▸ hx
    cases hq
  · unfold Jobs
    rw [hloose]
    exact h.jobs

theorem Core.reply (h : Core latch w) (hl : Linked w.log w.st) (op : Op) (a : Answer)
    (hop : op = .jobs → w.st.unknownJob = true) : Core latch (w.push i (.reply op a)) :=
  ⟨⟨⟨hl, fun r hr => (by cases hr)⟩, h.owes⟩, h.owning, h.bounds, h.jobs.reply op a w.st hop, h.lost⟩

/-- **What a callback leaves.** -/
structure Asked (latch : Bool) (i : ℕ) (op : Op) (w : DWorld) (a : Answer) (w' : DWorld) : Prop where
  mid : Mid latch w'
  moves : Moves w.st w'.st
  loose : loose w'.log = loosen op a (loose w.log)
  broken : Broken w'.log i ↔ a = .raised true ∨ Broken w.log i
  disturbed : Disturbed w.log → Disturbed w'.log
  legal : (conversation latch).legal w op a = true
  fresh : ∃ m l, w'.log = m :: l ∧ m.st = w'.st

theorem holds_call (h : Core latch w) (hl : Linked w.log w.st) (hb : w.st.busy = true) (op : Op)
    (hop : op = .jobs → w.st.unknownJob = true) :
    Holds (deskContract latch) ctx i (Prog.ask op) (fun r w' => ∃ a, r = .ok a ∧ Asked latch i op w a w') w := by
  rw [holds_ask]
  refine ⟨⟨h.push rfl hl, rfl, fun hbusy => ?_⟩, fun w' hi hg hr a ha => ⟨a, rfl, ?_⟩⟩
  · rw [World.push_st, hb] at hbusy
    cases hbusy
  obtain ⟨hm, hloose⟩ := hr.2 hb
  refine ⟨⟨hi.toCore.reply hi.level.linked op a fun ho => ?_, rfl, hm.busy.trans hb⟩, hm, ?_, ?_, fun hd => ?_, ha,
    _, _, rfl, rfl⟩
  · rw [hm.unknownJob]
    exact hop ho
  · show loosen op a (Conversation.loose w'.log) = loosen op a (Conversation.loose w.log)
    rw [hloose]
    rfl
  · have hgrow := broken_grows hg
    constructor
    · intro hbroken
      rcases broken_cons hbroken with hbroken | ⟨-, op', hact⟩
      · rcases broken_cons (hgrow.1 hbroken) with hbroken | ⟨-, op', hact⟩
        · exact .inr hbroken
        · cases hact
      · cases hact
        exact .inl rfl
    · rintro (rfl | hbroken)
      · exact ⟨_, List.mem_cons_self, rfl, op, rfl⟩
      · exact (hgrow.2 hbroken.cons).cons
  · have hcall : Disturbed (w.push i (.call op)).log := hd.cons
    exact (disturbed_grows hg hcall).cons

/-! ## Stretches that leave the fields of the conversation -/

/-- **What a stretch leaves** that writes none of the fields that only the conversation writes. -/
structure Passed (latch : Bool) (i : ℕ) (w : DWorld) {α : Type} (r : Except Exc α) (w' : DWorld) : Prop where
  mid : Mid latch w'
  moves : Moves w.st w'.st
  broken : Broken w'.log i ↔ r = .error .interrupt ∨ Broken w.log i
  disturbed : Disturbed w.log → Disturbed w'.log

theorem Mid.linked (h : Mid latch w) : Linked w.log w.st := h.level.linked

theorem Passed.refl {α : Type} {r : Except Exc α} (h : Mid latch w) (hr : r ≠ .error .interrupt) :
    Passed latch i w r w :=
  ⟨h, .refl w.st, ⟨.inr, fun hb => hb.resolve_left hr⟩, id⟩

/-- A stretch goes on where the one before it did not fail. -/
theorem Passed.trans {α β : Type} {x : α} {r : Except Exc β} (h : Passed latch i w (Except.ok (ε := Exc) x) w₁)
    (h' : Passed latch i w₁ r w₂) : Passed latch i w r w₂ := by
  refine ⟨h'.mid, h.moves.trans h'.moves, ?_, fun hd => h'.disturbed (h.disturbed hd)⟩
  rw [h'.broken, h.broken]
  simp

/-- The result of a stretch is replaced by one that is as much an interrupt. -/
theorem Passed.result {α β : Type} {r : Except Exc α} {r' : Except Exc β} (h : Passed latch i w r w')
    (hr : r' = .error .interrupt ↔ r = .error .interrupt) : Passed latch i w r' w' :=
  ⟨h.mid, h.moves, by rw [h.broken, hr], h.disturbed⟩

theorem Asked.passed {α : Type} {r : Except Exc α} (h : Asked latch i op w a w')
    (hr : r = .error .interrupt ↔ a = .raised true) : Passed latch i w r w' :=
  ⟨h.mid, h.moves, by rw [h.broken, hr], h.disturbed⟩

/-- It fails with `_Stop`, or with what is no `Exception`. -/
def Stops {α : Type} (r : Except Exc α) : Prop := ∀ e, r = .error e → (∃ c, e = .stop c) ∨ e = .interrupt

theorem stops_ok {α : Type} {x : α} : Stops (Except.ok x) := fun _ he => by cases he

theorem stops_stop {α : Type} {c : Code} : Stops (.error (.stop c) : Except Exc α) :=
  fun _ he => by cases he; exact .inl ⟨c, rfl⟩

theorem stops_interrupt {α : Type} : Stops (.error .interrupt : Except Exc α) :=
  fun _ he => by cases he; exact .inr rfl

theorem holds_gap (h : Core latch w) (hl : Linked w.log w.st) (hb : w.st.busy = true) :
    Holds (deskContract latch) ctx i gap (fun r w' => r = .ok () ∧ Passed latch i w r w' ∧
      ∃ m l, w'.log = m :: l ∧ m.st = w'.st) w := by
  unfold gap
  rw [holds_bind]
  refine (holds_call h hl hb .gap fun ho => by cases ho).mono ?_
  rintro r w' ⟨a, rfl, hasked⟩
  refine ⟨rfl, hasked.passed ⟨fun he => (by cases he), fun ha => ?_⟩, hasked.fresh⟩
  have hlegal := hasked.legal
  rw [ha] at hlegal
  cases hlegal

/-- **`_sample`.** -/
theorem holds_sample (h : Core latch w) (hl : Linked w.log w.st) (hb : w.st.busy = true) :
    Holds (deskContract latch) ctx i sample (fun r w' => Passed latch i w r w' ∧ Stops r ∧
      ∀ s, r = .ok s → s.valid = true) w := by
  unfold sample
  rw [holds_bind]
  refine (holds_call h hl hb .snapshot fun ho => by cases ho).mono ?_
  rintro r w' ⟨a, rfl, hasked⟩
  cases a with
  | snapshot s =>
    refine ⟨hasked.passed (by simp), stops_ok, fun s' hs => ?_⟩
    cases hs
    exact hasked.legal
  | raised interrupt =>
    cases interrupt with
    | true => exact ⟨hasked.passed (by simp), stops_interrupt, fun s hs => (by cases hs)⟩
    | false => exact ⟨hasked.passed (by simp), stops_stop, fun s hs => (by cases hs)⟩
  | none => exact ⟨hasked.passed (by simp), stops_stop, fun s hs => (by cases hs)⟩
  | job j => exact ⟨hasked.passed (by simp), stops_stop, fun s hs => (by cases hs)⟩
  | response r => exact ⟨hasked.passed (by simp), stops_stop, fun s hs => (by cases hs)⟩
  | true => exact ⟨hasked.passed (by simp), stops_stop, fun s hs => (by cases hs)⟩
  | object => exact ⟨hasked.passed (by simp), stops_stop, fun s hs => (by cases hs)⟩

/-- **`_check`.** -/
theorem holds_check (h : Core latch w) (hl : Linked w.log w.st) (hb : w.st.busy = true) :
    Holds (deskContract latch) ctx i check (fun r w' => Passed latch i w r w' ∧ Stops r ∧
      (r = .ok () → w'.st.intent = none)) w := by
  unfold check
  rw [holds_bind]
  refine (holds_sample h hl hb).mono fun r w' ⟨hpass, hstops, _⟩ => ?_
  cases r with
  | error x =>
    refine ⟨hpass.result (by simp), fun e he => ?_, fun hok => (by cases hok)⟩
    cases he
    exact hstops x rfl
  | ok s =>
    dsimp only
    rw [holds_bind, holds_read]
    dsimp only [id]
    split
    · exact ⟨hpass.result (by simp), stops_stop, fun hok => (by cases hok)⟩
    · rename_i hintent
      split
      · exact ⟨hpass.result (by simp), stops_stop, fun hok => (by cases hok)⟩
      · exact ⟨hpass.result (by simp), stops_ok, fun _ => hintent⟩

/-- **`_invalidate`**, where a call is under way or not. -/
theorem holds_invalidate (h : Core latch w) (code : Code) :
    Holds (deskContract latch) ctx i (invalidate code) (fun r w' => r = .ok () ∧ ∃ s, w' = w.put s ∧
      Core latch (w.put s) ∧ Moves w.st s ∧ s.intent ≠ none) w := by
  have hintent : (w.st.intend code).intent ≠ none := by
    unfold Desk.intend
    dsimp only
    split
    · simp
    · rename_i hkeep
      exact fun hnone => hkeep (.inl hnone)
  unfold invalidate
  rw [holds_bind, holds_write]
  dsimp only
  rw [holds_bind, holds_read]
  dsimp only [id]
  split
  · exact ⟨rfl, w.st.intend code, rfl, h.put h.owning h.bounds h.jobs h.lost, ⟨rfl, fun _ => hintent, id⟩,
      hintent⟩
  · rename_i g hg
    have hlease : w.st.lease = some g := hg
    have hown : Owning latch w.st.owner (some g) w.st.others w.st.deeds := hlease ▸ h.owning
    obtain ⟨n, o, hc⟩ := hown.cancel_ok
    have hc' : ((w.put (w.st.intend code)).st.owner).cancel (some (some (g : ℤ))) = .ok (n, o) := hc
    rw [holds_bind, hc']
    refine ⟨rfl, (w.st.intend code).strike g o, rfl, h.put ?_ h.bounds h.jobs ?_,
      ⟨rfl, fun _ => hintent, fun hf => cancel_faulted hf hc⟩, hintent⟩
    · have hstruck := hown.strike hc
      rw [← hlease] at hstruck
      exact hstruck
    · intro hnone
      have hnone' : w.st.lease = none := hnone
      rw [hlease] at hnone'
      cases hnone'

/-! ## `_cleanup` -/

/-- What a cancellation of job `j` leaves. A clean end means that it is cleaned. -/
structure JobCanceled (latch : Bool) (i : ℕ) (j : ℕ) (clean : Bool) (w : DWorld) (r : Except Exc Bool)
    (w' : DWorld) : Prop extends Passed latch i w r w' where
  failed : ∀ e, r = .error e → e = .interrupt
  cleaned : r = .ok true → clean = true ∧ loose w'.log = (loose w.log).filter fun k => k ≠ some j

/-- The end of a body under `except Exception`. -/
abbrev Guarded (latch : Bool) (ctx : List (ℕ × Op)) (i : ℕ) {α : Type} (h : DM α)
    (Q : Except Exc α → DWorld → Prop) : Except Exc α → DWorld → Prop :=
  Reentrant.Guarded (deskContract latch) ctx i (· = Exc.interrupt) h Q

/-- What `_cleanup` makes of the proof of a job. -/
def provenClean (clean : Bool) : Answer → DM Bool
  | .raised interrupt => raise interrupt
  | a => pure (a = .true && clean)

/-- **The job is canceled.** -/
theorem holds_cancelJob (h : Mid latch w) (j : ℕ) (clean : Bool) :
    Holds (deskContract latch) ctx i (cancelJob j clean) (JobCanceled latch i j clean w) w := by
  unfold cancelJob
  refine holds_guarded (c := (· = Exc.interrupt)) ?_
  rw [holds_bind]
  refine (holds_call h.toCore h.linked h.busy (.cancel j) fun ho => by cases ho).mono ?_
  rintro r w₁ ⟨a, rfl, hasked⟩
  have hfalse : ∀ {w₂ : DWorld}, Passed latch i w (Except.ok (ε := Exc) false) w₂ →
      JobCanceled latch i j clean w (.ok false) w₂ :=
    fun hp => ⟨hp, fun e he => (by cases he), fun hr => (by cases hr)⟩
  -- a job whose `cancel` returned is asked for its proof
  have hreturned : a ≠ .raised true →
      Holds (deskContract latch) ctx i (Prog.ask (.proven j) >>= provenClean clean)
        (Guarded latch ctx i (pure false) (JobCanceled latch i j clean w)) w₁ := by
    intro hne
    have hfirst : Passed latch i w (Except.ok (ε := Exc) ()) w₁ :=
      hasked.passed ⟨fun he => (by cases he), fun ha => absurd ha hne⟩
    have hfirst_loose : loose w₁.log = loose w.log := hasked.loose
    rw [holds_bind]
    refine (holds_call hasked.mid.toCore hasked.mid.linked hasked.mid.busy (.proven j) fun ho => by cases ho).mono ?_
    rintro r w₂ ⟨b, rfl, hproof⟩
    have hsecond : ∀ {r : Except Exc Bool}, (r = .error .interrupt ↔ b = .raised true) → Passed latch i w r w₂ :=
      fun hr => hfirst.trans (hproof.passed hr)
    cases b with
    | raised interrupt =>
      cases interrupt with
      | true =>
        exact Guarded.pass (fun e he => (by cases he; rfl))
          ⟨hsecond (by simp), fun e he => (by cases he; rfl), fun hr => (by cases hr)⟩
      | false => exact Guarded.handle (by simp) (hfalse (hsecond (by simp)))
    | true =>
      refine Guarded.pass (fun e he => (by cases he)) ⟨hsecond (by simp), fun e he => (by cases he), fun hr => ?_⟩
      have hclean : clean = true := by simpa using hr
      exact ⟨hclean, by rw [hproof.loose, hfirst_loose]; rfl⟩
    | none => exact Guarded.pass (fun e he => (by cases he)) (hfalse (hsecond (by simp)))
    | snapshot s => exact Guarded.pass (fun e he => (by cases he)) (hfalse (hsecond (by simp)))
    | job k => exact Guarded.pass (fun e he => (by cases he)) (hfalse (hsecond (by simp)))
    | response r => exact Guarded.pass (fun e he => (by cases he)) (hfalse (hsecond (by simp)))
    | object => exact Guarded.pass (fun e he => (by cases he)) (hfalse (hsecond (by simp)))
  cases a with
  | raised interrupt =>
    cases interrupt with
    | true =>
      exact Guarded.pass (fun e he => (by cases he; rfl))
        ⟨hasked.passed (by simp), fun e he => (by cases he; rfl), fun hr => (by cases hr)⟩
    | false => exact Guarded.handle (by simp) (hfalse (hasked.passed (by simp)))
  | none => exact hreturned (by simp)
  | snapshot s => exact hreturned (by simp)
  | job k => exact hreturned (by simp)
  | response r => exact hreturned (by simp)
  | true => exact hreturned (by simp)
  | object => exact hreturned (by simp)

/-- What `_cleanup` leaves: no job; or, where it was interrupted, the job it had. -/
structure Cleaned (latch : Bool) (i : ℕ) (w : DWorld) (r : Except Exc Bool) (w' : DWorld) : Prop where
  mid : Mid latch w'
  broken : Broken w'.log i ↔ r = .error .interrupt ∨ Broken w.log i
  disturbed : Disturbed w.log → Disturbed w'.log
  ended : (∃ d c, r = .ok c ∧ Moves w.st d ∧ w'.st = d.drop c ∧ (c = true → w.st.unknownJob = false)) ∨
    (r = .error .interrupt ∧ Moves w.st w'.st ∧ w.st.job ≠ none)

theorem Mid.drop {c : Bool} (h : Mid latch w) (hj : c = true → loose w.log = [])
    (hl : w.st.lease = none → c = !w.st.unknownJob) : Mid latch (w.put (w.st.drop c)) := by
  refine ⟨h.toCore.put h.owning h.bounds ?_ fun hnone => ⟨rfl, fun hunknown => ?_⟩, h.level, h.busy⟩
  · cases c with
    | true => exact .inl (hj rfl)
    | false => exact .inr (.inr rfl)
  · have hc := hl hnone
    have hu : (!c) = true := hunknown
    rw [hc, Bool.not_not] at hu
    exact (h.lost hnone).2 hu

/-- **`_cleanup`.** -/
theorem holds_cleanup (h : Mid latch w) :
    Holds (deskContract latch) ctx i cleanup (Cleaned latch i w) w := by
  unfold cleanup
  rw [holds_bind, holds_read]
  dsimp only [id]
  split
  · rename_i hnone
    have hjob : w.st.job = none := hnone
    have hmid : Mid latch (w.put (w.st.drop !w.st.unknownJob)) := by
      refine h.drop (fun hc => ?_) fun _ => rfl
      have hknown : w.st.unknownJob = false := by simpa using hc
      have hjobs := h.jobs
      rw [hknown] at hjobs
      exact hjobs.nil hjob
    refine ⟨hmid, ⟨.inr, fun hb => hb.resolve_left (by simp)⟩, id, .inl ⟨w.st, _, rfl, .refl _, rfl, ?_⟩⟩
    simp
  · rename_i j hsome
    have hjob : w.st.job = some j := hsome
    rw [holds_bind]
    refine (holds_cancelJob h j _).mono fun r w₁ hcanceled => ?_
    have hpass := hcanceled.toPassed
    cases r with
    | error e =>
      obtain rfl := hcanceled.failed e rfl
      exact ⟨hpass.mid, hpass.broken, hpass.disturbed, .inr ⟨rfl, hpass.moves, by rw [hjob]; simp⟩⟩
    | ok c =>
      have hlease : w₁.st.lease ≠ none := by
        rw [hpass.moves.lease]
        intro hl
        rw [(h.lost hl).1] at hjob
        cases hjob
      have hloose : c = true → loose w₁.log = [] := by
        rintro rfl
        obtain ⟨hclean, hfilter⟩ := hcanceled.cleaned rfl
        rw [hfilter]
        rcases h.jobs with hnil | ⟨k, hk, hk'⟩ | hunknown
        · rw [hnil]
          rfl
        · rw [hjob] at hk'
          cases hk'
          rw [hk]
          simp
        · rw [hunknown] at hclean
          cases hclean
      refine ⟨hpass.mid.drop hloose fun hl => absurd hl hlease, hpass.broken, hpass.disturbed,
        .inl ⟨w₁.st, c, rfl, hpass.moves, rfl, fun hc => ?_⟩⟩
      subst hc
      simpa using (hcanceled.cleaned rfl).1

/-! ## `_stop` -/

/-- **A drift of the snapshot.** -/
theorem holds_drift (h : Mid latch w) :
    Holds (deskContract latch) ctx i drift (fun r w' => Passed latch i w r w' ∧
      ∀ e, r = .error e → e = .interrupt) w := by
  -- what both ways to a drift do
  have hinvalidate : ∀ {w₁ : DWorld} (code : Code), Passed latch i w (Except.ok (ε := Exc) ()) w₁ →
      Holds (deskContract latch) ctx i (do
        gap
        invalidate code) (fun r w' => r = .ok () ∧ Passed latch i w r w') w₁ := by
    intro w₁ code hpass
    rw [holds_bind]
    refine (holds_gap hpass.mid.toCore hpass.mid.linked hpass.mid.busy).mono ?_
    rintro r w₂ ⟨rfl, hgap, -⟩
    refine (holds_invalidate hgap.mid.toCore code).mono ?_
    rintro r w₃ ⟨rfl, s, rfl, hcore, hmoves, -⟩
    have hput : Passed latch i w₂ (Except.ok (ε := Exc) ()) (w₂.put s) :=
      ⟨⟨hcore, by rw [World.put_log, World.put_st, hmoves.history]; exact hgap.mid.level,
        hmoves.busy.trans hgap.mid.busy⟩, hmoves, ⟨.inr, fun hb => hb.resolve_left (by simp)⟩, id⟩
    exact ⟨rfl, (hpass.trans hgap).trans hput⟩
  unfold drift onStop
  rw [holds_bind, holds_read]
  dsimp only
  rw [holds_catching, holds_bind]
  refine (holds_sample h.toCore h.linked h.busy).mono fun r w₁ ⟨hpass, hstops, _⟩ => ?_
  cases r with
  | error e =>
    rcases hstops e rfl with ⟨c, rfl⟩ | rfl
    · refine (hinvalidate c (hpass.result (by simp))).mono ?_
      rintro r w₂ ⟨rfl, h₂⟩
      exact ⟨h₂, fun e he => (by cases he)⟩
    · exact ⟨hpass.result (by simp), fun e he => (by cases he; rfl)⟩
  | ok s =>
    dsimp only
    split
    · refine (hinvalidate .stale (hpass.result (by simp))).mono ?_
      rintro r w₂ ⟨rfl, h₂⟩
      exact ⟨h₂, fun e he => (by cases he)⟩
    · exact ⟨hpass.result (by simp), fun e he => (by cases he)⟩

/-- What giving back the lease leaves: no lease; or a fault of another client. -/
theorem holds_handBack (h : Core latch w) (clean : Bool) :
    Holds (deskContract latch) ctx i (handBack w.st.lease clean) (fun r w' =>
      (∃ s, r = .ok () ∧ w' = w.put s ∧ s.toController = { w.st.toController with lease := none } ∧
        s.intent = w.st.intent ∧ Owning latch s.owner none s.others s.deeds ∧
        (w.st.owner.state = .faulted → w.st.lease = none ∧ s.owner.state = .faulted) ∧
        (clean = false → w.st.lease ≠ none → s.owner.state = .faulted)) ∨
      (r = .error (.session .faulted) ∧ w' = w.put { w.st with lease := none } ∧ w.st.lease ≠ none ∧
        latch = true ∧ w.st.owner.state = .faulted)) w := by
  unfold handBack
  rw [holds_bind, holds_write]
  dsimp only
  cases hlease : w.st.lease with
  | none =>
    have hown := h.owning
    rw [hlease] at hown
    exact .inl ⟨{ w.st with lease := none }, rfl, rfl, rfl, rfl, hown, fun hf => ⟨rfl, hf⟩,
      fun _ hne => absurd rfl hne⟩
  | some g =>
    have hown : Owning latch w.st.owner (some g) w.st.others w.st.deeds := hlease ▸ h.owning
    dsimp only
    rw [holds_bind, holds_read]
    dsimp only
    rw [holds_bind]
    cases hr : w.st.owner.release (some (g : ℤ)) (some clean) with
    | ok o =>
      have hrel : ((w.put { w.st with lease := none }).st.owner).release (some (g : ℤ)) (some clean) = .ok o := hr
      rw [hrel]
      obtain ⟨hback, hfault⟩ := hown.giveBack hr
      refine .inl ⟨{ w.st with lease := none }.giveBack g clean o, rfl, rfl, rfl, rfl, hback,
        fun hf => absurd hr (release_faulted hf o), fun hc _ => hfault hc⟩
    | error x =>
      have hrel : ((w.put { w.st with lease := none }).st.owner).release (some (g : ℤ)) (some clean) = .error x := hr
      rw [hrel]
      obtain ⟨rfl, hlatch, hfault⟩ := hown.release_raised hr
      exact .inr ⟨rfl, rfl, by simp, hlatch, hfault⟩

/-- What a new try for a lease leaves: a lease, or none. -/
structure Again (latch : Bool) (i : ℕ) (w : DWorld) (r : Except Exc Unit) (w' : DWorld) : Prop where
  value : r = .ok ()
  mid : Mid latch w'
  broken : Broken w'.log i ↔ Broken w.log i
  disturbed : Disturbed w.log → Disturbed w'.log
  faulted : w.st.owner.state = .faulted → w'.st.owner.state = .faulted
  own : (∃ g, w'.st.toController = { w.st.toController with lease := some g, phase := .ready } ∧
      w.st.owner.state ≠ .faulted) ∨
    w'.st.toController = { w.st.toController with code := some .busy }

theorem holds_beginAgain (h : Mid latch w) (hg : w.st.gate = false) (hl : w.st.lease = none) :
    Holds (deskContract latch) ctx i beginAgain (Again latch i w) w := by
  have hheld : Mid latch (w.put { w.st with gate := true }) :=
    ⟨h.toCore.put h.owning h.bounds h.jobs h.lost, h.level, h.busy⟩
  unfold beginAgain
  rw [holds_bind, holds_write]
  dsimp only
  rw [holds_bind]
  refine (holds_gap hheld.toCore hheld.linked hheld.busy).mono ?_
  rintro r w₁ ⟨rfl, hpass, -⟩
  dsimp only
  rw [holds_bind, holds_write]
  dsimp only
  rw [holds_bind, holds_read]
  have hown : { w₁.st.toController with gate := false } = w.st.toController := by
    rw [hpass.moves.own, ← hg]
    rfl
  have hlease : w₁.st.lease = none := hpass.moves.lease.trans hl
  have howning : Owning latch w₁.st.owner none w₁.st.others w₁.st.deeds := by
    have howning := hpass.mid.owning
    rw [hlease] at howning
    exact howning
  have hlost := hpass.mid.lost hlease
  have hbroken : Broken w₁.log i ↔ Broken w.log i :=
    hpass.broken.trans ⟨fun hb => hb.resolve_left (by simp), .inr⟩
  dsimp only [World.put_st]
  cases hb : w₁.st.owner.begin (some "conversation") with
  | ok v =>
    obtain ⟨g, o⟩ := v
    have hborrow := howning.borrow hb
    refine ⟨rfl, ⟨hpass.mid.toCore.put hborrow hpass.mid.bounds hpass.mid.jobs fun hnone => (by cases hnone),
      hpass.mid.level, hpass.mid.busy⟩, hbroken, hpass.disturbed, fun hf => ?_, .inl ⟨g, ?_, fun hf => ?_⟩⟩
    · exact absurd hb (begin_faulted (hpass.moves.faulted hf) _)
    · rw [← hown]
      rfl
    · exact absurd hb (begin_faulted (hpass.moves.faulted hf) _)
  | error x =>
    have hvalue : x ≠ .value := by
      rintro rfl
      unfold SessionOwner.begin at hb
      rw [if_neg (by decide)] at hb
      split at hb
      · cases hb
      split at hb <;> cases hb
    have hgiven : Again latch i w (.ok ()) (w₁.put { w₁.st with gate := false, code := some .busy }) := by
      refine ⟨rfl, ⟨hpass.mid.toCore.put hpass.mid.owning hpass.mid.bounds hpass.mid.jobs hpass.mid.lost,
        hpass.mid.level, hpass.mid.busy⟩, hbroken, hpass.disturbed, hpass.moves.faulted, .inr ?_⟩
      rw [← hown]
      rfl
    cases x with
    | value => exact absurd rfl hvalue
    | busy => exact hgiven
    | faulted => exact hgiven
    | stale => exact hgiven

/-- **How `_stop` ends under the gate**: with a new lease; inactive; or faulted, with the owner. -/
inductive Outcome (w : DWorld) (clean : Bool) (w' : DWorld) : Prop where
  | ready (g : ℕ) (code : Option Code) (clean : clean = true) (sound : w.st.owner.state ≠ .faulted)
    (own : w'.st.toController = { w.st.toController with lease := some g, phase := .ready, code := code })
  | inactive (code : Option Code) (clean : clean = true)
    (own : w'.st.toController = { w.st.toController with lease := none, phase := .inactive, code := code })
  | faulted (code : Option Code) (faulted : w'.st.owner.state = .faulted)
    (own : w'.st.toController = { w.st.toController with lease := none, phase := .faulted, code := code })

/-- What `_stop` leaves when it gives back the gate. -/
structure Closed (latch : Bool) (i : ℕ) (clean : Bool) (w : DWorld) (r : Except Exc Unit) (w' : DWorld) :
    Prop extends Mid latch w' where
  broken : Broken w'.log i ↔ Broken w.log i
  disturbed : Disturbed w.log → Disturbed w'.log
  ended : (r = .ok () ∧ w'.st.intent = none ∧ (w.st.owner.state = .faulted → w.st.lease = none) ∧
      Outcome w clean w') ∨
    (r = .error (.session .faulted) ∧ w'.st = { w.st with lease := none } ∧ w.st.lease ≠ none ∧ latch = true ∧
      w.st.owner.state = .faulted)

theorem Core.lose (h : Core latch w) (hj : w.st.job = none) (hf : latch = true ∧ w.st.owner.state = .faulted) :
    Core latch (w.put { w.st with lease := none }) := by
  refine h.put ⟨h.owning.disciplined, h.owning.idle, h.owning.begun, h.owning.others, fun g hg => (by cases hg),
    fun g hg => ?_⟩ h.bounds h.jobs fun _ => ⟨hj, fun _ => hf.2⟩
  rcases h.owning.returned g hg with - | hr | -
  · exact .inr (.inr hf)
  · exact .inr (.inl hr)
  · exact .inr (.inr hf)

theorem holds_close (h : Mid latch w) (hg : w.st.gate = false) (hj : w.st.job = none) {clean : Bool}
    (hu : w.st.unknownJob = !clean) :
    Holds (deskContract latch) ctx i (close clean) (Closed latch i clean w) w := by
  unfold close
  rw [holds_bind, holds_read]
  dsimp only [id]
  rw [holds_bind]
  refine (holds_handBack h.toCore clean).mono ?_
  rintro r w₁ (⟨s, rfl, rfl, hown, hintent, howning, hfault, hunclean⟩ | ⟨rfl, rfl, hlease, hlatch, hfault⟩)
  swap
  · exact ⟨⟨h.toCore.lose hj ⟨hlatch, hfault⟩, h.level, h.busy⟩, Iff.rfl, id,
      .inr ⟨rfl, rfl, hlease, hlatch, hfault⟩⟩
  -- the lease is given back: what is known of the fields that it leaves
  have hlease : s.lease = none := congrArg Controller.lease hown
  have hjob : s.job = none := (congrArg Controller.job hown).trans hj
  have hunknown : s.unknownJob = !clean := (congrArg Controller.unknownJob hown).trans hu
  have hgate : s.gate = false := (congrArg Controller.gate hown).trans hg
  have hbusy : s.busy = true := (congrArg Controller.busy hown).trans h.busy
  have hhistory : s.history = w.st.history := (congrArg Controller.history hown :)
  have hfaulted : clean = false → s.owner.state = .faulted := by
    intro hc
    by_cases hl : w.st.lease = none
    · refine (hfault ((h.lost hl).2 ?_)).2
      rw [hu, hc]
      rfl
    · exact hunclean hc hl
  have hbounds : Bounds s.snapshot s.sessionId s.request s.history s.turn := by
    have hsnapshot : s.snapshot = w.st.snapshot := (congrArg Controller.snapshot hown :)
    have hsession : s.sessionId = w.st.sessionId := (congrArg Controller.sessionId hown :)
    have hrequest : s.request = w.st.request := (congrArg Controller.request hown :)
    have hturn : s.turn = w.st.turn := (congrArg Controller.turn hown :)
    rw [hsnapshot, hsession, hrequest, hhistory, hturn]
    exact h.bounds
  have hmid : Mid latch (w.put s) := by
    refine ⟨h.toCore.put (hlease ▸ howning) hbounds ?_ fun _ => ⟨hjob, fun hk => hfaulted ?_⟩, ?_, hbusy⟩
    · have hjobs := h.jobs
      rw [hj, hu] at hjobs
      rw [hjob, hunknown]
      exact hjobs
    · rw [hunknown] at hk
      simpa using hk
    · rw [World.put_st, hhistory]
      exact h.level
  dsimp only
  rw [holds_bind, holds_write]
  dsimp only
  -- only the phase, the code and the intent change from here on
  have hstate : ∀ (phase : Display) (code intent : Option Code),
      Mid latch (w.put { s with phase := phase, code := code, intent := intent }) := fun _ _ _ =>
    ⟨hmid.toCore.put hmid.owning hmid.bounds hmid.jobs hmid.lost, hmid.level, hmid.busy⟩
  have howns : ∀ (phase : Display) (code : Option Code), { s.toController with phase := phase, code := code } =
      { w.st.toController with lease := none, phase := phase, code := code } := by
    intro phase code
    rw [hown]
  cases clean with
  | false =>
    rw [if_pos (by rfl)]
    exact ⟨hstate .faulted (some .cleanup) none, Iff.rfl, id, .inl ⟨rfl, rfl, fun hf => (hfault hf).1,
      .faulted (some .cleanup) (hfaulted rfl) (howns _ _)⟩⟩
  | true =>
    rw [if_neg (by simp)]
    split
    · rw [holds_bind]
      have hagain : Mid latch (w.put { s with phase := .inactive, code := w.st.intent }) :=
        hstate .inactive w.st.intent s.intent
      refine (holds_beginAgain hagain hgate hlease).mono fun r w₂ h₂ => ?_
      obtain rfl := h₂.value
      have hmid₂ : Mid latch (w₂.put { w₂.st with intent := none }) :=
        ⟨h₂.mid.toCore.put h₂.mid.owning h₂.mid.bounds h₂.mid.jobs h₂.mid.lost, h₂.mid.level, h₂.mid.busy⟩
      refine ⟨hmid₂, h₂.broken, h₂.disturbed, .inl ⟨rfl, rfl, fun hf => (hfault hf).1, ?_⟩⟩
      rcases h₂.own with ⟨g, hg₂, hsound⟩ | hbusy₂
      · refine .ready g w.st.intent rfl (fun hf => hsound (hfault hf).2) (hg₂.trans ?_)
        exact congrArg (fun c : Controller => { c with lease := some g, phase := .ready, code := w.st.intent }) hown
      · refine .inactive (some .busy) rfl (hbusy₂.trans ?_)
        exact howns .inactive (some .busy)
    · exact ⟨hstate .inactive w.st.intent none, Iff.rfl, id, .inl ⟨rfl, rfl, fun hf => (hfault hf).1,
        .inactive w.st.intent rfl (howns _ _)⟩⟩

/-- **What `_stop` leaves.** -/
structure Stopped (latch : Bool) (i : ℕ) (w : DWorld) (r : Except Exc Unit) (w' : DWorld) : Prop
    extends Core latch w' where
  linked : Linked w'.log w'.st
  busy : w'.st.busy = true
  broken : Broken w'.log i ↔ r = .error .interrupt ∨ Broken w.log i
  rest : Rest latch w'.log w'.st
  done : r = .ok () → w'.st.intent = none ∧ (w.st.owner.state = .faulted → w.st.lease = none ∧ w'.st.active = false)
  failed : ∀ e, r = .error e → w'.st.phase = .stopping ∧
    (e = .interrupt ∨ (e = .session .faulted ∧ w.st.lease ≠ none))

/-- A stop that is under way, and where it has come to. -/
structure Halfway (latch : Bool) (w : DWorld) : Prop extends Mid latch w where
  gate : w.st.gate = false
  phase : w.st.phase = .stopping
  intent : w.st.intent ≠ none

theorem Halfway.moves (h : Halfway latch w) (hm : Mid latch w') (hmoves : Moves w.st w'.st) : Halfway latch w' :=
  ⟨hm, hmoves.gate.trans h.gate, hmoves.phase.trans h.phase, hmoves.intent h.intent⟩

/-- A stop that is left half way. -/
theorem Halfway.rest (h : Halfway latch w) (hd : Disturbed w.log ∨ (latch = true ∧ w.st.owner.state = .faulted)) :
    Rest latch w.log w.st := by
  have hne : ∀ phase, phase ≠ .stopping → w.st.phase ≠ phase := fun phase hp => h.phase ▸ hp.symm
  refine ⟨h.gate, fun ha => ?_, fun hs => ?_, fun hs => ?_, fun hs => ?_, fun hs => ?_, fun _ => ⟨h.intent, hd⟩,
    fun _ => .inr hd⟩
  · unfold Desk.active at ha
    rw [h.phase] at ha
    exact absurd ha (by decide)
  · rcases hs with hs | hs | hs <;> exact absurd hs (hne _ (by simp))
  · exact absurd hs (hne _ (by simp))
  · rcases hs with hs | hs <;> exact absurd hs (hne _ (by simp))
  · exact absurd hs (hne _ (by simp))

/-- A session that waits for its user. -/
theorem Rest.waiting {log : List DEntry} (hp : (d.phase = .ready ∧ d.request = none) ∨ d.phase = .clarifying)
    (hg : d.gate = false) (hl : d.lease ≠ none) (hj : d.job = none) (hu : d.unknownJob = false) :
    Rest latch log d := by
  have hne : ∀ phase, phase ≠ .ready → phase ≠ .clarifying → d.phase ≠ phase := by
    rintro phase hr hc rfl
    rcases hp with ⟨hp, -⟩ | hp
    · exact hr hp
    · exact hc hp
  refine ⟨hg, fun _ => hl, fun _ => ⟨hj, hu⟩, fun hs => ?_, fun hs => ?_,
    fun hs => absurd hs (hne _ (by simp) (by simp)), fun hs => absurd hs (hne _ (by simp) (by simp)),
    fun hk => ?_⟩
  · rcases hp with ⟨-, hr⟩ | hp
    · exact hr
    · exact absurd (hp.symm.trans hs) (by simp)
  · rcases hs with hs | hs <;> exact absurd hs (hne _ (by simp) (by simp))
  · rw [hu] at hk
    cases hk

/-- A session that is over. -/
theorem Rest.cleared {log : List DEntry} (hg : d.gate = false) (hl : d.lease = none) (hr : d.request = none)
    (hp : (d.phase = .inactive ∧ d.job = none ∧ d.unknownJob = false) ∨
      (d.phase = .faulted ∧ d.owner.state = .faulted)) :
    Rest latch log d.clear := by
  have hne : ∀ phase, phase ≠ .inactive → phase ≠ .faulted → d.phase ≠ phase := by
    rintro phase hi hf rfl
    rcases hp with ⟨hp, -⟩ | ⟨hp, -⟩
    · exact hi hp
    · exact hf hp
  refine ⟨hg, fun ha => ?_, fun hs => ?_, fun _ => hr, fun _ => ⟨hl, hr, rfl, rfl, rfl⟩, fun hs => ?_,
    fun hs => absurd hs (hne _ (by simp) (by simp)), fun hk => ?_⟩
  · unfold Desk.active at ha
    rcases hp with ⟨hp, -⟩ | ⟨hp, -⟩
    · rw [show d.clear.phase = .inactive from hp] at ha
      exact absurd ha (by decide)
    · rw [show d.clear.phase = .faulted from hp] at ha
      exact absurd ha (by decide)
  · rcases hp with ⟨-, hjob, hknown⟩ | ⟨hp, -⟩
    · exact ⟨hjob, hknown⟩
    · rcases hs with hs | hs | hs <;> exact absurd (hp.symm.trans hs) (by simp)
  · rcases hp with ⟨hp, -⟩ | ⟨-, hf⟩
    · exact absurd (hp.symm.trans hs) (by simp)
    · exact hf
  · rcases hp with ⟨-, -, hknown⟩ | ⟨hp, -⟩
    · rw [show d.unknownJob = true from hk] at hknown
      cases hknown
    · exact .inl hp

/-- The end of a session. -/
theorem Mid.clear (h : Mid latch w) (hr : w.st.request = none) (hp : w.st.phase = .inactive ∨ w.st.phase = .faulted) :
    Core latch (w.put w.st.clear) ∧ Linked w.log w.st.clear := by
  refine ⟨h.toCore.put h.owning ?_ h.jobs h.lost, ?_⟩
  · show Bounds none none w.st.request [] w.st.turn
    rw [hr]
    exact .clear
  · cases hlog : w.log with
    | nil => rfl
    | cons m log => exact .inr (.inr ⟨rfl, hp⟩)

/-- **The second half of `_stop`.** -/
theorem Halfway.finish (h : Halfway latch w) (hj : w.st.job = none) {clean : Bool}
    (hu : w.st.unknownJob = !clean) :
    Holds (deskContract latch) ctx i (do
      Prog.write fun d => d.ask none
      gap
      close clean
      let phase ← Prog.read fun d => d.phase
      if phase ≠ .ready then Prog.write Desk.clear) (Stopped latch i w) w := by
  have hforgot : Halfway latch (w.put (w.st.ask none)) :=
    ⟨⟨h.toCore.put h.owning h.bounds.forget h.jobs h.lost, h.level, h.busy⟩, h.gate, h.phase, h.intent⟩
  rw [holds_bind, holds_write]
  dsimp only
  rw [holds_bind]
  refine (holds_gap hforgot.toCore hforgot.linked hforgot.busy).mono ?_
  rintro r w₁ ⟨rfl, hpass, -⟩
  have h₁ := hforgot.moves hpass.mid hpass.moves
  have hm := hpass.moves
  have hbroken₁ : Broken w₁.log i ↔ Broken w.log i :=
    hpass.broken.trans ⟨fun hb => hb.resolve_left (by simp), .inr⟩
  have hlease : w₁.st.lease = w.st.lease := hm.lease
  have hrequest : w₁.st.request = none := hm.request
  dsimp only
  rw [holds_bind]
  refine (holds_close h₁.toMid h₁.gate (hm.job.trans hj) (hm.unknownJob.trans hu)).mono fun r w₂ hclosed => ?_
  have hbroken : Broken w₂.log i ↔ Broken w.log i := hclosed.broken.trans hbroken₁
  rcases hclosed.ended with ⟨rfl, hintent, hfault, houtcome⟩ | ⟨rfl, hst, hne, hlatch, hfault⟩
  swap
  · have hlost : Halfway latch w₂ := by
      refine ⟨hclosed.toMid, ?_, ?_, ?_⟩ <;> rw [hst]
      · exact h₁.gate
      · exact h₁.phase
      · exact h₁.intent
    have hfault₂ : w₂.st.owner.state = .faulted := by
      rw [hst]
      exact hfault
    refine ⟨hclosed.toCore, hclosed.linked, hclosed.busy, ?_, hlost.rest (.inr ⟨hlatch, hfault₂⟩),
      fun hr => (by cases hr), fun e he => ⟨hlost.phase, ?_⟩⟩
    · rw [hbroken]
      simp
    · cases he
      exact .inr ⟨rfl, hlease ▸ hne⟩
  have hbroken' : Broken w₂.log i ↔ Except.ok (ε := Exc) () = .error .interrupt ∨ Broken w.log i := by
    rw [hbroken]
    simp
  dsimp only
  rw [holds_bind, holds_read]
  dsimp only
  have hunknown : w₁.st.unknownJob = !clean := hm.unknownJob.trans hu
  cases houtcome with
  | ready g code hclean hsound hown =>
    have hphase : w₂.st.phase = .ready := (congrArg Controller.phase hown :)
    have hleased : w₂.st.lease = some g := (congrArg Controller.lease hown :)
    have hjob : w₂.st.job = none := (congrArg Controller.job hown).trans (hm.job.trans hj)
    have hknown : w₂.st.unknownJob = false := by
      rw [show w₂.st.unknownJob = w₁.st.unknownJob from (congrArg Controller.unknownJob hown :), hunknown, hclean]
      rfl
    have hasked : w₂.st.request = none := (congrArg Controller.request hown).trans hrequest
    have hgate : w₂.st.gate = false := (congrArg Controller.gate hown).trans h₁.gate
    have hwaiting : Rest latch w₂.log w₂.st :=
      .waiting (.inl ⟨hphase, hasked⟩) hgate (by rw [hleased]; simp) hjob hknown
    rw [if_neg (by rw [hphase]; simp)]
    exact ⟨hclosed.toCore, hclosed.linked, hclosed.busy, hbroken', hwaiting,
      fun _ => ⟨hintent, fun hf => absurd (hm.faulted hf) hsound⟩, fun e he => (by cases he)⟩
  | inactive code hclean hown =>
    have hphase : w₂.st.phase = .inactive := (congrArg Controller.phase hown :)
    have hleased : w₂.st.lease = none := (congrArg Controller.lease hown :)
    have hjob : w₂.st.job = none := (congrArg Controller.job hown).trans (hm.job.trans hj)
    have hknown : w₂.st.unknownJob = false := by
      rw [show w₂.st.unknownJob = w₁.st.unknownJob from (congrArg Controller.unknownJob hown :), hunknown, hclean]
      rfl
    have hasked : w₂.st.request = none := (congrArg Controller.request hown).trans hrequest
    have hgate : w₂.st.gate = false := (congrArg Controller.gate hown).trans h₁.gate
    obtain ⟨hcore, hlinked⟩ := hclosed.toMid.clear hasked (.inl hphase)
    rw [if_pos (by rw [hphase]; simp)]
    refine ⟨hcore, hlinked, hclosed.busy, hbroken', .cleared hgate hleased hasked (.inl ⟨hphase, hjob, hknown⟩),
      fun _ => ⟨hintent, fun hf => ⟨hlease ▸ hfault (hm.faulted hf), ?_⟩⟩, fun e he => (by cases he)⟩
    show [Display.ready, .processing, .clarifying].contains w₂.st.phase = false
    rw [hphase]
    rfl
  | faulted code hfaulted hown =>
    have hphase : w₂.st.phase = .faulted := (congrArg Controller.phase hown :)
    have hleased : w₂.st.lease = none := (congrArg Controller.lease hown :)
    have hasked : w₂.st.request = none := (congrArg Controller.request hown).trans hrequest
    have hgate : w₂.st.gate = false := (congrArg Controller.gate hown).trans h₁.gate
    obtain ⟨hcore, hlinked⟩ := hclosed.toMid.clear hasked (.inr hphase)
    rw [if_pos (by rw [hphase]; simp)]
    refine ⟨hcore, hlinked, hclosed.busy, hbroken', .cleared hgate hleased hasked (.inr ⟨hphase, hfaulted⟩),
      fun _ => ⟨hintent, fun hf => ⟨hlease ▸ hfault (hm.faulted hf), ?_⟩⟩, fun e he => (by cases he)⟩
    show [Display.ready, .processing, .clarifying].contains w₂.st.phase = false
    rw [hphase]
    rfl

/-- **`_stop`.** -/
theorem holds_stop (h : Mid latch w) (hg : w.st.gate = false) (hi : w.st.intent ≠ none) :
    Holds (deskContract latch) ctx i stop (Stopped latch i w) w := by
  have hbegun : Halfway latch (w.put (w.st.present .stopping)) :=
    ⟨⟨h.toCore.put h.owning h.bounds h.jobs h.lost, h.level, h.busy⟩, hg, rfl, hi⟩
  unfold stop
  rw [holds_bind, holds_write]
  dsimp only
  rw [holds_bind]
  refine (holds_cleanup hbegun.toMid).mono fun r w₁ hcleaned => ?_
  rcases hcleaned.ended with ⟨d, clean, rfl, hm, hst, hclean⟩ | ⟨rfl, hm, -⟩
  swap
  · have hlost := hbegun.moves hcleaned.mid hm
    have hdisturbed : Disturbed w₁.log := ⟨i, hcleaned.broken.2 (.inl rfl)⟩
    refine ⟨hlost.toCore, hlost.linked, hlost.busy, ?_, hlost.rest (.inl hdisturbed), fun hr => (by cases hr),
      fun e he => ⟨hlost.phase, .inl (by cases he; rfl)⟩⟩
    rw [hcleaned.broken]
    exact ⟨fun _ => .inl rfl, fun _ => .inl rfl⟩
  -- the job is dropped: what `_stop` does next finds it so
  have h₁ : Halfway latch w₁ := by
    refine ⟨hcleaned.mid, ?_, ?_, ?_⟩ <;> rw [hst]
    · exact hm.gate.trans hg
    · exact hm.phase
    · exact hm.intent hi
  have hbroken₁ : Broken w₁.log i ↔ Broken w.log i :=
    hcleaned.broken.trans ⟨fun hb => hb.resolve_left (by simp), .inr⟩
  have hjob₁ : w₁.st.job = none := by rw [hst]; rfl
  have hunknown₁ : w₁.st.unknownJob = !clean := by rw [hst]; rfl
  have hlease₁ : w₁.st.lease = w.st.lease := by rw [hst]; exact hm.lease
  have hfault₁ : w.st.owner.state = .faulted → w₁.st.owner.state = .faulted := by rw [hst]; exact hm.faulted
  -- the second half, from any world that what is between the halves leads to
  have hfinish : ∀ {w₂ : DWorld}, Passed latch i w₁ (Except.ok (ε := Exc) ()) w₂ →
      Holds (deskContract latch) ctx i (do
        Prog.write fun d => d.ask none
        gap
        close clean
        let phase ← Prog.read fun d => d.phase
        if phase ≠ .ready then Prog.write Desk.clear) (Stopped latch i w) w₂ := by
    intro w₂ hpass
    have h₂ := h₁.moves hpass.mid hpass.moves
    refine (h₂.finish (hpass.moves.job.trans hjob₁) (hpass.moves.unknownJob.trans hunknown₁)).mono fun r w₃ h₃ => ?_
    have hlease : w₂.st.lease = w.st.lease := hpass.moves.lease.trans hlease₁
    have hbroken : Broken w₂.log i ↔ Broken w.log i :=
      (hpass.broken.trans ⟨fun hb => hb.resolve_left (by simp), .inr⟩).trans hbroken₁
    refine ⟨h₃.toCore, h₃.linked, h₃.busy, by rw [h₃.broken, hbroken], h₃.rest, fun hr => ?_, fun e he => ?_⟩
    · obtain ⟨hintent, hdone⟩ := h₃.done hr
      refine ⟨hintent, fun hf => ?_⟩
      obtain ⟨hl, hactive⟩ := hdone (hpass.moves.faulted (hfault₁ hf))
      exact ⟨hlease ▸ hl, hactive⟩
    · obtain ⟨hphase, herror⟩ := h₃.failed e he
      exact ⟨hphase, herror.imp id fun ⟨he', hne⟩ => ⟨he', hlease ▸ hne⟩⟩
  dsimp only
  rw [holds_bind]
  refine (holds_gap h₁.toCore h₁.linked h₁.busy).mono ?_
  rintro r w₂ ⟨rfl, hgap, -⟩
  dsimp only
  rw [holds_bind, holds_read]
  dsimp only [id]
  split
  · rw [holds_bind]
    refine (holds_drift hgap.mid).mono fun r w₃ ⟨hdrift, herror⟩ => ?_
    cases r with
    | ok _ => exact hfinish (hgap.trans hdrift)
    | error e =>
      obtain rfl := herror e rfl
      have hpass := hgap.trans hdrift
      have hlost := h₁.moves hpass.mid hpass.moves
      have hdisturbed : Disturbed w₃.log := ⟨i, hpass.broken.2 (.inl rfl)⟩
      refine ⟨hlost.toCore, hlost.linked, hlost.busy, ?_, hlost.rest (.inl hdisturbed), fun hr => (by cases hr),
        fun e he => ⟨hlost.phase, .inl (by cases he; rfl)⟩⟩
      rw [hpass.broken, hbroken₁]
  · exact hfinish hgap

end Conversation

end Arhugula
