import Arhugula.Spec.Dictation
import Arhugula.Reentrant.Logic

/-!
# The trace of a recording

While an operation is under way the dictation refuses every other call, so the callbacks since the last recording
began are one sequence (`callbacks`). What is owed is about that sequence: the text is typed after a stop, a
notice, a transcription and a look at the focus, and nothing else (`Ready`); it is copied after the typing that
did not deliver, and another look.

`Busy` is what an operation knows between its callbacks; each callback adds itself and its answer to the trace
(`busy_ask`).
-/

namespace Arhugula

namespace Dictate

open Reentrant

/-- A world of the dictation. -/
abbrev DWorld := World Dictation Op Answer Exc Method DictationResult

/-- A log entry of the dictation. -/
abbrev DEntry := Entry Dictation Op Answer Exc Method DictationResult

/-- An act of the dictation. -/
abbrev DAct := Act Op Answer Exc Method DictationResult

/-- **The callbacks since the last recording began**, the last one first. -/
def callbacks : List DEntry → List DAct
  | [] => []
  | e :: older =>
    match e.act with
    | .call op => .call op :: callbacks older
    | .reply op a => .reply op a :: callbacks older
    | .ret (.ok res) => if res.status = .recording then [] else callbacks older
    | _ => callbacks older

/-- The last focus token among the answers. -/
def lastFocus : List DAct → Option FocusToken
  | [] => none
  | .reply .focus (.focus token) :: _ => some token
  | _ :: older => lastFocus older

/-- **The focus that the last recording captured.** -/
def captured : List DEntry → Option FocusToken
  | [] => none
  | e :: older =>
    match e.act with
    | .ret (.ok res) => if res.status = .recording then lastFocus (callbacks older) else captured older
    | _ => captured older

/-- A callback raised what is no `Exception`. -/
def Interrupted (log : List DEntry) : Prop := ∃ e ∈ log, ∃ op, e.act = .reply op (.raised true)

/-- The answer is no raise. -/
def Fine (a : Answer) : Prop := ∀ interrupt, a ≠ .raised interrupt

/-! ## What is owed -/

/-- **All that happens before a text is typed**: the recorder stops, the observer takes note of it, the audio is
transcribed, and the focus is the captured one. -/
def Ready (t : FocusToken) (text : String) (trace : List DAct) : Prop :=
  ∃ bytes n a, Fine a ∧ n.phase = Phase.processing ∧
    trace = [.reply .focus (.focus t), .call .focus, .reply (.transcribe bytes) (.text text), .call (.transcribe bytes),
      .reply (.observe n) a, .call (.observe n), .reply .stop (.audio bytes), .call .stop]

/-- The text was typed and not delivered, and the focus is the captured one again. -/
def Undelivered (t : FocusToken) (text : String) (trace : List DAct) : Prop :=
  ∃ before, Ready t text before ∧
    trace = .reply .focus (.focus t) :: .call .focus :: .reply (.typeText text (some t)) (.delivery .notDelivered) ::
      .call (.typeText text (some t)) :: before

/-- The last output reported that it delivered. -/
def Delivered (trace : List DAct) : Prop :=
  ∃ n a op before, trace = .reply (.observe n) a :: .call (.observe n) :: .reply op (.delivery .delivered) :: before ∧
    ((∃ text target, op = .typeText text target) ∨ ∃ text, op = .copyText text)

/-- What is owed of an entry. -/
structure Safe (e : DEntry) (older : List DEntry) : Prop where
  typed : ∀ text target, e.act = .call (.typeText text target) →
    ∃ t, target = some t ∧ captured older = some t ∧ Ready t text (callbacks older)
  copied : ∀ text, e.act = .call (.copyText text) →
    ∃ t, captured older = some t ∧ Undelivered t text (callbacks older)
  success : ∀ res, e.act = .ret (.ok res) → res.status = .success → Delivered (callbacks older)

/-- The operation is one that takes time: the state is neither idle nor recording. -/
def Blocking (s : State) : Prop := s = .processing ∨ s = .faulted

/-- **What an operation knows between its callbacks.** -/
structure Busy (w : DWorld) (s : State) (trace : List DAct) (cap target : Option FocusToken) : Prop where
  state : w.st.state = s
  target : w.st.target = target
  trace : callbacks w.log = trace
  captured : captured w.log = cap
  safe : Throughout Safe w.log
  calm : s ≠ .faulted → ∀ e ∈ w.log, e.st.state ≠ .faulted

/-- **The invariant.** A recording has had no callback yet, and its target is the focus that it captured. -/
structure DictateInv (w : DWorld) : Prop where
  fresh : w.st.state = .recording → callbacks w.log = [] ∧ w.st.target.isSome ∧ captured w.log = w.st.target
  safe : Throughout Safe w.log
  calm : w.st.state ≠ .faulted → ∀ e ∈ w.log, e.st.state ≠ .faulted

/-- What a nested call may do: nothing, while an operation is under way. What is called where none is leaves none
under way, if it was not broken off. -/
structure DictateRel (a b : DWorld) : Prop where
  held : Blocking a.st.state → b.st = a.st ∧ callbacks b.log = callbacks a.log ∧ captured b.log = captured a.log
  idle : a.st.state ≠ .processing → b.st.state ≠ .processing ∨ Interrupted b.log
  log : ∀ e ∈ a.log, e ∈ b.log

theorem Interrupted.mono {a b : List DEntry} (h : Interrupted a) (hab : ∀ e ∈ a, e ∈ b) : Interrupted b := by
  obtain ⟨e, he, op, hop⟩ := h
  exact ⟨e, hab e he, op, hop⟩

/-- The contract. -/
def dictateContract : Contract machine where
  Inv := DictateInv
  Rel _ := DictateRel
  refl _ _ := ⟨fun _ => ⟨rfl, rfl, rfl⟩, fun h => .inl h, fun _ he => he⟩
  trans {ctx a b c} h h' := by
    refine ⟨fun ha => ?_, fun ha => ?_, fun e he => h'.log e (h.log e he)⟩
    · obtain ⟨hst, htrace, hcap⟩ := h.held ha
      obtain ⟨hst', htrace', hcap'⟩ := h'.held (by rw [hst]; exact ha)
      exact ⟨hst'.trans hst, htrace'.trans htrace, hcap'.trans hcap⟩
    · rcases h.idle ha with hb | hb
      · exact h'.idle hb
      · exact .inr (hb.mono h'.log)

variable {ctx : List (ℕ × Op)} {i : ℕ} {w w' : DWorld} {s : State} {trace : List DAct} {cap target : Option FocusToken}

/-! ## Entries -/

/-- Nothing is owed of an entry that is neither an output nor a success. -/
theorem safe_silent {e : DEntry} {older : List DEntry} (hcall : ∀ op, e.act = .call op → (∀ text target, op ≠ .typeText text target) ∧ ∀ text, op ≠ .copyText text)
    (hret : ∀ res, e.act = .ret (.ok res) → res.status ≠ .success) : Safe e older := by
  refine ⟨fun text target h => ?_, fun text h => ?_, fun res h hs => ?_⟩
  · exact absurd rfl ((hcall _ h).1 text target)
  · exact absurd rfl ((hcall _ h).2 text)
  · exact absurd hs (hret res h)

theorem Busy.inv (h : Busy w s trace cap target) (hs : Blocking s) : DictateInv w where
  fresh hrec := by
    rw [h.state] at hrec
    rcases hs with rfl | rfl <;> cases hrec
  safe := h.safe
  calm hf := h.calm (h.state ▸ hf)

/-- **One callback** of an operation: nothing but its trace changes. -/
theorem busy_ask {op : Op} {Q : Except Exc Answer → DWorld → Prop} (h : Busy w s trace cap target) (hs : Blocking s)
    (hsafe : Safe ⟨i, .call op, w.st⟩ w.log)
    (hQ : ∀ w' a, Busy w' s (.reply op a :: .call op :: trace) cap target → (a = .raised true → Interrupted w'.log) →
      Q (.ok a) w') :
    Holds dictateContract ctx i (Prog.ask op) Q w := by
  have hcall : Busy (w.push i (.call op)) s (.call op :: trace) cap target := by
    refine ⟨h.state, h.target, ?_, h.captured, ⟨hsafe, h.safe⟩, fun hf e he => ?_⟩
    · rw [← h.trace]
      rfl
    · rcases List.mem_cons.1 he with rfl | he
      · exact fun hst => hf (h.state ▸ hst)
      · exact h.calm hf e he
  refine ⟨hcall.inv hs, fun w₁ hinv₁ _ hrel a _ => hQ _ a ?_ ?_⟩
  · have hrel' : DictateRel (w.push i (.call op)) w₁ := hrel
    have hblock : Blocking (w.push i (.call op)).st.state := by
      rw [hcall.state]
      exact hs
    obtain ⟨hst, htrace, hcap⟩ := hrel'.held hblock
    have hinv₁' : DictateInv w₁ := hinv₁
    have hstate : w₁.st.state = s := by rw [hst, hcall.state]
    refine ⟨hstate, by rw [World.push_st, hst, hcall.target], ?_, ?_,
      ⟨safe_silent (fun _ h => by cases h) (fun _ h => by cases h), hinv₁'.safe⟩, fun hf e he => ?_⟩
    · show Act.reply op a :: callbacks w₁.log = _
      rw [htrace, hcall.trace]
    · show Dictate.captured w₁.log = cap
      rw [hcap, hcall.captured]
    · rcases List.mem_cons.1 he with rfl | he
      · exact fun hst' => hf (hstate ▸ hst')
      · exact hinv₁'.calm (hstate ▸ hf) e he
  · rintro rfl
    exact ⟨_, List.mem_cons_self, op, rfl⟩

/-- A write of the operation that keeps the state. -/
theorem Busy.put (h : Busy w s trace cap target) {d : Dictation} {s' : State} {target' : Option FocusToken}
    (hd : d.state = s') (ht : d.target = target') (hcalm : s' ≠ .faulted → s ≠ .faulted) :
    Busy (w.put d) s' trace cap target' :=
  ⟨hd, ht, h.trace, h.captured, h.safe, fun hf => h.calm (hcalm hf)⟩

end Dictate

end Arhugula
