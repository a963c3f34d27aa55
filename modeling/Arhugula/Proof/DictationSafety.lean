import Arhugula.Proof.DictationState

/-!
# What a dictation puts out

`output_once`, for every run with callbacks that answer anything, raise, and call the dictation again: each
recording is typed at most once and copied at most once, both only after all that has to come before; a success was
delivered; a fault stays. Between operations the dictation is idle, recording or faulted, unless a callback raised
what is no `Exception`: the handlers let that pass, and the dictation stays `processing` (`processing_stays`).
-/

namespace Arhugula

namespace Dictate

open Reentrant

variable {ctx : List (ℕ × Op)} {i : ℕ} {w w' : DWorld} {s : State} {trace : List DAct} {cap target : Option FocusToken}
  {result : DictationResult} {attempted : Bool} {phase : Phase}

/-! ## The ends of an operation -/

/-- An operation that is over: it is not under way any more, or it was broken off. -/
structure Closed (r : Except Exc DictationResult) (w : DWorld) (s : State) (trace : List DAct) : Prop where
  busy : ∃ cap target, Busy w s trace cap target
  ended : s ≠ .recording
  settled : s ≠ .processing ∨ Interrupted w.log
  result : ∀ res, r = .ok res → res.status ≠ .recording ∧ (res.status = .success → Delivered trace)

/-- An operation that began a recording. -/
structure Opened (r : Except Exc DictationResult) (w : DWorld) (t : FocusToken) (trace : List DAct) : Prop where
  busy : ∃ cap, Busy w .recording trace cap (some t)
  result : r = .ok ⟨.recording, .captureStarted, none⟩
  focus : lastFocus trace = some t

/-- How an operation ends. -/
def Done (r : Except Exc DictationResult) (w : DWorld) : Prop :=
  (∃ s trace, Closed r w s trace) ∨ ∃ t trace, Opened r w t trace

theorem Busy.done (h : Busy w s trace cap target) {r : Except Exc DictationResult} (hs : s = .idle ∨ s = .faulted)
    (hr : ∀ res, r = .ok res → res.status ≠ .recording ∧ (res.status = .success → Delivered trace)) : Done r w := by
  refine .inl ⟨s, trace, ⟨cap, target, h⟩, ?_, .inl ?_, hr⟩
  · rcases hs with rfl | rfl <;> decide
  · rcases hs with rfl | rfl <;> decide

/-- An operation that a callback broke off. -/
theorem Busy.broken (h : Busy w s trace cap target) (hs : Blocking s) (hi : Interrupted w.log) {e : Exc} :
    Done (.error e) w := by
  refine .inl ⟨s, trace, ⟨cap, target, h⟩, ?_, .inr hi, fun res hr => by cases hr⟩
  rcases hs with rfl | rfl <;> decide

/-! ## The parts -/

/-- **A callback**: it gives something, or it raises an exception, or what is none. -/
theorem ask_holds {op : Op} {Q : Except Exc Answer → DWorld → Prop} (h : Busy w s trace cap target) (hs : Blocking s)
    (hsafe : Safe ⟨i, .call op, w.st⟩ w.log)
    (hfine : ∀ w' a, Fine a → Busy w' s (.reply op a :: .call op :: trace) cap target → Q (.ok a) w')
    (hraised : ∀ w', Busy w' s (.reply op (.raised false) :: .call op :: trace) cap target → Q (.error .exception) w')
    (hbroken : ∀ w' trace', Busy w' s trace' cap target → Interrupted w'.log → Q (.error .interrupt) w') :
    Holds dictateContract ctx i (ask op) Q w := by
  unfold ask
  rw [holds_bind]
  refine busy_ask h hs hsafe fun w' a h' hi => ?_
  cases a with
  | raised interrupt =>
    cases interrupt with
    | true => exact hbroken w' _ h' (hi rfl)
    | false => exact hraised w' h'
  | _ => exact hfine w' _ (fun _ hx => by cases hx) h'

/-- **A handler of exceptions.** -/
theorem onException_holds {α : Type} {p h : DM α} {Q : Except Exc α → DWorld → Prop}
    (hp : Holds dictateContract ctx i p (fun r w' => match r with
      | .ok a => Q (.ok a) w'
      | .error .exception => Holds dictateContract ctx i h Q w'
      | .error .interrupt => Q (.error .interrupt) w') w) :
    Holds dictateContract ctx i (onException p h) Q w := by
  unfold onException
  rw [holds_catching]
  refine hp.mono fun r w' hr => ?_
  cases r with
  | ok a => exact hr
  | error e => cases e <;> exact hr

/-- **A handler that completes the operation.** -/
theorem guarded_holds {α : Type} {p : DM α} {h : DM DictationResult} {f : α → DM DictationResult}
    {Q : Except Exc DictationResult → DWorld → Prop}
    (hp : Holds dictateContract ctx i p (fun r w' => match r with
      | .ok a => Holds dictateContract ctx i (f a) Q w'
      | .error .exception => Holds dictateContract ctx i h Q w'
      | .error .interrupt => Q (.error .interrupt) w') w) :
    Holds dictateContract ctx i (guarded p h f) Q w := by
  unfold guarded
  rw [holds_bind]
  refine onException_holds ?_
  show Holds _ _ _ (p >>= fun a => pure (some a)) _ _
  rw [holds_bind]
  refine hp.mono fun r w' hr => ?_
  cases r with
  | ok a => exact hr
  | error e => cases e <;> exact hr

/-- The callback is an output. -/
def Op.puts : Op → Bool
  | .typeText _ _ | .copyText _ => true
  | _ => false

/-- Nothing is owed of a call that puts nothing out. -/
theorem safe_call {op : Op} {st : Dictation} {older : List DEntry} (hop : op.puts = false) :
    Safe ⟨i, .call op, st⟩ older := by
  refine safe_silent (fun op' h => ?_) (fun res h => by cases h)
  cases h
  constructor
  · rintro text target rfl
    cases hop
  · rintro text rfl
    cases hop

/-- **An observation** under its handler. -/
theorem emit_holds {Q : Except Exc Bool → DWorld → Prop} (h : Busy w s trace cap target) (hs : Blocking s)
    (htrue : ∀ w' n a, Fine a → n.phase = phase →
      Busy w' s (.reply (.observe n) a :: .call (.observe n) :: trace) cap target → Q (.ok true) w')
    (hfalse : ∀ w' n, Busy w' s (.reply (.observe n) (.raised false) :: .call (.observe n) :: trace) cap target →
      Q (.ok false) w')
    (hbroken : ∀ w' trace', Busy w' s trace' cap target → Interrupted w'.log → Q (.error .interrupt) w') :
    Holds dictateContract ctx i (emit phase result) Q w := by
  unfold emit
  rw [holds_bind, holds_read]
  refine onException_holds ?_
  rw [holds_bind]
  have hsafe : Safe ⟨i, .call (.observe ⟨w.st.interaction, phase, result.status, result.code⟩), w.st⟩ w.log :=
    safe_call rfl
  refine ask_holds h hs hsafe (fun w' a ha h' => ?_) (fun w' h' => ?_) (fun w' trace' h' hi => ?_)
  · exact htrue w' _ a ha rfl h'
  · exact hfalse w' _ h'
  · exact hbroken w' trace' h' hi

/-- The last callback was an output, and it delivered. -/
def JustDelivered (trace : List DAct) : Prop :=
  ∃ op before, trace = .reply op (.delivery .delivered) :: before ∧
    ((∃ text target, op = .typeText text target) ∨ ∃ text, op = .copyText text)

/-- **A completion** ends the operation; what delivered was the last output. -/
theorem complete_holds (h : Busy w s trace cap target) (hr : result.status ≠ .recording)
    (hd : result.status = .success → JustDelivered trace) :
    Holds dictateContract ctx i (complete result attempted) Done w := by
  unfold complete
  simp only [holds_bind, holds_read, holds_write, h.state]
  set held : State := if s = .faulted then .faulted else .processing with hheld
  have hblock : Blocking held := by
    unfold Blocking
    rw [hheld]
    split <;> simp
  have hbusy : Busy (w.put (w.st.enter held)) held trace cap target := by
    refine h.put rfl h.target fun hf hsf => hf ?_
    rw [hheld, if_pos hsf]
  -- what the observer does leaves the operation as it is
  have hend : ∀ w' trace', Busy w' held trace' cap target →
      Busy ((w'.put (w'.st.aim none)).put ((w'.st.aim none).enter (if s = .faulted then .faulted else .idle)))
        (if s = .faulted then .faulted else .idle) trace' cap none := by
    intro w' trace' h'
    refine Busy.put (h'.put h'.state rfl id) rfl rfl fun hf hheld' => hf ?_
    rw [hheld] at hheld'
    split at hheld' <;> simp_all
  have hover : (if s = .faulted then State.faulted else .idle) = .idle ∨
      (if s = .faulted then State.faulted else .idle) = .faulted := by
    split <;> simp
  refine emit_holds hbusy hblock (fun w' n a ha _ h' => ?_) (fun w' n h' => ?_) (fun w' trace' h' hi => ?_)
  · refine (hend w' _ h').done hover fun res hres => ?_
    cases hres
    refine ⟨hr, fun hsucc => ?_⟩
    obtain ⟨op, before, rfl, hop⟩ := hd hsucc
    exact ⟨n, a, op, before, rfl, hop⟩
  · refine (hend w' _ h').done hover fun res hres => ?_
    cases hres
    constructor <;> split <;> simp
  · exact h'.broken hblock hi

/-- **A cleanup**: the recorder is canceled, or the dictation is faulted. -/
theorem cleanup_holds {Q : Except Exc Bool → DWorld → Prop} (h : Busy w .processing trace cap target)
    (htrue : ∀ w' trace', Busy w' .idle trace' cap target → Q (.ok true) w')
    (hfalse : ∀ w' trace', Busy w' .faulted trace' cap target → Q (.ok false) w')
    (hbroken : ∀ w' trace', Busy w' .processing trace' cap target → Interrupted w'.log → Q (.error .interrupt) w') :
    Holds dictateContract ctx i cleanup Q w := by
  unfold cleanup
  refine onException_holds ?_
  rw [holds_bind]
  refine ask_holds h (.inl rfl) (safe_call rfl) (fun w' a ha h' => ?_)
    (fun w' h' => ?_) (fun w' trace' h' hi => ?_)
  · exact htrue _ _ (h'.put rfl h'.target fun _ => by decide)
  · exact hfalse _ _ (h'.put rfl h'.target fun hf => absurd rfl hf)
  · exact hbroken w' trace' h' hi

theorem abort_holds {clean unclean : DictationResult} (h : Busy w .processing trace cap target)
    (hclean : clean.status ≠ .recording ∧ clean.status ≠ .success)
    (hunclean : unclean.status ≠ .recording ∧ unclean.status ≠ .success) :
    Holds dictateContract ctx i (abort clean unclean) Done w := by
  unfold abort
  rw [holds_bind]
  refine cleanup_holds h (fun w' trace' h' => ?_) (fun w' trace' h' => ?_) (fun w' trace' h' hi => ?_)
  · exact complete_holds h' hclean.1 fun hsucc => absurd hsucc hclean.2
  · exact complete_holds h' hunclean.1 fun hsucc => absurd hsucc hunclean.2
  · exact h'.broken (.inl rfl) hi

/-! ## The methods -/

/-- **`home`, once the focus is captured.** -/
theorem record_holds {t : FocusToken} (h : Busy w .processing trace cap (some t)) (ht : lastFocus trace = some t) :
    Holds dictateContract ctx i record Done w := by
  unfold record
  simp only [holds_bind]
  refine emit_holds h (.inl rfl) (fun w' n a _ _ h' => ?_) (fun w' n h' => ?_) (fun w' trace' h' hi => ?_)
  · show Holds _ _ _ (_ >>= _) _ _
    rw [holds_bind, holds_write]
    have hbusy : Busy (w'.put (w'.st.enter .processing)) .processing _ cap (some t) :=
      h'.put rfl h'.target fun _ => by decide
    refine guarded_holds (ask_holds hbusy (.inl rfl) (safe_call rfl) (fun w₂ a₂ _ h₂ => ?_) (fun w₂ h₂ => ?_)
      (fun w₂ trace₂ h₂ hi => h₂.broken (.inl rfl) hi))
    · rw [holds_bind, holds_write]
      refine .inr ⟨t, _, ⟨cap, h₂.put rfl h₂.target fun _ => by decide⟩, rfl, ?_⟩
      simpa only [lastFocus] using ht
    · exact abort_holds h₂ ⟨by decide, by decide⟩ ⟨by decide, by decide⟩
  · show Holds _ _ _ (_ >>= _) _ _
    simp only [holds_bind, holds_write]
    have hover : Busy (w'.put ((w'.st.aim none).enter .idle)) .idle _ cap none := h'.put rfl rfl fun _ => by decide
    refine Busy.done hover (.inl rfl) fun res hres => ?_
    cases hres
    exact ⟨by decide, fun hsucc => by cases hsucc⟩
  · exact h'.broken (.inl rfl) hi

/-- A completion with a failure. -/
theorem fail_holds (h : Busy w .processing trace cap target) (hr : result.status ≠ .recording)
    (hs : result.status ≠ .success) : Holds dictateContract ctx i (complete result attempted) Done w :=
  complete_holds h hr fun hsucc => absurd hsucc hs

theorem home_holds (interaction : String) (h : Busy w .idle trace cap target) :
    Holds dictateContract ctx i (home interaction) Done w := by
  unfold home
  rw [holds_bind, holds_read]
  have hidle : ¬ w.st.state ≠ .idle := fun hne => hne h.state
  show Holds _ _ _ (if w.st.state ≠ .idle then _ else _) _ _
  rw [if_neg hidle, holds_bind, holds_write]
  have hbusy : Busy (w.put (w.st.begin interaction)) .processing trace cap target := h.put rfl h.target fun _ => by decide
  show Holds _ _ _ (if _ then _ else _) _ _
  split
  · exact fail_holds hbusy (by decide) (by decide)
  · refine guarded_holds (ask_holds hbusy (.inl rfl) (safe_call rfl) (fun w' a _ h' => ?_) (fun w' h' => ?_)
      (fun w' trace' h' hi => h'.broken (.inl rfl) hi))
    · cases a with
      | focus token =>
        show Holds _ _ _ (_ >>= _) _ _
        rw [holds_bind, holds_write]
        exact record_holds (h'.put h'.state rfl id) rfl
      | _ => exact fail_holds h' (by decide) (by decide)
    · exact fail_holds h' (by decide) (by decide)

/-- **A look at the focus** that has to be the captured one. -/
theorem refocused_holds {t : FocusToken} {f : DM DictationResult} (h : Busy w .processing trace cap (some t))
    (hf : ∀ w', Busy w' .processing (.reply .focus (.focus t) :: .call .focus :: trace) cap (some t) →
      Holds dictateContract ctx i f Done w') :
    Holds dictateContract ctx i (refocused f) Done w := by
  unfold refocused
  refine guarded_holds ?_
  rw [holds_bind]
  refine ask_holds h (.inl rfl) (safe_call rfl) (fun w' a _ h' => ?_) (fun w' h' => ?_) (fun w' trace' h' hi => ?_)
  · show Holds _ _ _ (_ >>= _) _ _
    rw [holds_bind, holds_read]
    show Holds _ _ _ (if (w'.st.target.any fun t => decide (a = .focus t)) = true then f else _) _ _
    rw [h'.target]
    simp only [Option.any_some, decide_eq_true_eq]
    split
    · rename_i ha
      subst ha
      exact hf w' h'
    · exact fail_holds h' (by decide) (by decide)
  · exact fail_holds h' (by decide) (by decide)
  · exact h'.broken (.inl rfl) hi

/-- **An output.** -/
theorem output_holds {op : Op} {f : Delivery → DM DictationResult} (h : Busy w .processing trace cap target)
    (hsafe : Safe ⟨i, .call op, w.st⟩ w.log)
    (hf : ∀ w' status, Busy w' .processing (.reply op (.delivery status) :: .call op :: trace) cap target →
      Holds dictateContract ctx i (f status) Done w') :
    Holds dictateContract ctx i (output op f) Done w := by
  unfold output
  refine guarded_holds (ask_holds h (.inl rfl) hsafe (fun w' a _ h' => ?_) (fun w' h' => ?_)
    (fun w' trace' h' hi => h'.broken (.inl rfl) hi))
  · cases a with
    | delivery status => exact hf w' status h'
    | _ => exact fail_holds h' (by decide) (by decide)
  · exact fail_holds h' (by decide) (by decide)

/-- **The result of an output** is a success only where it delivered. -/
theorem outcome_holds {op : Op} {route : Route} {status : Delivery}
    (h : Busy w .processing (.reply op (.delivery status) :: trace) cap target)
    (hop : (∃ text target, op = .typeText text target) ∨ ∃ text, op = .copyText text) :
    Holds dictateContract ctx i (complete (outcome route status) true) Done w := by
  refine complete_holds h ?_ fun hsucc => ?_
  · cases status <;> exact fun hs => by cases hs
  · cases status with
    | delivered => exact ⟨op, trace, rfl, hop⟩
    | notDelivered => cases hsucc
    | uncertain => cases hsucc

theorem deliver_holds {t : FocusToken} {text : String} (h : Busy w .processing trace (some t) (some t))
    (hready : Ready t text (.reply .focus (.focus t) :: .call .focus :: trace)) :
    Holds dictateContract ctx i (deliver text) Done w := by
  unfold deliver
  refine refocused_holds h fun w₁ h₁ => ?_
  rw [holds_bind, holds_read, h₁.target]
  have htyped : Safe ⟨i, .call (.typeText text (some t)), w₁.st⟩ w₁.log := by
    refine ⟨fun text' target' hact => ?_, fun _ hact => (by cases hact), fun _ hact => (by cases hact)⟩
    cases hact
    exact ⟨t, rfl, h₁.captured, (by rw [h₁.trace]; exact hready)⟩
  refine output_holds h₁ htyped fun w₂ status h₂ => ?_
  cases status with
  | delivered => exact outcome_holds h₂ (.inl ⟨text, some t, rfl⟩)
  | uncertain => exact outcome_holds h₂ (.inl ⟨text, some t, rfl⟩)
  | notDelivered =>
    refine refocused_holds h₂ fun w₃ h₃ => ?_
    have hcopied : Safe ⟨i, .call (.copyText text), w₃.st⟩ w₃.log := by
      refine ⟨fun _ _ hact => (by cases hact), fun text' hact => ?_, fun _ hact => (by cases hact)⟩
      cases hact
      exact ⟨t, h₃.captured, _, hready, h₃.trace⟩
    exact output_holds h₃ hcopied fun w₄ status h₄ => outcome_holds h₄ (.inr ⟨text, rfl⟩)

theorem transcribed_holds {t : FocusToken} {audio a : Answer} {n : Notice} (ha : Fine a) (hn : n.phase = .processing)
    (h : Busy w .processing [.reply (.observe n) a, .call (.observe n), .reply .stop audio, .call .stop] (some t) (some t)) :
    Holds dictateContract ctx i (transcribed audio) Done w := by
  unfold transcribed
  cases audio with
  | audio bytes =>
    by_cases hb : bytes = []
    · simp only [if_pos hb]
      exact guarded_holds (fail_holds h (by decide) (by decide))
    · simp only [if_neg hb]
      refine guarded_holds (ask_holds h (.inl rfl) (safe_call rfl) (fun w' r _ h' => ?_) (fun w' h' => ?_)
        (fun w' trace' h' hi => h'.broken (.inl rfl) hi))
      · cases r with
        | text s =>
          show Holds _ _ _ (if isBlank s then _ else _) _ _
          split
          · exact fail_holds h' (by decide) (by decide)
          · exact deliver_holds h' ⟨bytes, n, a, ha, hn, rfl⟩
        | _ => exact fail_holds h' (by decide) (by decide)
      · exact fail_holds h' (by decide) (by decide)
  | _ => exact guarded_holds (fail_holds h (by decide) (by decide))

theorem finish_holds {t : FocusToken} (h : Busy w .recording [] (some t) (some t)) :
    Holds dictateContract ctx i finish Done w := by
  unfold finish
  rw [holds_bind, holds_read]
  have hrec : ¬ w.st.state ≠ .recording := fun hne => hne h.state
  show Holds _ _ _ (if w.st.state ≠ .recording then _ else _) _ _
  rw [if_neg hrec, holds_bind, holds_write]
  have hbusy : Busy (w.put (w.st.enter .processing)) .processing [] (some t) (some t) :=
    h.put rfl h.target fun _ => by decide
  refine guarded_holds (ask_holds hbusy (.inl rfl) (safe_call rfl) (fun w' audio _ h' => ?_) (fun w' h' => ?_)
    (fun w' trace' h' hi => h'.broken (.inl rfl) hi))
  · show Holds _ _ _ (_ >>= _) _ _
    rw [holds_bind]
    refine emit_holds h' (.inl rfl) (fun w₂ n a ha hn h₂ => ?_) (fun w₂ n h₂ => ?_)
      (fun w₂ trace₂ h₂ hi => h₂.broken (.inl rfl) hi)
    · exact transcribed_holds ha hn h₂
    · exact fail_holds h₂ (by decide) (by decide)
  · exact abort_holds h' ⟨by decide, by decide⟩ ⟨by decide, by decide⟩

theorem cancel_holds (h : Busy w .recording trace cap target) : Holds dictateContract ctx i cancel Done w := by
  unfold cancel
  rw [holds_bind, holds_read]
  have hrec : ¬ w.st.state ≠ .recording := fun hne => hne h.state
  show Holds _ _ _ (if w.st.state ≠ .recording then _ else _) _ _
  rw [if_neg hrec, holds_bind, holds_write]
  have hbusy : Busy (w.put (w.st.enter .processing)) .processing trace cap target := h.put rfl h.target fun _ => by decide
  exact abort_holds hbusy ⟨by decide, by decide⟩ ⟨by decide, by decide⟩

/-! ## Calls -/

/-- An operation begins with what the dictation knows. -/
theorem DictateInv.busy (h : DictateInv w) (meth : Method) :
    Busy (w.enter meth) w.st.state (callbacks w.log) (captured w.log) w.st.target := by
  refine ⟨rfl, rfl, rfl, rfl, ⟨?_, h.safe⟩, fun hf e he => ?_⟩
  · exact safe_silent (fun op hact => by cases hact) fun res hact => by cases hact
  · rcases List.mem_cons.1 he with rfl | he
    · exact hf
    · exact h.calm hf e he

/-- **The end of an operation keeps the contract.** -/
theorem Done.kept {r : Except Exc DictationResult} (hd : Done r w') (hb : ¬ Blocking w.st.state)
    (hlog : ∀ e ∈ w.log, e ∈ w'.log) :
    DictateInv (w'.push i (.ret r)) ∧ DictateRel w (w'.push i (.ret r)) := by
  have hmem : ∀ e ∈ w.log, e ∈ (w'.push i (.ret r)).log := fun e he => List.mem_cons_of_mem _ (hlog e he)
  rcases hd with ⟨s, trace, ⟨cap, target, hbusy⟩, hended, hover, hres⟩ | ⟨t, trace, ⟨cap, hbusy⟩, rfl, hfocus⟩
  · refine ⟨⟨fun hrec => absurd (hbusy.state ▸ hrec) hended, ⟨⟨?_, ?_, ?_⟩, hbusy.safe⟩, fun hf e he => ?_⟩,
      fun hblock => absurd hblock hb, fun _ => ?_, hmem⟩
    · exact fun _ _ hact => by cases hact
    · exact fun _ hact => by cases hact
    · intro res hact hsucc
      cases hact
      show Delivered (callbacks w'.log)
      rw [hbusy.trace]
      exact (hres res rfl).2 hsucc
    · rcases List.mem_cons.1 he with rfl | he
      · exact hf
      · exact hbusy.calm (hbusy.state ▸ hf) e he
    · rcases hover with hs | hi
      · exact .inl (hbusy.state ▸ hs)
      · exact .inr (hi.mono fun e he => List.mem_cons_of_mem _ he)
  · refine ⟨⟨fun _ => ⟨rfl, ?_, ?_⟩, ⟨⟨?_, ?_, ?_⟩, hbusy.safe⟩, fun hf e he => ?_⟩,
      fun hblock => absurd hblock hb, fun _ => .inl ?_, hmem⟩
    · show w'.st.target.isSome = true
      rw [hbusy.target]
      rfl
    · show lastFocus (callbacks w'.log) = w'.st.target
      rw [hbusy.trace, hbusy.target, hfocus]
    · exact fun _ _ hact => by cases hact
    · exact fun _ hact => by cases hact
    · intro res hact hsucc
      cases hact
      cases hsucc
    · rcases List.mem_cons.1 he with rfl | he
      · exact hf
      · exact hbusy.calm (hbusy.state ▸ hf) e he
    · show w'.st.state ≠ .processing
      rw [hbusy.state]
      decide

/-- **A refused call** does nothing. -/
theorem refused_kept (h : DictateInv w) (meth : Method) {res : DictationResult} (hres : res.status = .blocked) :
    DictateInv ((w.enter meth).push i (.ret (.ok res))) ∧ DictateRel w ((w.enter meth).push i (.ret (.ok res))) := by
  have hrec : res.status ≠ .recording := by simp [hres]
  have hcallbacks : callbacks ((w.enter meth).push i (.ret (.ok res))).log = callbacks w.log := by
    simp [callbacks, hrec]
  have hcaptured : captured ((w.enter meth).push i (.ret (.ok res))).log = captured w.log := by
    simp [captured, hrec]
  refine ⟨⟨fun hstate => ?_, ⟨?_, ?_, h.safe⟩, fun hf e he => ?_⟩, fun _ => ⟨rfl, hcallbacks, hcaptured⟩, fun hs => .inl hs,
    fun e he => ?_⟩
  · rw [hcallbacks, hcaptured]
    exact h.fresh hstate
  · exact safe_silent (fun op hact => by cases hact) fun res' hact => by cases hact; simp [hres]
  · exact safe_silent (fun op hact => by cases hact) fun res' hact => by cases hact
  · rcases List.mem_cons.1 he with rfl | he
    · exact hf
    rcases List.mem_cons.1 he with rfl | he
    · exact hf
    · exact h.calm hf e he
  · exact List.mem_cons_of_mem _ (List.mem_cons_of_mem _ he)

/-- A method that was not refused. -/
theorem Holds.kept {p : DM DictationResult} (meth : Method) (hb : ¬ Blocking w.st.state)
    (h : Holds dictateContract ctx w.next p Done (w.enter meth)) :
    Holds dictateContract ctx w.next p (fun r w' => dictateContract.Inv (w'.push w.next (.ret r)) ∧
      dictateContract.Rel ctx w (w'.push w.next (.ret r))) (w.enter meth) := by
  refine h.extends.mono fun r w' hr => ?_
  obtain ⟨hd, -, new, hnew, -⟩ := hr
  refine hd.kept hb fun e he => ?_
  rw [hnew]
  exact List.mem_append_right _ (List.mem_cons_of_mem _ he)

/-- **Every method keeps the contract.** -/
theorem dictate_kept : dictateContract.Kept where
  crash _ _ _ h := by cases h
  method ctx meth w _ _ _ hinv := by
    replace hinv : DictateInv w := hinv
    have hbusy := hinv.busy meth
    cases meth with
    | home interaction =>
      by_cases hs : w.st.state = .idle
      · rw [hs] at hbusy
        refine Holds.kept _ ?_ (home_holds interaction hbusy)
        rw [hs]
        rintro (h | h) <;> cases h
      · show Holds _ _ _ (home interaction) _ _
        unfold home
        rw [holds_bind, holds_read]
        show Holds _ _ _ (if w.st.state ≠ .idle then _ else _) _ _
        rw [if_pos hs]
        exact refused_kept hinv _ rfl
    | finish =>
      by_cases hs : w.st.state = .recording
      · obtain ⟨htrace, hsome, hcap⟩ := hinv.fresh hs
        obtain ⟨t, ht⟩ := Option.isSome_iff_exists.1 hsome
        rw [hs, htrace, hcap, ht] at hbusy
        refine Holds.kept _ ?_ (finish_holds hbusy)
        rw [hs]
        rintro (h | h) <;> cases h
      · show Holds _ _ _ finish _ _
        unfold finish
        rw [holds_bind, holds_read]
        show Holds _ _ _ (if w.st.state ≠ .recording then _ else _) _ _
        rw [if_pos hs]
        exact refused_kept hinv _ rfl
    | cancel =>
      by_cases hs : w.st.state = .recording
      · rw [hs] at hbusy
        refine Holds.kept _ ?_ (cancel_holds hbusy)
        rw [hs]
        rintro (h | h) <;> cases h
      · show Holds _ _ _ cancel _ _
        unfold cancel
        rw [holds_bind, holds_read]
        show Holds _ _ _ (if w.st.state ≠ .recording then _ else _) _ _
        rw [if_pos hs]
        exact refused_kept hinv _ rfl

/-! ## Counting the outputs -/

/-- A text is typed. -/
def types : DAct → Bool
  | .call (.typeText _ _) => true
  | _ => false

/-- A text is copied. -/
def copies : DAct → Bool
  | .call (.copyText _) => true
  | _ => false

/-- What keeps a recording from being put out: it was canceled, or the stop or the observer raised. -/
def hinders : DAct → Bool
  | .call .cancel | .reply .stop (.raised _) | .reply (.observe _) (.raised _) => true
  | _ => false

variable {t : FocusToken} {text : String}

/-- Before the typing nothing was put out, and nothing hindered it. -/
theorem Ready.untouched (h : Ready t text trace) :
    trace.countP types = 0 ∧ trace.countP copies = 0 ∧ trace.countP hinders = 0 := by
  obtain ⟨bytes, n, a, ha, -, rfl⟩ := h
  refine ⟨rfl, rfl, ?_⟩
  cases a with
  | raised interrupt => exact absurd rfl (ha interrupt)
  | _ => rfl

/-- Before the copying the text was typed once. -/
theorem Undelivered.untouched (h : Undelivered t text trace) :
    trace.countP types = 1 ∧ trace.countP copies = 0 ∧ trace.countP hinders = 0 := by
  obtain ⟨before, hready, rfl⟩ := h
  obtain ⟨htypes, hcopies, hhinders⟩ := hready.untouched
  simp [List.countP_cons, types, copies, hinders, htypes, hcopies, hhinders]

/-- **Each recording is put out at most once each way.** -/
theorem outputs_once {log : List DEntry} (h : Throughout Safe log) :
    (callbacks log).countP types ≤ 1 ∧ (callbacks log).countP copies ≤ 1 := by
  induction log with
  | nil => exact ⟨Nat.zero_le _, Nat.zero_le _⟩
  | cons e older ih =>
    obtain ⟨htyped, hcopied⟩ := ih h.2
    cases hact : e.act with
    | call op =>
      simp only [callbacks, hact, List.countP_cons]
      cases op with
      | typeText text target =>
        obtain ⟨t, -, -, hready⟩ := h.1.typed text target hact
        simp [types, copies, hready.untouched]
      | copyText text =>
        obtain ⟨t, -, hundelivered⟩ := h.1.copied text hact
        simp [types, copies, hundelivered.untouched]
      | _ => simpa [types, copies] using ⟨htyped, hcopied⟩
    | reply op a => simpa [callbacks, hact, types, copies] using ⟨htyped, hcopied⟩
    | ret r =>
      cases r with
      | error e => simpa [callbacks, hact] using ⟨htyped, hcopied⟩
      | ok res =>
        simp only [callbacks, hact]
        split
        · exact ⟨Nat.zero_le _, Nat.zero_le _⟩
        · exact ⟨htyped, hcopied⟩
    | invoke m => simpa [callbacks, hact] using ⟨htyped, hcopied⟩
    | crash => simpa [callbacks, hact] using ⟨htyped, hcopied⟩

/-- Before an output nothing hindered it. -/
theorem Safe.unhindered {e : DEntry} {older : List DEntry} (h : Safe e older)
    (hout : types e.act = true ∨ copies e.act = true) : (callbacks older).countP hinders = 0 := by
  cases hact : e.act with
  | call op =>
    rw [hact] at hout
    cases op with
    | typeText text target =>
      obtain ⟨t, -, -, hready⟩ := h.typed text target hact
      exact hready.untouched.2.2
    | copyText text =>
      obtain ⟨t, -, hundelivered⟩ := h.copied text hact
      exact hundelivered.untouched.2.2
    | _ => simp [types, copies] at hout
  | _ => simp [hact, types, copies] at hout

/-! ## The results -/

/-- **What a dictation puts out.** In every run: since the last recording began a text was typed at most once and
copied at most once; it is typed where all that has to come before it came, with the focus that the recording
captured, and copied where the typing did not deliver and the focus is the same again, and in neither case after a
cancel, a failed stop or a failed observation; a success was delivered; a fault stays. Where nothing is under way
the dictation is idle, recording or faulted, unless a callback raised what is no `Exception`. -/
theorem output_once {provider : Provider} {c : Config Dictation Op Answer Exc Method DictationResult}
    (h : machine.Reachable (.new provider) c) :
    (∀ newer older, c.w.log = newer ++ older →
      (callbacks older).countP types ≤ 1 ∧ (callbacks older).countP copies ≤ 1) ∧
    (∀ newer e older, c.w.log = newer ++ e :: older →
      (∀ text target, e.act = .call (.typeText text target) →
        ∃ t, target = some t ∧ captured older = some t ∧ Ready t text (callbacks older)) ∧
      (∀ text, e.act = .call (.copyText text) →
        ∃ t, captured older = some t ∧ Undelivered t text (callbacks older)) ∧
      (types e.act = true ∨ copies e.act = true → (callbacks older).countP hinders = 0) ∧
      (∀ res, e.act = .ret (.ok res) → res.status = .success → Delivered (callbacks older)) ∧
      (e.st.state = .faulted → c.w.st.state = .faulted)) ∧
    (c.stack = [] →
      c.w.st.state = .idle ∨ c.w.st.state = .recording ∨ c.w.st.state = .faulted ∨ Interrupted c.w.log) := by
  have hstart : DictateInv (Machine.start (Dictation.new provider) :
      Config Dictation Op Answer Exc Method DictationResult).w := by
    refine ⟨fun hrec => ?_, trivial, fun _ e he => ?_⟩
    · cases hrec
    · cases he
  have hleaves : dictateContract.Leaves fun w => w.st.state ≠ .processing ∨ Interrupted w.log := by
    intro w w' hw hrel
    replace hrel : DictateRel w w' := hrel
    rcases hw with hs | hi
    · exact hrel.idle hs
    · exact .inr (hi.mono hrel.log)
  have hidle : (Machine.start (Dictation.new provider) :
      Config Dictation Op Answer Exc Method DictationResult).w.st.state ≠ .processing := by
    intro hs
    cases hs
  obtain ⟨hinv, hover⟩ := Contract.sound_idle dictate_kept hleaves (fun _ _ hc => by cases hc) hstart (.inl hidle) h
  replace hinv : DictateInv c.w := hinv
  refine ⟨fun newer older hlog => ?_, fun newer e older hlog => ?_, fun hstack => ?_⟩
  · have hsafe := hinv.safe
    rw [hlog] at hsafe
    exact outputs_once (Throughout.suffix hsafe)
  · have hsafe := hinv.safe
    rw [hlog] at hsafe
    have he : Safe e older := hsafe.at
    refine ⟨he.typed, he.copied, he.unhindered, he.success, fun hf => ?_⟩
    by_contra hne
    refine hinv.calm hne e ?_ hf
    rw [hlog]
    exact List.mem_append_right _ List.mem_cons_self
  · rcases hover hstack with hs | hi
    · cases hstate : c.w.st.state with
      | processing => exact absurd hstate hs
      | _ => simp
    · exact .inr (.inr (.inr hi))

/-! ## Runs -/

namespace Example

def speech : Provider := ⟨"speech", .vm, "1", true, .healthy, ["transcription"]⟩

def window : FocusToken := ⟨"0x1", 4, by decide⟩

/-- A recording that is typed, not delivered, and copied. -/
def copied : List (Input Answer Method) :=
  [.invoke (.home "i"), .reply (.focus window), .reply .object, .reply .object, .invoke .finish, .reply (.audio [1]),
    .invoke (.home "j"), .reply .object, .reply (.text "hello"), .reply (.focus window),
    .reply (.delivery .notDelivered), .reply (.focus window), .reply (.delivery .delivered), .reply .object]

end Example

/-- A text that could not be typed is copied; a call of `home` while it is put out is refused. -/
theorem output_once_copied :
    ∃ c, machine.Reachable (.new Example.speech) c ∧ c.stack = [] ∧ (callbacks c.w.log).countP types = 1 ∧
      (callbacks c.w.log).countP copies = 1 ∧ c.w.st.state = .idle ∧
        ∀ newer older, c.w.log = newer ++ older →
          (callbacks older).countP types ≤ 1 ∧ (callbacks older).countP copies ≤ 1 := by
  obtain ⟨c, hc, ht⟩ := Machine.Reachable.of_run machine (.new Example.speech) Example.copied
    (fun c => decide (c.stack.length = 0 ∧ (callbacks c.w.log).countP types = 1 ∧
      (callbacks c.w.log).countP copies = 1 ∧ c.w.st.state = .idle)) (by decide +kernel)
  obtain ⟨hstack, htypes, hcopies, hstate⟩ := of_decide_eq_true ht
  exact ⟨c, hc, List.length_eq_zero_iff.1 hstack, htypes, hcopies, hstate, (output_once hc).1⟩

/-- **A dictation that stays `processing`**: the focus raised what is no `Exception`, and no handler is for that. -/
theorem processing_stays :
    ∃ c, machine.Reachable (.new Example.speech) c ∧ c.stack = [] ∧ c.w.st.state = .processing := by
  obtain ⟨c, hc, ht⟩ := Machine.Reachable.of_run machine (.new Example.speech)
    [.invoke (.home "i"), .reply (.raised true)]
    (fun c => decide (c.stack.length = 0 ∧ c.w.st.state = .processing)) (by decide +kernel)
  obtain ⟨hstack, hstate⟩ := of_decide_eq_true ht
  exact ⟨c, hc, List.length_eq_zero_iff.1 hstack, hstate⟩

end Dictate

end Arhugula
