import Arhugula.Proof.TtsSafety

/-!
# A speech output comes to an end

`left` is how many polls a call has left: those of the gateway and then those of the player. A poll that is not
re-entrant takes at least one of them, or the call ends with a completion; so the completion is handed out by the poll
after the last one at the latest.

The argument needs two things of the collaborators: no callback raises what is no `Exception`, which no handler
catches, and the gateway names providers by identifiers (`Misnamed`), since a completion that names one otherwise is
not made. `Bad` is the log of a run where one of them failed.
-/

namespace Arhugula

namespace Tts

open Reentrant Session

variable {digest : Providers.Manifest → String} {b : Binding} {w w' : TWorld digest} {ctx : List (ℕ × Op)} {i : ℕ}
  {op : Op} {a : Answer digest} {c : Call} {s : Slot}

/-! ## What a log shows -/

/-- A failure that a completion can report. -/
def namedFailure (f : Gateway.Failure) : Bool := isId f.providerId && isId f.modelVersion

/-- A success that a completion can report. -/
def namedSuccess (s : Gateway.Success) : Bool := isId s.providerId && isId s.modelVersion

/-- A result that a completion can report. -/
def named : Gateway.Terminal → Bool
  | .success s => namedSuccess s
  | .degraded s primary => namedSuccess s && namedFailure primary
  | .failed failures => failures.length ≤ 3 && failures.all namedFailure

/-- The gateway gave a result that no completion can report. -/
def Misnamed (log : List (TEntry digest)) : Prop := ∃ e ∈ log, ∃ t, e.act = .reply .gatewayPoll (.result t) ∧ named t = false

/-- A collaborator did what the output does not provide for. -/
def Bad (log : List (TEntry digest)) : Prop := Disturbed log ∨ Misnamed log

theorem Bad.mono {log log' : List (TEntry digest)} (h : Bad log) (hl : ∀ e ∈ log, e ∈ log') : Bad log' := by
  rcases h with ⟨e, he, hd⟩ | ⟨e, he, hm⟩
  · exact .inl ⟨e, hl e he, hd⟩
  · exact .inr ⟨e, hl e he, hm⟩

/-- An output that takes a start. -/
def Slot.open (s : Slot) : Bool := !s.busy && !s.fault && s.call.isNone && s.terminal.isNone

/-- The polls that limits allow: those of the gateway, and those of the player. -/
def Limits.total (l : Limits) : ℕ := l.synthesisPolls + l.playbackPolls

/-- The polls that a call may take. -/
def allowance (c : Call) : ℕ := c.snapshot.policy.elim 0 fun p => p.limits.total

/-- **Since the last start that was taken**: the polls that its call may take, once it was accepted; the polls that
ended since, and were not re-entrant; and the completions that any poll handed out. -/
structure Since where
  accepted : Option ℕ
  polls : ℕ
  delivered : List Completion

/-- One more entry. -/
def Since.next (n : Since) (e : TEntry digest) : Since :=
  match e.act with
  | .invoke (.start (some _)) => if e.st.open then ⟨none, 0, []⟩ else n
  | .ret (.ok (.started true)) => ⟨some (e.st.call.elim 0 allowance), 0, n.delivered⟩
  | .ret (.ok (.completion r)) => ⟨n.accepted, if e.st.busy then n.polls else n.polls + 1, r.toList ++ n.delivered⟩
  | _ => n

/-- **What happened since the last start that was taken.** -/
def since : List (TEntry digest) → Since
  | [] => ⟨none, 0, []⟩
  | e :: older => (since older).next e

/-- One completion at most, and one within the polls. -/
structure Fine (n : Since) : Prop where
  once : n.delivered.length ≤ 1
  within : ∀ k, n.accepted = some k → n.delivered = [] → n.polls ≤ k

/-- What a method raises, where nothing is `Bad`: a `ValueError`, of a start with what is no utterance. -/
def Refuses (log : List (TEntry digest)) : Prop :=
  ∀ e ∈ log, ∀ x, e.act = .ret (.error x) → x = .value ∧ ∃ m ∈ log, m.frame = e.frame ∧ m.act = .invoke (.start none)

/-! ## Calls -/

/-- **A call whose completion can be made**, under limits. -/
structure Known (l : Limits) (c : Call) : Prop where
  policy : ∃ p, c.snapshot.policy = some p ∧ p.limits = l
  limits : 0 < l.synthesisPolls ∧ 0 < l.playbackPolls
  turn : ∃ t, c.snapshot.currentTurn = some t ∧ 0 < t.generation
  completion : (c.completion .idle).valid = true

/-- The polls that a call has left. -/
def left (l : Limits) (phase : Phase) (polls : ℕ) : ℕ :=
  match phase with
  | .synthesizing => l.synthesisPolls - polls + l.playbackPolls
  | _ => l.playbackPolls - polls

/-- **A call in progress**: it has not taken all the polls of its phase. -/
structure Goes (l : Limits) (s : Slot) (c : Call) : Prop where
  call : s.call = some c
  known : Known l c
  terminal : s.terminal = none
  phase : s.phase = .synthesizing ∧ c.polls < l.synthesisPolls ∨
    s.phase = .playing ∧ c.polls < l.playbackPolls ∧ c.player.isSome = true

/-- A call, whatever it is at. -/
def Held (l : Limits) (s : Slot) : Prop := ∃ c, s.call = some c ∧ Known l c ∧ s.terminal = none

/-- A completion waits for a poll. -/
structure Published (s : Slot) : Prop where
  call : s.call = none
  terminal : s.terminal.isSome = true
  phase : s.phase ≠ .stopping

/-- No call, and nothing to hand out. -/
structure Vacant (s : Slot) : Prop where
  call : s.call = none
  terminal : s.terminal = none
  phase : s.phase ≠ .stopping

/-- **The output, where nothing is under way.** -/
inductive Rest (s : Slot) (n : Since) : Prop where
  | goes (l : Limits) (c : Call) (hs : Goes l s c) (ha : n.accepted = some l.total) (hd : n.delivered = [])
    (hn : n.polls + left l s.phase c.polls ≤ l.total)
  | published (hs : Published s) (hd : n.delivered = []) (hn : ∀ k, n.accepted = some k → n.polls ≤ k)
  | vacant (hs : Vacant s) (hd : n.delivered.length ≤ 1) (ha : ∀ k, n.accepted = some k → n.delivered.length = 1)

/-- **The invariant**, where nothing is bad. -/
structure Good (w : TWorld digest) : Prop where
  rest : w.st.busy = false → Rest w.st.toSlot (since w.log)
  fine : Fine (since w.log)
  refuses : Refuses w.log

/-- What a nested call may do: nothing but to the epoch and the owner, while another one is under way. -/
structure Nests (w w' : TWorld digest) : Prop where
  idle : w.st.busy = false → w'.st.busy = false
  slot : w.st.busy = true → w'.st.toSlot = w.st.toSlot ∧ since w'.log = since w.log

/-- The contract. -/
def progressContract (digest : Providers.Manifest → String) (b : Binding) : Contract (output digest b) where
  Inv w := Bad w.log ∨ Good w
  Rel _ w w' := (∀ e ∈ w.log, e ∈ w'.log) ∧ (Bad w'.log ∨ Nests w w')
  refl _ w := ⟨fun _ he => he, .inr ⟨id, fun _ => ⟨rfl, rfl⟩⟩⟩
  trans := by
    rintro ctx w₁ w₂ w₃ ⟨hl, h⟩ ⟨hl', h'⟩
    refine ⟨fun e he => hl' e (hl e he), ?_⟩
    rcases h' with h' | h'
    · exact .inl h'
    rcases h with h | h
    · exact .inl (h.mono hl')
    refine .inr ⟨fun hb => h'.idle (h.idle hb), fun hb => ?_⟩
    obtain ⟨hs, hn⟩ := h.slot hb
    obtain ⟨hs', hn'⟩ := h'.slot (by rw [congrArg Slot.busy hs]; exact hb)
    exact ⟨hs'.trans hs, hn'.trans hn⟩

/-! ## While a call is under way -/

/-- **What is known between the callbacks of a call.** -/
structure At (P : Slot → Prop) (n : Since) (w : TWorld digest) : Prop where
  slot : P w.st.toSlot
  busy : w.st.busy = true
  log : since w.log = n
  fine : Fine n
  refuses : Refuses w.log

/-- **How a stretch ends**: in something bad, or with what is known of a value, or of a failure. -/
def Ends (n : Since) {α : Type} (Q : α → Slot → Prop) (E : Slot → Prop) (r : Except Exc α) (w : TWorld digest) : Prop :=
  Bad w.log ∨ match r with
    | .ok a => At (Q a) n w
    | .error e => e ≠ .interrupt ∧ At E n w

variable {n : Since} {P E : Slot → Prop} {α β : Type} {Q : α → Slot → Prop}

theorem At.imp {P' : Slot → Prop} (h : At P n w) (hP : ∀ s, P s → P' s) : At P' n w :=
  ⟨hP _ h.slot, h.busy, h.log, h.fine, h.refuses⟩

theorem At.put {P' : Slot → Prop} {d : TtsOutput} (h : At P n w) (hd : d.busy = true) (hP : P' d.toSlot) :
    At P' n (w.put d) :=
  ⟨hP, hd, h.log, h.fine, h.refuses⟩

/-- Nothing else is owed where something is bad. -/
theorem bad_holds {p : TM digest α} {R : Except Exc α → TWorld digest → Prop} (h : Bad w.log)
    (hR : ∀ r w', Bad w'.log → R r w') : Holds (progressContract digest b) ctx i p R w := by
  induction p generalizing w with
  | ret a => exact hR _ _ h
  | fail e => exact hR _ _ h
  | get k ih => exact ih _ h
  | set s k ih => exact ih (w := w.put s) h
  | call op k ih =>
    have hcall : Bad (w.push i (.call op)).log := h.mono fun e he => List.mem_cons_of_mem _ he
    refine ⟨.inl hcall, fun w' _ hg _ a _ => ih a ?_⟩
    exact hcall.mono fun e he => List.mem_cons_of_mem _ (hg.mem he)

theorem Ends.imp {r : Except Exc α} {Q' : α → Slot → Prop} {E' : Slot → Prop} (h : Ends n Q E r w)
    (hQ : ∀ a s, Q a s → Q' a s) (hE : ∀ s, E s → E' s) : Ends n Q' E' r w := by
  rcases h with hbad | h
  · exact .inl hbad
  · refine .inr ?_
    cases r with
    | ok a => exact At.imp h (hQ a)
    | error e => exact ⟨h.1, h.2.imp hE⟩

/-- **Sequencing.** -/
theorem ends_bind {p : TM digest α} {f : α → TM digest β} {Q' : β → Slot → Prop}
    (hp : Holds (progressContract digest b) ctx i p (Ends n Q E) w)
    (hf : ∀ a w', At (Q a) n w' → Holds (progressContract digest b) ctx i (f a) (Ends n Q' E) w') :
    Holds (progressContract digest b) ctx i (p >>= f) (Ends n Q' E) w := by
  rw [holds_bind]
  refine hp.mono fun r w' hr => ?_
  rcases hr with hbad | hr
  · cases r with
    | ok a => exact bad_holds hbad fun _ _ h => .inl h
    | error e => exact .inl hbad
  · cases r with
    | ok a => exact hf a w' hr
    | error e => exact .inr hr

/-- **A handler of exceptions.** -/
theorem ends_onException {p h : TM digest α} {C : Slot → Prop}
    (hp : Holds (progressContract digest b) ctx i p (Ends n Q C) w)
    (hh : ∀ w', At C n w' → Holds (progressContract digest b) ctx i h (Ends n Q E) w') :
    Holds (progressContract digest b) ctx i (onException p h) (Ends n Q E) w := by
  unfold onException
  rw [holds_catching]
  refine hp.mono fun r w' hr => ?_
  cases r with
  | ok a => exact hr
  | error e =>
    dsimp only
    rcases hr with hbad | ⟨he, hr⟩
    · split
      · exact .inl hbad
      · exact bad_holds hbad fun _ _ h => .inl h
    · rw [if_neg he]
      exact hh w' hr

/-! ## Callbacks -/

theorem since_call (x : Op) : since (w.push i (.call x)).log = since w.log := rfl

theorem since_reply (x : Op) : since (w.push i (.reply x a)).log = since w.log := rfl

theorem Refuses.push (h : Refuses w.log) {x : Act Op (Answer digest) Exc Method Value} (hx : ∀ e, x ≠ .ret (.error e)) :
    Refuses (w.push i x).log := by
  intro e he y hy
  rcases List.mem_cons.1 he with rfl | he
  · exact absurd hy (hx y)
  · obtain ⟨hv, m, hm, hf⟩ := h e he y hy
    exact ⟨hv, m, List.mem_cons_of_mem _ hm, hf⟩

/-- What is known of an answer where nothing is bad. -/
structure Lawful (op : Op) (a : Answer digest) : Prop where
  quiet : a ≠ .raised true
  named : ∀ t, op = .gatewayPoll → a = .result t → named t = true
  valid : ∀ s, op = .sample → a = .snapshot s → s.valid = true
  legal : ∀ w, (output digest b).legal w op a = true

/-- **A callback** leaves what is known. -/
theorem call_ends {R : Except Exc (Answer digest) → TWorld digest → Prop} (h : At P n w)
    (hR : ∀ w' a, At P n w' → Lawful (b := b) op a → R (.ok a) w') (hbad : ∀ r w', Bad w'.log → R r w') :
    Holds (progressContract digest b) ctx i (Prog.ask op) R w := by
  rw [holds_ask]
  have hb : (w.push i (.call op)).st.busy = true := h.busy
  have hgood : Good (w.push i (.call op)) := by
    refine ⟨fun hf => ?_, ?_, h.refuses.push fun e hx => by cases hx⟩
    · rw [hb] at hf
      cases hf
    · rw [since_call, h.log]
      exact h.fine
  refine ⟨.inr hgood, fun w' hinv hg hrel a hlegal => ?_⟩
  have hlater : ∀ {l : List (TEntry digest)}, Bad l → (∀ e ∈ l, e ∈ w'.log) → Bad (w'.push i (.reply op a)).log :=
    fun hl hmem => hl.mono fun e he => List.mem_cons_of_mem _ (hmem e he)
  by_cases hinterrupt : a = .raised true
  · exact hbad _ _ (.inl ⟨_, List.mem_cons_self, op, by rw [hinterrupt]⟩)
  by_cases hmis : ∃ t, op = .gatewayPoll ∧ a = .result t ∧ named t = false
  · obtain ⟨t, rfl, rfl, ht⟩ := hmis
    exact hbad _ _ (.inr ⟨_, List.mem_cons_self, t, rfl, ht⟩)
  rcases hinv with hinv | hinv
  · exact hbad _ _ (hlater hinv fun e he => he)
  rcases hrel.2 with hrel | hrel
  · exact hbad _ _ (hlater hrel fun e he => he)
  obtain ⟨hslot, hsince⟩ := hrel.slot hb
  refine hR _ a ⟨?_, ?_, ?_, h.fine, hinv.refuses.push fun e hx => by cases hx⟩ ⟨hinterrupt, fun t ho ha => ?_, ?_, fun _ => hlegal⟩
  · show P w'.st.toSlot
    rw [hslot]
    exact h.slot
  · show w'.st.busy = true
    exact (congrArg Slot.busy hslot).trans hb
  · rw [since_reply, hsince, since_call, h.log]
  · by_contra hne
    exact hmis ⟨t, ho, ha, by simpa using hne⟩
  · rintro snapshot rfl rfl
    exact hlegal

/-- A callback, what it raises raised. -/
theorem ask_ends (h : At P n w) (op : Op) :
    Holds (progressContract digest b) ctx i (ask op) (Ends n (fun a s => P s ∧ Lawful (b := b) op a) P) w := by
  unfold ask
  rw [holds_bind]
  refine call_ends h (fun w' a h' ha => ?_) fun r w' hbad => ?_
  · have hok : At (fun s => P s ∧ Lawful (b := b) op a) n w' := h'.imp fun s hs => ⟨hs, ha⟩
    cases a with
    | raised interrupt =>
      cases interrupt with
      | true => exact absurd rfl ha.quiet
      | false => exact .inr ⟨by decide, h'⟩
    | gatewayError code => exact .inr ⟨by decide, h'⟩
    | _ => exact .inr hok
  · cases r with
    | ok a => exact bad_holds hbad fun _ _ h => .inl h
    | error e => exact .inl hbad

/-- A callback whose answer does not matter. -/
theorem ask_same (h : At P n w) (op : Op) :
    Holds (progressContract digest b) ctx i (ask op) (Ends n (fun _ => P) P) w :=
  (ask_ends h op).mono fun _ _ hr => hr.imp (fun _ _ hs => hs.1) fun _ hs => hs

theorem gap_ends (h : At P n w) :
    Holds (progressContract digest b) ctx i gap (Ends n (fun _ => P) E) w := by
  unfold gap
  rw [holds_bind]
  refine call_ends h (fun w' a h' _ => .inr h') fun r w' hbad => ?_
  cases r with
  | ok a => exact .inl hbad
  | error e => exact .inl hbad

/-- **A check** changes nothing. -/
theorem sample_ends (h : At P n w) :
    Holds (progressContract digest b) ctx i sample (Ends n (fun s => fun s' => P s' ∧ s.valid = true) P) w := by
  unfold sample
  refine ends_bind (ask_ends h .sample) fun a w' h' => ?_
  have h'' : At P n w' := h'.imp fun s hs => hs.1
  cases a with
  | snapshot s => exact .inr (h'.imp fun s' hs => ⟨hs.1, hs.2.valid s rfl rfl⟩)
  | _ => exact .inr ⟨by decide, h''⟩

theorem state_ends (h : At P n w) :
    Holds (progressContract digest b) ctx i state (Ends n (fun _ => P) P) w := by
  unfold state
  refine ends_bind (ask_ends h .state) fun a w' h' => ?_
  have h'' : At P n w' := h'.imp fun s hs => hs.1
  cases a with
  | status s => exact .inr h''
  | _ => exact .inr ⟨by decide, h''⟩

theorem judge_raises {d : TtsOutput} {current : AudioSnapshot} {active : Providers.Status digest} {e : Exc}
    (h : judge d current active = .error e) : e ≠ .interrupt := by
  rintro rfl
  unfold judge at h
  repeat' split at h
  all_goals cases h

theorem check_ends (h : At P n w) :
    Holds (progressContract digest b) ctx i check (Ends n (fun _ => P) P) w := by
  unfold check
  refine ends_bind ((sample_ends h).mono fun r w' hr => hr.imp (fun _ _ hs => hs.1) fun _ hs => hs) fun current w₁ h₁ => ?_
  refine ends_bind (state_ends h₁) fun active w₂ h₂ => ?_
  rw [holds_bind, holds_read]
  dsimp only
  cases hj : judge (id w₂.st) current active with
  | ok u => exact .inr h₂
  | error e => exact .inr ⟨judge_raises hj, h₂⟩

/-! ## The end of a call -/

variable {l : Limits}

/-- What is left of a call is that its completion can be made. -/
theorem Known.same {c' : Call} (h : Known l c) (hs : c'.snapshot = c.snapshot)
    (hc : (c'.completion .idle).valid = true) : Known l c' :=
  ⟨hs ▸ h.policy, h.limits, hs ▸ h.turn, hc⟩

/-- The failures of a result are those of a completion. -/
theorem Known.failed (h : Known l c) {failures : List Gateway.Failure} (hf : named (.failed failures) = true) :
    Known l { c with failures := failures } := by
  have hc := h.completion
  simp only [Call.completion, Completion.valid, named, Bool.and_eq_true] at hc hf
  refine h.same rfl ?_
  simp only [Call.completion, Completion.valid, Bool.and_eq_true]
  exact ⟨⟨hc.1.1, hf.1⟩, hf.2⟩

theorem Held.change {f : Call → Call} {d : TtsOutput} (h : Held l d.toSlot) (hf : ∀ c, Known l c → Known l (f c)) :
    Held l (d.change f).toSlot := by
  obtain ⟨c, hc, hk, ht⟩ := h
  exact ⟨f c, by show d.call.map f = some (f c); rw [hc]; rfl, hf c hk, ht⟩

/-- **A change of the call.** -/
theorem change_ends {f : Call → Call} {P' : Slot → Prop} (h : At P n w)
    (hf : ∀ d : TtsOutput, P d.toSlot → P' (d.change f).toSlot) :
    Holds (progressContract digest b) ctx i (change f) (Ends n (fun _ => P') E) w := by
  unfold change
  rw [holds_write]
  exact .inr (h.put h.busy (hf _ h.slot))

/-- The call is there. -/
theorem held_ends (h : At P n w) (hP : ∀ s, P s → Held l s) :
    Holds (progressContract digest b) ctx i held
      (Ends n (fun c s => P s ∧ s.call = some c ∧ Known l c) E) w := by
  obtain ⟨c, hc, hk, -⟩ := hP _ h.slot
  unfold held
  rw [holds_bind, holds_read]
  show Holds _ _ _ (expect .exception w.st.call) _ _
  rw [hc]
  exact .inr ⟨⟨h.slot, hc, hk⟩, h.busy, h.log, h.fine, h.refuses⟩

theorem proves_ends (h : At P n w) (op : Op) :
    Holds (progressContract digest b) ctx i (proves op) (Ends n (fun _ => P) E) w := by
  unfold proves
  refine ends_onException (C := P) ?_ fun w' h' => .inr h'
  exact ends_bind (ask_ends h op) fun a w' h' => .inr (h'.imp fun s hs => hs.1)

theorem letGo_ends (h : At P n w) (op : Option Op) (clean : Bool) :
    Holds (progressContract digest b) ctx i (letGo op clean) (Ends n (fun _ => P) E) w := by
  unfold letGo
  cases op with
  | none => exact .inr h
  | some op => exact ends_bind (proves_ends h op) fun a w' h' => .inr h'

theorem cancelGateway_ends (h : At (Held l) n w) :
    Holds (progressContract digest b) ctx i cancelGateway (Ends n (fun _ => Held l) E) w := by
  unfold cancelGateway
  refine ends_onException (C := Held l) ?_ fun w' h' => .inr h'
  refine ends_bind (ask_ends h .gatewayCancel) fun _ w₁ h₁ => ?_
  refine ends_bind (ask_ends (h₁.imp fun s hs => hs.1) .gatewayPoll) fun result w₂ h₂ => ?_
  have hresult : ∀ t, result = .result t → named t = true := fun t ht => h₂.slot.2.named t rfl ht
  refine ends_bind (ask_ends (h₂.imp fun s hs => hs.1) .gatewayProven) fun proven w₃ h₃ => ?_
  have hheld : At (Held l) n w₃ := h₃.imp fun s hs => hs.1
  cases result with
  | result t =>
    cases t with
    | failed failures =>
      -- the failures of the gateway are those that the completion reports
      refine ends_bind (change_ends hheld fun d hd => ?_) fun _ w₄ h₄ => .inr h₄
      exact hd.change fun c hk => hk.failed (hresult _ rfl)
    | _ => exact .inr hheld
  | _ => exact .inr hheld

/-- **The cleanup** keeps the call. -/
theorem cleanup_ends (h : At (Held l) n w) :
    Holds (progressContract digest b) ctx i cleanup (Ends n (fun _ => Held l) E) w := by
  unfold cleanup
  refine ends_bind (held_ends h fun s hs => hs) fun call w₁ h₁ => ?_
  have hheld : At (Held l) n w₁ := h₁.imp fun s hs => hs.1
  have hrest : ∀ {w₂ : TWorld digest} (clean : Bool), At (Held l) n w₂ →
      Holds (progressContract digest b) ctx i (do
        let clean ← letGo (call.player.map .cancel) clean
        let clean ← letGo (call.mix.map .restore) clean
        change fun c => { c with player := none, mix := none }
        pure clean) (Ends n (fun _ => Held l) E) w₂ := by
    intro w₂ clean h₂
    refine ends_bind (letGo_ends h₂ _ clean) fun clean₃ w₃ h₃ => ?_
    refine ends_bind (letGo_ends h₃ _ clean₃) fun clean₄ w₄ h₄ => ?_
    refine ends_bind (Q := fun _ => Held l) (change_ends h₄ fun d hd => hd.change fun c hk => hk.same rfl hk.completion)
      fun _ w₅ h₅ => .inr h₅
  dsimp only
  split
  · refine ends_bind (cancelGateway_ends hheld) fun proven w₂ h₂ => ?_
    refine ends_bind (Q := fun _ => Held l) (change_ends h₂ fun d hd => hd.change fun c hk => hk.same rfl hk.completion)
      fun _ w₃ h₃ => ?_
    exact hrest _ h₃
  · exact hrest _ hheld

theorem recheck_ends (code : Code) (h : At P n w) :
    Holds (progressContract digest b) ctx i (recheck code) (Ends n (fun _ => P) E) w := by
  unfold recheck
  rw [holds_catching, holds_bind]
  refine (check_ends h).mono fun r w' hr => ?_
  cases r with
  | ok u => exact hr.imp (fun _ _ hs => hs) fun _ hs => hs
  | error e =>
    rcases hr with hbad | ⟨he, h'⟩
    · cases e with
      | interrupt => exact .inl hbad
      | _ => exact .inl hbad
    · cases e with
      | interrupt => exact absurd rfl he
      | _ => exact .inr h'

theorem faultOwner_ends (h : At (Held l) n w) :
    Holds (progressContract digest b) ctx i faultOwner (Ends n (fun _ => Held l) E) w := by
  unfold faultOwner
  rw [holds_bind, holds_write]
  have hfault : At (Held l) n (w.put { w.st with fault := true }) := by
    obtain ⟨c, hc, hk, ht⟩ := h.slot
    exact h.put h.busy ⟨c, hc, hk, ht⟩
  refine ends_bind (gap_ends hfault) fun _ w₁ h₁ => ?_
  refine ends_bind (held_ends h₁ fun s hs => hs) fun call w₂ h₂ => ?_
  have hheld : At (Held l) n w₂ := h₂.imp fun s hs => hs.1
  obtain ⟨t, ht, hpos⟩ := h₂.slot.2.2.turn
  have hgeneration : call.generation = some t.generation := by
    unfold Call.generation
    rw [ht]
    rfl
  rw [hgeneration]
  show Holds _ _ _ (Prog.read TtsOutput.owner >>= _) _ _
  rw [holds_bind, holds_read]
  dsimp only
  split
  · rw [holds_write]
    exact .inr (hheld.put hheld.busy hheld.slot)
  · rename_i hvalue
    have hpositive : positive (some (t.generation : ℤ)) = some t.generation := by
      have hlt : (0 : ℤ) < t.generation := by omega
      show (if (0 : ℤ) < t.generation then some (Int.toNat t.generation) else none) = _
      rw [if_pos hlt, Int.toNat_natCast]
    unfold SessionOwner.release at hvalue
    rw [hpositive] at hvalue
    simp only at hvalue
    repeat' split at hvalue
    all_goals cases hvalue
  · exact .inr hheld

/-- **A call that is retired** ends in a completion that waits. -/
theorem retire_ends (code : Code) (h : At (Held l) n w) :
    Holds (progressContract digest b) ctx i (retire code) (Ends n (fun _ => Published) E) w := by
  unfold retire
  rw [holds_bind, holds_write]
  have hstopping : At (Held l) n (w.put { w.st with phase := .stopping }) := by
    obtain ⟨c, hc, hk, ht⟩ := h.slot
    exact h.put h.busy ⟨c, hc, hk, ht⟩
  refine ends_bind (cleanup_ends hstopping) fun clean w₁ h₁ => ?_
  refine ends_bind (recheck_ends code h₁) fun code₂ w₂ h₂ => ?_
  have hrest : ∀ {w₃ : TWorld digest}, At (Held l) n w₃ →
      Holds (progressContract digest b) ctx i (do
        let call ← held
        let completion ← expect .value (call.completion (if clean then code₂ else .cleanup)).make
        gap
        Prog.write fun d => d.publish { completion with code := finalCode d call clean completion.code }
        gap) (Ends n (fun _ => Published) E) w₃ := by
    intro w₃ h₃
    refine ends_bind (held_ends h₃ fun s hs => hs) fun call w₄ h₄ => ?_
    have hmake : (call.completion (if clean then code₂ else .cleanup)).make =
        some (call.completion (if clean then code₂ else .cleanup)) := if_pos h₄.slot.2.2.completion
    rw [hmake]
    have hheld : At (Held l) n w₄ := h₄.imp fun s hs => hs.1
    show Holds _ _ _ (gap >>= _) _ _
    refine ends_bind (gap_ends hheld) fun _ w₅ h₅ => ?_
    rw [holds_bind, holds_write]
    refine gap_ends (h₅.put (d := w₅.st.publish _) h₅.busy ⟨rfl, rfl, ?_⟩)
    show (if w₅.st.fault then Phase.faulted else .idle) ≠ .stopping
    split <;> decide
  cases clean with
  | true => exact hrest h₂
  | false => exact ends_bind (faultOwner_ends h₂) fun _ w₃ h₃ => hrest h₃

/-- **A failure under way** retires the call. -/
theorem stop_ends (code : Code) (h : At (Held l) n w) :
    Holds (progressContract digest b) ctx i (stopOrNotice code) (Ends n (fun _ => Published) E) w := by
  unfold stopOrNotice
  rw [holds_bind, holds_read]
  dsimp only
  have hcall : w.st.call.isSome = true := by
    obtain ⟨c, hc, -⟩ := h.slot
    show w.st.toSlot.call.isSome = true
    rw [hc]
    rfl
  rw [if_pos hcall]
  exact retire_ends code h

/-- What a start has come to, when it fails. -/
def Stops (s : Slot) : Prop := (∃ l, Held l s) ∨ Vacant s

/-- **A failure of a start** retires its call, or there is none yet. -/
theorem notice_ends (code : Code) (h : At Stops n w) :
    Holds (progressContract digest b) ctx i (stopOrNotice code) (Ends n (fun _ s => Published s ∨ Vacant s) E) w := by
  rcases h.slot with ⟨l, hheld⟩ | hvacant
  · have hat : At (Held l) n w := ⟨hheld, h.busy, h.log, h.fine, h.refuses⟩
    exact (stop_ends code hat).mono fun r w' hr => hr.imp (fun _ _ hs => .inl hs) fun _ hs => hs
  · unfold stopOrNotice
    rw [holds_bind, holds_read]
    dsimp only
    have hcall : ¬ w.st.call.isSome = true := by
      show ¬ w.st.toSlot.call.isSome = true
      rw [hvacant.call]
      decide
    rw [if_neg hcall, holds_write]
    exact .inr (h.put h.busy (.inr ⟨hvacant.call, hvacant.terminal, hvacant.phase⟩))

/-- **What is known where an operation is over.** -/
structure Over (P : Slot → Prop) (n : Since) (w : TWorld digest) : Prop where
  slot : P w.st.toSlot
  idle : w.st.busy = false
  log : since w.log = n
  fine : Fine n
  refuses : Refuses w.log

/-- **An operation under `_run`**: it ends as it does, or its failure is dealt with. It raises nothing. -/
theorem run_ends {operation : TM digest α} {refused : α} {R : Slot → Prop} (hb : w.st.busy = false)
    (h : At P n (w.put (w.st.occupy true)))
    (hop : ∀ w', At P n w' → Holds (progressContract digest b) ctx i operation (Ends n Q E) w')
    (hstop : ∀ code w', At E n w' → Holds (progressContract digest b) ctx i (stopOrNotice code) (Ends n (fun _ => R) fun _ => False) w')
    (hQ : ∀ a s, Q a s → Q a { s with busy := false }) (hR : ∀ s, R s → R { s with busy := false }) :
    Holds (progressContract digest b) ctx i (run operation refused)
      (fun r w' => Bad w'.log ∨ ∃ a, r = .ok a ∧ Over (fun s => Q a s ∨ a = refused ∧ R s) n w') w := by
  unfold run
  rw [holds_bind, holds_read]
  dsimp only
  rw [if_neg (by rw [hb]; decide), holds_bind, holds_write]
  dsimp only
  rw [holds_lastly, holds_catching]
  refine (hop _ h).mono fun r w' hr => ?_
  have hstopped : ∀ code, At E n w' → Holds (progressContract digest b) ctx i (do
      stopOrNotice code
      pure refused) (fun r w₁ => Holds (progressContract digest b) ctx i (Prog.write fun d => d.occupy false)
        (fun rc w₂ => match rc with
          | .ok _ => Bad w₂.log ∨ ∃ a, r = .ok a ∧ Over (fun s => Q a s ∨ a = refused ∧ R s) n w₂
          | .error e => Bad w₂.log ∨ ∃ a, (.error e : Except Exc α) = .ok a ∧ Over (fun s => Q a s ∨ a = refused ∧ R s) n w₂) w₁) w' := by
    intro code h'
    rw [holds_bind]
    refine (hstop code w' h').mono fun r₁ w₁ hr₁ => ?_
    cases r₁ with
    | ok u =>
      rcases hr₁ with hbad | h₁
      · exact .inl hbad
      · exact .inr ⟨refused, rfl, .inr ⟨rfl, hR _ h₁.slot⟩, rfl, h₁.log, h₁.fine, h₁.refuses⟩
    | error e =>
      rcases hr₁ with hbad | ⟨-, h₁⟩
      · exact .inl hbad
      · exact h₁.slot.elim
  rcases hr with hbad | hr
  · cases r with
    | ok a => exact .inl hbad
    | error e =>
      cases e with
      | interrupt => exact .inl hbad
      | _ => exact bad_holds hbad fun _ _ hbad' => .inl hbad'
  · cases r with
    | ok a =>
      have h' : At (Q a) n w' := hr
      exact .inr ⟨a, rfl, .inl (hQ _ _ h'.slot), rfl, h'.log, h'.fine, h'.refuses⟩
    | error e =>
      obtain ⟨he, h'⟩ := hr
      cases e with
      | interrupt => exact absurd rfl he
      | stop code => exact hstopped code h'
      | value => exact hstopped .unavailable h'
      | exception => exact hstopped .unavailable h'

/-! ## Polls -/

/-- A call, and something about it. -/
def Having (l : Limits) (R : Call → Prop) (s : Slot) : Prop := ∃ c, s.call = some c ∧ Known l c ∧ s.terminal = none ∧ R c

theorem Having.held {R : Call → Prop} (h : Having l R s) : Held l s := by
  obtain ⟨c, hc, hk, ht, -⟩ := h
  exact ⟨c, hc, hk, ht⟩

theorem Having.change {R R' : Call → Prop} {f : Call → Call} {d : TtsOutput} (h : Having l R d.toSlot)
    (hf : ∀ c, Known l c → R c → Known l (f c) ∧ R' (f c)) : Having l R' (d.change f).toSlot := by
  obtain ⟨c, hc, hk, ht, hr⟩ := h
  exact ⟨f c, by show d.call.map f = some (f c); rw [hc]; rfl, (hf c hk hr).1, ht, (hf c hk hr).2⟩

/-- Where a callback fails, the call is still there. -/
theorem ends_held {p : TM digest α} {R : Call → Prop}
    (h : Holds (progressContract digest b) ctx i p (Ends n Q (Having l R)) w) :
    Holds (progressContract digest b) ctx i p (Ends n Q (Held l)) w :=
  h.mono fun _ _ hr => hr.imp (fun _ _ hs => hs) fun _ hs => hs.held

/-- A handle from a factory. -/
theorem obtain_ends {factory : Op} {keep : Option ℕ → Call → Call} {R : Call → Prop} (h : At (Held l) n w)
    (hkeep : ∀ k c, Known l c → Known l (keep k c)) (hR : ∀ k c u, R { keep (some k) c with unknown := u }) :
    Holds (progressContract digest b) ctx i (obtain factory keep) (Ends n (fun _ => Having l R) (Held l)) w := by
  unfold obtain
  refine ends_bind (Q := fun _ => Held l) (change_ends h fun d hd => hd.change fun c hk => hk.same rfl hk.completion)
    fun _ w₁ h₁ => ?_
  refine ends_bind (ask_same h₁ factory) fun a w₂ h₂ => ?_
  have hnone : Holds (progressContract digest b) ctx i (do
      Tts.change (keep none)
      throw (.stop .cleanup) : TM digest ℕ) (Ends n (fun _ => Having l R) (Held l)) w₂ :=
    ends_bind (Q := fun _ => Held l) (change_ends h₂ fun d hd => hd.change fun c hk => hkeep none c hk)
      fun _ w₃ h₃ => .inr ⟨by decide, h₃⟩
  cases a with
  | handle k complete =>
    have hkept : Holds (progressContract digest b) ctx i (Tts.change (keep (some k)))
        (Ends n (fun _ => Having l fun c => ∃ c', c = keep (some k) c') (Held l)) w₂ := by
      refine change_ends h₂ fun d hd => ?_
      obtain ⟨c, hc, hk, ht⟩ := hd
      exact ⟨keep (some k) c, by show d.call.map _ = _; rw [hc]; rfl, hkeep _ c hk, ht, c, rfl⟩
    refine ends_bind hkept fun _ w₃ h₃ => ?_
    cases complete with
    | false => exact .inr ⟨by decide, h₃.imp fun s hs => hs.held⟩
    | true =>
      refine ends_bind (Q := fun _ => Having l R) (change_ends h₃ fun d hd => hd.change fun c hk hc => ?_)
        fun _ w₄ h₄ => .inr h₄
      obtain ⟨c', rfl⟩ := hc
      exact ⟨hk.same rfl hk.completion, hR k c' false⟩
  | _ => exact hnone

/-- What an operation of a poll leaves, of a call that has `m` polls left: a completion that waits, or the call with
fewer of them. -/
def Lesser (l : Limits) (m : ℕ) (s : Slot) : Prop := Published s ∨ ∃ c, Goes l s c ∧ left l s.phase c.polls + 1 ≤ m

/-- **The player is started**: the call has all the polls of its playback. -/
theorem play_ends (pcm : Gateway.Bytes) (h : At (Held l) n w) :
    Holds (progressContract digest b) ctx i (play pcm) (Ends n (fun _ => Lesser l (l.playbackPolls + 1)) (Held l)) w := by
  unfold play
  refine ends_bind (obtain_ends (R := fun _ => True) h (fun k c hk => hk.same rfl hk.completion) fun _ _ _ => trivial)
    fun mix w₁ h₁ => ?_
  refine ends_bind (check_ends (h₁.imp fun s hs => hs.held)) fun _ w₂ h₂ => ?_
  refine ends_bind (held_ends h₂ fun s hs => hs) fun call w₃ h₃ => ?_
  refine ends_bind (ask_same (h₃.imp fun s hs => hs.1) _) fun _ w₄ h₄ => ?_
  refine ends_bind (check_ends h₄) fun _ w₅ h₅ => ?_
  refine ends_bind (obtain_ends (R := fun c => c.player.isSome = true) h₅ (fun k c hk => hk.same rfl hk.completion)
    fun _ _ _ => rfl) fun player w₆ h₆ => ?_
  refine ends_bind (ends_held (check_ends h₆)) fun _ w₇ h₇ => ?_
  refine ends_bind (ends_held (ask_same h₇ _)) fun _ w₈ h₈ => ?_
  refine ends_bind (ends_held (check_ends h₈)) fun _ w₉ h₉ => ?_
  refine ends_bind (Q := fun _ => Having l fun c => c.player.isSome = true ∧ c.polls = 0) (change_ends h₉ fun d hd =>
    hd.change fun c hk hc => ⟨hk.same rfl hk.completion, hc, rfl⟩) fun _ w₁₀ h₁₀ => ?_
  rw [holds_write]
  refine .inr (h₁₀.put h₁₀.busy (.inr ?_))
  obtain ⟨c, hc, hk, ht, hp, h0⟩ := h₁₀.slot
  refine ⟨c, ⟨hc, hk, ht, .inr ⟨rfl, ?_, hp⟩⟩, ?_⟩
  · rw [h0]
    exact hk.limits.2
  · show l.playbackPolls - c.polls + 1 ≤ _
    omega

/-- **A result with audio** is played. -/
theorem received_ends {x : Gateway.Success} (hx : namedSuccess x = true) (h : At (Held l) n w) :
    Holds (progressContract digest b) ctx i (received x) (Ends n (fun _ => Lesser l (l.playbackPolls + 1)) (Held l)) w := by
  unfold received
  split
  · rename_i pcm _
    have hnamed : ∀ c, Known l c →
        Known l { c with providerId := some x.providerId, modelVersion := some x.modelVersion } := by
      intro c hk
      have hc := hk.completion
      simp only [namedSuccess, Bool.and_eq_true] at hx
      simp only [Call.completion, Completion.valid, Bool.and_eq_true] at hc
      refine hk.same rfl ?_
      simp only [Call.completion, Completion.valid, Bool.and_eq_true]
      exact ⟨⟨⟨⟨rfl, hx.1⟩, hx.2⟩, hc.1.2⟩, hc.2⟩
    refine ends_bind (Q := fun _ => Held l) (change_ends h fun d hd => hd.change hnamed) fun _ w₁ h₁ => ?_
    refine ends_bind (held_ends h₁ fun s hs => hs) fun call w₂ h₂ => ?_
    have hheld : At (Held l) n w₂ := h₂.imp fun s hs => hs.1
    split
    · exact .inr ⟨by decide, hheld⟩
    · exact ends_bind (check_ends hheld) fun _ w₃ h₃ => play_ends pcm h₃
  · exact .inr ⟨by decide, h⟩

/-- **A result of the gateway** is played, or the call fails. -/
theorem concluded_ends {t : Gateway.Terminal} (ht : named t = true) (h : At (Held l) n w) :
    Holds (progressContract digest b) ctx i (concluded t) (Ends n (fun _ => Lesser l (l.playbackPolls + 1)) (Held l)) w := by
  unfold concluded
  refine ends_bind (Q := fun _ => Held l) (change_ends h fun d hd => hd.change fun c hk => hk.same rfl hk.completion)
    fun _ w₁ h₁ => ?_
  refine ends_bind (ask_same h₁ .gatewayProven) fun proven w₂ h₂ => ?_
  refine ends_bind (Q := fun _ => Held l) (change_ends h₂ fun d hd => hd.change fun c hk => hk.same rfl hk.completion)
    fun _ w₃ h₃ => ?_
  cases t with
  | failed failures =>
    refine ends_bind (Q := fun _ => Held l) (change_ends h₃ fun d hd => hd.change fun c hk => hk.failed ht)
      fun _ w₄ h₄ => ?_
    cases failures.getLast? with
    | none => exact .inr ⟨by decide, h₄⟩
    | some last => exact .inr ⟨fun he => (by cases he), h₄⟩
  | degraded x primary =>
    simp only [named, Bool.and_eq_true] at ht
    have hprimary : named (.failed [primary]) = true := by
      simp only [named, List.all_cons, List.all_nil, Bool.and_true, Bool.and_eq_true]
      exact ⟨rfl, ht.2⟩
    refine ends_bind (Q := fun _ => Held l) (change_ends h₃ fun d hd => hd.change fun c hk => ?_) fun _ w₄ h₄ => ?_
    · exact (hk.failed hprimary).same rfl (hk.failed hprimary).completion
    · exact received_ends ht.1 h₄
  | success x => exact received_ends ht h₃

/-- **A poll of the gateway**, of a call that has `m` polls left. -/
theorem synthesize_ends {m : ℕ} (h : At (fun s => s.phase = .synthesizing ∧
      Having l (fun c => 0 < c.polls ∧ c.polls ≤ l.synthesisPolls ∧ m + c.polls = l.synthesisPolls + l.playbackPolls + 1) s) n w) :
    Holds (progressContract digest b) ctx i synthesize (Ends n (fun _ => Lesser l m) (Held l)) w := by
  obtain ⟨c, hc, hk, ht, hpos, hle, hm⟩ := h.slot.2
  unfold synthesize
  refine ends_bind ((ask_ends h .gatewayPoll).mono fun r w' hr => hr.imp (fun _ _ hs => hs) fun _ hs => hs.2.held)
    fun a w₁ h₁ => ?_
  have hheld : At (Held l) n w₁ := h₁.imp fun s hs => hs.1.2.held
  have hwait : Holds (progressContract digest b) ctx i (do
      check
      let call ← held
      let p ← expect .exception call.snapshot.policy
      if p.limits.synthesisPolls ≤ call.polls then throw (.stop .limit)) (Ends n (fun _ => Lesser l m) (Held l)) w₁ := by
    refine ends_bind ((check_ends (h₁.imp fun s hs => hs.1)).mono fun r w' hr => hr.imp (fun _ _ hs => hs)
      fun _ hs => hs.2.held) fun _ w₂ h₂ => ?_
    refine ends_bind (held_ends h₂ fun s hs => hs.2.held) fun call w₃ h₃ => ?_
    obtain ⟨hphase, hhaving⟩ := h₃.slot.1
    obtain ⟨c', hc', hk', ht', hpos', hle', hm'⟩ := hhaving
    obtain rfl : c' = call := Option.some.inj (hc'.symm.trans h₃.slot.2.1)
    obtain ⟨p, hp, hlimits⟩ := hk'.policy
    rw [hp]
    show Holds _ _ _ (if p.limits.synthesisPolls ≤ c'.polls then throw (Exc.stop .limit) else pure ()) _ _
    rw [hlimits]
    have hheld₃ : At (Held l) n w₃ := h₃.imp fun s hs => hs.1.2.held
    split
    · exact .inr ⟨by decide, hheld₃⟩
    · rename_i hlt
      refine .inr ⟨.inr ⟨c', ⟨hc', hk', ht', .inl ⟨hphase, by omega⟩⟩, ?_⟩, h₃.busy, h₃.log, h₃.fine, h₃.refuses⟩
      rw [hphase]
      show l.synthesisPolls - c'.polls + l.playbackPolls + 1 ≤ m
      omega
  cases a with
  | result t =>
    refine (concluded_ends (h₁.slot.2.named t rfl rfl) hheld).mono fun r w' hr => hr.imp (fun _ s hs => ?_) fun _ hs => hs
    rcases hs with hs | ⟨c', hg, hleft⟩
    · exact .inl hs
    · exact .inr ⟨c', hg, by omega⟩
  | _ => exact hwait

/-- **A poll of the player**, of a call that has `m` polls left. -/
theorem playback_ends {m : ℕ} (h : At (fun s => s.phase = .playing ∧
      Having l (fun c => 0 < c.polls ∧ c.polls ≤ l.playbackPolls ∧ m + c.polls = l.playbackPolls + 1 ∧
        c.player.isSome = true) s) n w) :
    Holds (progressContract digest b) ctx i playback (Ends n (fun _ => Lesser l m) (Held l)) w := by
  unfold playback
  refine ends_bind (held_ends h fun s hs => hs.2.held) fun call w₁ h₁ => ?_
  obtain ⟨-, c, hc, -, -, -, -, -, hplayer⟩ := h₁.slot.1
  obtain rfl : c = call := Option.some.inj (hc.symm.trans h₁.slot.2.1)
  obtain ⟨player, hp⟩ := Option.isSome_iff_exists.1 hplayer
  rw [hp]
  show Holds _ _ _ (ask (.poll player) >>= _) _ _
  refine ends_bind ((ask_same (h₁.imp fun s hs => hs.1) _).mono fun r w' hr => hr.imp (fun _ _ hs => hs)
    fun _ hs => hs.2.held) fun a w₂ h₂ => ?_
  refine ends_bind ((check_ends h₂).mono fun r w' hr => hr.imp (fun _ _ hs => hs) fun _ hs => hs.2.held) fun _ w₃ h₃ => ?_
  refine ends_bind (held_ends h₃ fun s hs => hs.2.held) fun call w₄ h₄ => ?_
  obtain ⟨hphase, hhaving⟩ := h₄.slot.1
  obtain ⟨c', hc', hk', ht', hpos, hle, hm, hplayer'⟩ := hhaving
  obtain rfl : c' = call := Option.some.inj (hc'.symm.trans h₄.slot.2.1)
  obtain ⟨p, hp', hlimits⟩ := hk'.policy
  rw [hp']
  have hheld : At (Held l) n w₄ := h₄.imp fun s hs => hs.1.2.held
  show Holds _ _ _ (pure p >>= _) _ _
  rw [holds_bind, holds_pure]
  dsimp only
  rw [hlimits]
  split
  · exact (retire_ends c'.success hheld).mono fun r w' hr => hr.imp (fun _ _ hs => .inl hs) fun _ hs => hs
  · split
    · exact .inr ⟨by decide, hheld⟩
    · rename_i hlt
      refine .inr ⟨.inr ⟨c', ⟨hc', hk', ht', .inr ⟨hphase, by omega, hplayer'⟩⟩, ?_⟩, h₄.busy, h₄.log, h₄.fine, h₄.refuses⟩
      rw [hphase]
      show l.playbackPolls - c'.polls + 1 ≤ m
      omega
  · exact .inr ⟨by decide, hheld⟩

/-- **A poll**, of a call in progress. -/
theorem advance_ends {phase : Phase} {polls : ℕ}
    (h : At (fun s => s.phase = phase ∧ ∃ c, Goes l s c ∧ c.polls = polls) n w) :
    Holds (progressContract digest b) ctx i advance (Ends n (fun _ => Lesser l (left l phase polls)) (Held l)) w := by
  have hcall : ∀ {w' : TWorld digest}, At (fun s => s.phase = phase ∧ ∃ c, Goes l s c ∧ c.polls = polls) n w' →
      At (Held l) n w' := fun h' => h'.imp fun s ⟨_, c, hg, _⟩ => ⟨c, hg.call, hg.known, hg.terminal⟩
  unfold advance
  rw [holds_bind, holds_read]
  dsimp only
  have hsome : ¬ w.st.call.isNone = true := by
    obtain ⟨-, c, hg, -⟩ := h.slot
    show ¬ w.st.toSlot.call.isNone = true
    rw [hg.call]
    exact fun hnone => by cases hnone
  rw [if_neg hsome]
  refine ends_bind ((check_ends h).mono fun r w' hr => hr.imp (fun _ _ hs => hs)
    fun _ ⟨_, c, hg, _⟩ => ⟨c, hg.call, hg.known, hg.terminal⟩) fun _ w₁ h₁ => ?_
  obtain ⟨hphase, c, hg, hpolls⟩ := h₁.slot
  have hchanged : (w₁.st.change fun c => { c with polls := c.polls + 1 }).call = some { c with polls := c.polls + 1 } := by
    show w₁.st.toSlot.call.map _ = _
    rw [hg.call]
    rfl
  have hk : Known l { c with polls := c.polls + 1 } := hg.known.same rfl hg.known.completion
  unfold change
  rw [holds_bind, holds_write]
  dsimp only
  rw [holds_bind, holds_read]
  dsimp only
  -- a call in progress is at the gateway or at the player
  rcases hg.phase with ⟨hp, hlt⟩ | ⟨hp, hlt, hplayer⟩
  · rw [show (w₁.put (w₁.st.change fun c => { c with polls := c.polls + 1 })).st.phase = .synthesizing from hp]
    refine synthesize_ends (h₁.put h₁.busy ⟨hp, _, hchanged, hk, hg.terminal, ?_⟩)
    rw [← hphase, hp, ← hpolls]
    simp only [left]
    omega
  · rw [show (w₁.put (w₁.st.change fun c => { c with polls := c.polls + 1 })).st.phase = .playing from hp]
    refine playback_ends (h₁.put h₁.busy ⟨hp, _, hchanged, hk, hg.terminal, ?_⟩)
    rw [← hphase, hp, ← hpolls]
    simp only [left]
    refine ⟨by omega, by omega, by omega, hplayer⟩

/-! ## Starts -/

/-- A call that is accepted. -/
def Accepted (accepted : Bool) (s : Slot) : Prop :=
  if accepted then ∃ l c, Goes l s c ∧ c.polls = 0 ∧ s.phase = .synthesizing else Published s ∨ Vacant s

/-- A call that is new. -/
structure Fresh (l : Limits) (s : Slot) : Prop where
  call : Having l (fun c => c.polls = 0) s
  phase : s.phase ≠ .stopping

theorem Fresh.stops (h : Fresh l s) : Stops s := .inl ⟨l, h.call.held⟩

/-- **A start** ends with a call that has all its polls, or in a failure. -/
theorem starting_ends {u : Utterance} (h : At Vacant n w) :
    Holds (progressContract digest b) ctx i (starting b u) (Ends n Accepted Stops) w := by
  unfold starting
  rw [holds_bind, holds_read]
  dsimp only
  refine ends_bind ((sample_ends h).mono fun r w' hr => hr.imp (fun _ _ hs => hs) fun _ hs => .inr hs)
    fun snapshot w₁ h₁ => ?_
  refine ends_bind ((state_ends h₁).mono fun r w' hr => hr.imp (fun _ _ hs => hs) fun _ hs => .inr hs.1)
    fun active w₂ h₂ => ?_
  cases hadmit : admission b u snapshot active with
  | error code =>
    dsimp only
    rw [holds_bind, holds_write]
    refine .inr (h₂.put h₂.busy (.inr ?_))
    exact ⟨h₂.slot.1.call, h₂.slot.1.terminal, h₂.slot.1.phase⟩
  | ok ready =>
    dsimp only
    rw [holds_bind, holds_read]
    dsimp only
    split
    · exact .inr ⟨by decide, h₂.imp fun s hs => .inr hs.1⟩
    obtain ⟨hturn, p, hp⟩ := admission_spec hadmit
    have hvalid := h₂.slot.2
    simp only [AudioSnapshot.valid, hturn, hp, Option.all_some, AudioPolicy.valid, Limits.valid, Conversation.number,
      Conversation.TurnToken.valid, Bool.and_eq_true, List.all_cons, decide_eq_true_eq] at hvalid
    have hknown : Known p.limits (.new snapshot ready w.st.epoch) := by
      refine ⟨⟨p, hp, rfl⟩, ⟨?_, ?_⟩, ⟨u.token, hturn, ?_⟩, rfl⟩
      · exact hvalid.2.1.1.1.1.1.1.2.1.2.1
      · exact hvalid.2.1.1.1.1.1.1.2.2.1
      · exact hvalid.1.2.2.2.1.1
    have hfresh : At (Fresh p.limits) n (w₂.put (w₂.st.hold (some (.new snapshot ready w.st.epoch)))) :=
      h₂.put h₂.busy ⟨⟨_, rfl, hknown, h₂.slot.1.terminal, rfl⟩, h₂.slot.1.phase⟩
    rw [holds_bind, holds_write]
    dsimp only
    refine ends_bind ((check_ends hfresh).mono fun r w' hr => hr.imp (fun _ _ hs => hs) fun _ hs => hs.stops)
      fun _ w₃ h₃ => ?_
    rw [holds_bind]
    refine call_ends h₃ (fun w₄ a h₄ ha => ?_) fun r w₄ hbad => ?_
    · have hstops : At Stops n w₄ := h₄.imp fun s hs => hs.stops
      have haccepted : Holds (progressContract digest b) ctx i (do
          change fun c => { c with gatewayOwned := true }
          Prog.write fun d => d.present .synthesizing .started
          check
          pure true) (Ends n Accepted Stops) w₄ := by
        refine ends_bind (Q := fun _ => Having p.limits fun c => c.polls = 0) (change_ends h₄ fun d hd =>
          hd.call.change fun c hk hc => ⟨hk.same rfl hk.completion, hc⟩) fun _ w₅ h₅ => ?_
        rw [holds_bind, holds_write]
        dsimp only
        have hgoes : At (Accepted true) n (w₅.put (w₅.st.present .synthesizing .started)) := by
          obtain ⟨c, hc, hk, ht, h0⟩ := h₅.slot
          refine h₅.put h₅.busy ⟨p.limits, c, ⟨hc, hk, ht, .inl ⟨rfl, ?_⟩⟩, h0, rfl⟩
          rw [h0]
          exact hk.limits.1
        refine ends_bind ((check_ends hgoes).mono fun r w' hr => hr.imp (fun _ _ hs => hs)
          fun _ ⟨l, c, hg, _⟩ => .inl ⟨l, c, hg.call, hg.known, hg.terminal⟩) fun _ w₆ h₆ => .inr h₆
      cases a with
      | raised interrupt =>
        cases interrupt with
        | true => exact absurd rfl ha.quiet
        | false => exact .inr ⟨by decide, hstops⟩
      | gatewayError code =>
        dsimp only
        rw [holds_bind, holds_write]
        refine .inr (h₄.put h₄.busy (.inr ⟨rfl, ?_, h₄.slot.phase⟩))
        obtain ⟨c, -, -, ht, -⟩ := h₄.slot.call
        exact ht
      | _ => exact haccepted
    · cases r with
      | ok a => exact bad_holds hbad fun _ _ h => .inl h
      | error e => exact .inl hbad

/-! ## Methods -/

/-- What a method leaves. -/
def Comes (w : TWorld digest) (i : ℕ) (r : Except Exc Value) (w' : TWorld digest) : Prop :=
  Bad w'.log ∨ Good (w'.push i (.ret r)) ∧ Nests w (w'.push i (.ret r))

/-- A return that tells nothing about a call. -/
def plain : Except Exc Value → Bool
  | .ok (.started true) => false
  | .ok (.completion _) => false
  | _ => true

theorem since_plain {r : Except Exc Value} (h : plain r = true) : since (w.push i (.ret r)).log = since w.log := by
  cases r with
  | error e => rfl
  | ok v =>
    cases v with
    | started accepted =>
      cases accepted with
      | true => cases h
      | false => rfl
    | completion r => cases h
    | none => rfl

/-- A call of a method that begins nothing. -/
theorem since_enter {m : Method} (h : ∀ u, m = .start (some u) → w.st.toSlot.open = false) :
    since (w.enter m).log = since w.log := by
  cases m with
  | start u =>
    cases u with
    | none => rfl
    | some u =>
      show (if w.st.toSlot.open then _ else _) = _
      rw [h u rfl]
      rfl
  | _ => rfl

/-- **What leaves the call as it is.** -/
theorem Good.same {v : Value} {m : Method} (h : Good w) (hslot : w'.st.toSlot = w.st.toSlot)
    (hlog : w'.log = (w.enter m).log) (hm : ∀ u, m = .start (some u) → w.st.toSlot.open = false)
    (hv : since (w'.push i (.ret (.ok v))).log = since w'.log) : Comes w i (.ok v) w' := by
  have hsince : since (w'.push i (.ret (.ok v))).log = since w.log := by
    rw [hv, hlog, since_enter hm]
  have hbusy : w'.st.busy = w.st.busy := congrArg Slot.busy hslot
  refine .inr ⟨⟨fun hb => ?_, ?_, ?_⟩, fun hb => hbusy.trans hb, fun _ => ⟨hslot, hsince⟩⟩
  · rw [hsince]
    show Rest w'.st.toSlot (since w.log)
    rw [hslot]
    exact h.rest (hbusy.symm.trans hb)
  · rw [hsince]
    exact h.fine
  · refine Refuses.push ?_ fun e he => by cases he
    rw [hlog]
    exact h.refuses.push fun e he => by cases he

/-- **An operation that is over** leaves what it comes to. -/
theorem Over.leaves {R : Slot → Prop} {v : Value} (h : Over R n w') (hw : w.st.busy = false)
    (hrest : ∀ s, R s → Rest s (since (w'.push i (.ret (.ok v))).log)) (hfine : Fine (since (w'.push i (.ret (.ok v))).log)) :
    Comes w i (.ok v) w' := by
  refine .inr ⟨⟨fun _ => hrest _ h.slot, hfine, h.refuses.push fun e he => by cases he⟩, fun _ => h.idle, fun hb => ?_⟩
  rw [hw] at hb
  cases hb

/-- What is known where a method begins. -/
theorem Good.begin {m : Method} (h : Good w) (hm : ∀ u, m = .start (some u) → w.st.toSlot.open = false) {R : Slot → Prop}
    (hR : R { w.st.toSlot with busy := true }) : At R (since w.log) ((w.enter m).put ((w.enter m).st.occupy true)) :=
  ⟨hR, rfl, since_enter hm, h.fine, h.refuses.push fun e he => by cases he⟩

/-- Without a call, a poll does nothing. -/
theorem advance_idle (h : At P n w) (hP : ∀ s, P s → s.call = none) :
    Holds (progressContract digest b) ctx i advance (Ends n (fun _ => P) fun _ => False) w := by
  unfold advance
  rw [holds_bind, holds_read]
  dsimp only
  have hnone : w.st.call.isNone = true := by
    show w.st.toSlot.call.isNone = true
    rw [hP _ h.slot]
    rfl
  rw [if_pos hnone]
  exact .inr h

theorem Published.idle (h : Published s) (busy : Bool) : Published { s with busy := busy } := ⟨h.call, h.terminal, h.phase⟩

theorem Vacant.idle (h : Vacant s) (busy : Bool) : Vacant { s with busy := busy } := ⟨h.call, h.terminal, h.phase⟩

theorem Goes.idle (h : Goes l s c) (busy : Bool) : Goes l { s with busy := busy } c := ⟨h.call, h.known, h.terminal, h.phase⟩

/-- What a poll hands out, and what it leaves. -/
structure Hands (n : Since) (s : Slot) : Prop where
  rest : Rest { s with terminal := none } ⟨n.accepted, n.polls + 1, s.terminal.toList ++ n.delivered⟩
  fine : Fine ⟨n.accepted, n.polls + 1, s.terminal.toList ++ n.delivered⟩

theorem Published.hands (h : Published s) (hd : n.delivered = []) : Hands n s := by
  obtain ⟨completion, hterminal⟩ := Option.isSome_iff_exists.1 h.terminal
  have hone : s.terminal.toList ++ n.delivered = [completion] := by rw [hterminal, hd]; rfl
  refine ⟨.vacant ⟨h.call, rfl, h.phase⟩ ?_ fun l hl => ?_, ?_, fun l hl hempty => ?_⟩
  · rw [hone]
    exact le_rfl
  · rw [hone]
    rfl
  · rw [hone]
    exact le_rfl
  · rw [hone] at hempty
    cases hempty

theorem Vacant.hands (h : Vacant s) (hd : n.delivered.length ≤ 1) (ha : ∀ k, n.accepted = some k → n.delivered.length = 1) :
    Hands n s := by
  have hsame : s.terminal.toList ++ n.delivered = n.delivered := by rw [h.terminal]; rfl
  refine ⟨.vacant ⟨h.call, rfl, h.phase⟩ ?_ fun l hl => ?_, ?_, fun l hl hempty => ?_⟩
  · rw [hsame]
    exact hd
  · rw [hsame]
    exact ha l hl
  · rw [hsame]
    exact hd
  · rw [hsame] at hempty
    have hlength := ha l hl
    rw [hempty] at hlength
    cases hlength

/-- A call that goes on has taken one of its polls. -/
theorem Goes.hands {m : ℕ} (h : Goes l s c) (ha : n.accepted = some l.total) (hd : n.delivered = [])
    (hn : n.polls + m ≤ l.total) (hleft : left l s.phase c.polls + 1 ≤ m) : Hands n s := by
  have hempty : s.terminal.toList ++ n.delivered = [] := by rw [h.terminal, hd]; rfl
  refine ⟨.goes l c ⟨h.call, h.known, rfl, h.phase⟩ ha hempty ?_, ?_, fun k hk _ => ?_⟩
  · show n.polls + 1 + left l s.phase c.polls ≤ l.total
    omega
  · rw [hempty]
    exact Nat.zero_le _
  · have htotal : l.total = k := Option.some.inj (ha.symm.trans hk)
    show n.polls + 1 ≤ k
    omega

/-- **A poll hands out what its operation leaves.** -/
theorem poll_hands {R : Slot → Prop} (hb : w.st.busy = false)
    (hrun : Holds (progressContract digest b) ctx w.next (run advance ())
      (fun r w' => Bad w'.log ∨ ∃ u, r = .ok u ∧ Over R (since w.log) w') (w.enter .poll))
    (hR : ∀ s, R s → Hands (since w.log) s) :
    Holds (progressContract digest b) ctx w.next (body b .poll) (Comes w w.next) (w.enter .poll) := by
  show Holds _ _ _ (poll >>= fun c => pure (Value.completion c)) _ _
  unfold poll
  rw [holds_bind, holds_bind, holds_read]
  dsimp only
  rw [if_neg (by rw [World.enter_st, hb]; decide), holds_bind]
  refine hrun.mono fun r w' hr => ?_
  rcases hr with hbad | ⟨u, rfl, hover⟩
  · cases r with
    | ok u => exact .inl hbad
    | error e => exact .inl hbad
  obtain ⟨hrest, hfine⟩ := hR _ hover.slot
  have hsince : since ((w'.put { w'.st with terminal := none }).push w.next (.ret (.ok (.completion w'.st.terminal)))).log =
      ⟨(since w.log).accepted, (since w.log).polls + 1, w'.st.terminal.toList ++ (since w.log).delivered⟩ := by
    show (⟨(since w'.log).accepted, if w'.st.busy = true then _ else (since w'.log).polls + 1,
      w'.st.terminal.toList ++ (since w'.log).delivered⟩ : Since) = _
    rw [if_neg (by rw [hover.idle]; decide), hover.log]
  have hover' : Over (fun s => s = { w'.st.toSlot with terminal := none }) (since w.log)
      (w'.put { w'.st with terminal := none }) := ⟨rfl, hover.idle, hover.log, hover.fine, hover.refuses⟩
  refine hover'.leaves hb (fun s hs => ?_) ?_
  · rw [hs, hsince]
    exact hrest
  · rw [hsince]
    exact hfine

/-- What `_run` leaves, of an operation that ends as it does or as its failure does. -/
theorem Over.any {r : Except Exc α} {refused : α} {R C : Slot → Prop}
    (h : Bad w.log ∨ ∃ a, r = .ok a ∧ Over (fun s => Q a s ∨ a = refused ∧ R s) n w)
    (hQ : ∀ a s, Q a s → C s) (hR : ∀ s, R s → C s) : Bad w.log ∨ ∃ a, r = .ok a ∧ Over C n w := by
  refine h.imp_right fun ⟨a, hr, hover⟩ => ⟨a, hr, ?_, hover.idle, hover.log, hover.fine, hover.refuses⟩
  rcases hover.slot with hs | ⟨-, hs⟩
  · exact hQ a _ hs
  · exact hR _ hs

/-- **`poll`** hands out what waits; a call that has nothing yet takes one of its polls. -/
theorem poll_leaves (h : Good w) :
    Holds (progressContract digest b) ctx w.next (body b .poll) (Comes w w.next) (w.enter .poll) := by
  have hm : ∀ u, Method.poll = .start (some u) → w.st.toSlot.open = false := fun u hu => by cases hu
  cases hb : w.st.busy with
  | true =>
    show Holds _ _ _ (poll >>= fun c => pure (Value.completion c)) _ _
    unfold poll
    rw [holds_bind, holds_bind, holds_read]
    dsimp only
    rw [if_pos (show (w.enter Method.poll).st.busy = true from hb)]
    refine h.same rfl rfl hm ?_
    show (⟨_, if w.st.busy = true then _ else _, _⟩ : Since) = _
    rw [if_pos hb]
    rfl
  | false =>
    have hidle : (w.enter Method.poll).st.busy = false := hb
    -- a poll where there is no call leaves everything as it is
    have hnothing : ∀ {R : Slot → Prop}, R { w.st.toSlot with busy := true } → (∀ s, R s → s.call = none) →
        (∀ s, R s → R { s with busy := false }) → (∀ s, R s → Hands (since w.log) s) →
        Holds (progressContract digest b) ctx w.next (body b .poll) (Comes w w.next) (w.enter .poll) := by
      intro R hs hcall hoff hhands
      refine poll_hands hb ((run_ends (E := fun _ => False) (Q := fun _ => R) (R := fun _ => False) hidle (h.begin hm hs)
        (fun w' h' => advance_idle h' hcall) (fun code w' h' => h'.slot.elim) (fun _ => hoff) fun s hs => hs).mono
        fun r w' hr => ?_) hhands
      exact Over.any (Q := fun _ => R) hr (fun _ _ hs => hs) fun _ hs => hs.elim
    rcases h.rest hb with ⟨l, c, hs, ha, hd, hn⟩ | ⟨hs, hd, hn⟩ | ⟨hs, hd, ha⟩
    · refine poll_hands (R := Lesser l (left l w.st.phase c.polls)) hb ((run_ends (E := Held l)
        (Q := fun _ => Lesser l (left l w.st.phase c.polls)) (R := Published) hidle
        (h.begin (R := fun s => s.phase = w.st.phase ∧ ∃ c', Goes l s c' ∧ c'.polls = c.polls) hm ⟨rfl, c, hs.idle true, rfl⟩)
        (fun w' h' => advance_ends h') (fun code w' h' => stop_ends code h') (fun _ s hs => ?_) fun s hs => hs.idle false).mono
        fun r w' hr => Over.any (Q := fun _ => Lesser l (left l w.st.phase c.polls)) hr (fun _ _ hs => hs) fun _ hs => .inl hs)
        fun s hs => ?_
      · rcases hs with hs | ⟨c', hg, hleft⟩
        · exact .inl (hs.idle false)
        · exact .inr ⟨c', hg.idle false, hleft⟩
      · rcases hs with hs | ⟨c', hg, hleft⟩
        · exact hs.hands hd
        · exact hg.hands ha hd hn hleft
    · exact hnothing (hs.idle true) (fun s hs => hs.call) (fun s hs => hs.idle false) fun s hs => hs.hands hd
    · exact hnothing (hs.idle true) (fun s hs => hs.call) (fun s hs => hs.idle false) fun s hs => hs.hands hd ha

/-- **`cancel`**, once it has the lock, retires the call; its completion waits. -/
theorem finish_leaves {m : Method} (h : Good w) (hm : ∀ u, m ≠ .start u) {f : TtsOutput → TtsOutput}
    (hf : ∀ d, (f d).toSlot = d.toSlot) :
    Holds (progressContract digest b) ctx w.next (silent (do
      Prog.write f
      finish)) (Comes w w.next) (w.enter m) := by
  unfold silent finish
  rw [holds_bind, holds_bind, holds_write]
  dsimp only
  rw [holds_bind, holds_read]
  dsimp only
  have hslot : (f w.st).toSlot = w.st.toSlot := hf w.st
  have hbusy : (f w.st).busy = w.st.busy := congrArg Slot.busy hslot
  have hcall : (f w.st).call = w.st.call := congrArg Slot.call hslot
  split
  · rename_i hcancel
    simp only [id, World.put_st, World.enter_st, Bool.and_eq_true, Bool.not_eq_true', hbusy, hcall] at hcancel
    rcases h.rest hcancel.2 with ⟨l, c, hs, ha, hd, hn⟩ | ⟨hs, -, -⟩ | ⟨hs, -, -⟩
    · have hbegin : At (Held l) (since w.log) (((w.enter m).put (f w.st)).put ((f w.st).occupy true)) := by
        refine ⟨⟨c, ?_, hs.known, ?_⟩, rfl, since_enter fun u hu => absurd hu (hm _), h.fine, h.refuses.push fun e he => by cases he⟩
        · show (f w.st).call = some c
          rw [hcall]
          exact hs.call
        · show (f w.st).toSlot.terminal = none
          rw [hslot]
          exact hs.terminal
      refine (run_ends (E := fun _ => False) (Q := fun _ => Published) (R := fun _ => False) (hbusy.trans hcancel.2) hbegin
        (fun w' h' => retire_ends .canceled h') (fun code w' h' => h'.slot.elim) (fun _ s hs => hs.idle false)
        fun s hs => hs).mono fun r w' hr => ?_
      rcases Over.any (Q := fun _ => Published) (C := Published) hr (fun _ _ hs => hs) fun _ hs => hs.elim with
        hbad | ⟨u, rfl, hover⟩
      · cases r with
        | ok u => exact .inl hbad
        | error e => exact .inl hbad
      · have hsince : since (w'.push w.next (.ret (.ok Value.none))).log = since w.log := hover.log
        refine hover.leaves hcancel.2 (fun s hs => ?_) ?_
        · rw [hsince]
          refine .published hs hd fun k hk => ?_
          have htotal : l.total = k := Option.some.inj (ha.symm.trans hk)
          omega
        · rw [hsince]
          exact h.fine
    · rw [show w.st.call = none from hs.call] at hcancel
      exact absurd hcancel.1 (by decide)
    · rw [show w.st.call = none from hs.call] at hcancel
      exact absurd hcancel.1 (by decide)
  · exact h.same hslot rfl (fun u hu => absurd hu (hm _)) rfl

/-- What is no call of the operations leaves the call as it is. -/
theorem calm_leaves {m : Method} (h : Good w) (hm : ∀ u, m ≠ .start u) {f : TtsOutput → TtsOutput}
    (hf : ∀ d, (f d).toSlot = d.toSlot) :
    Holds (progressContract digest b) ctx w.next (silent (Prog.write f)) (Comes w w.next) (w.enter m) := by
  unfold silent
  rw [holds_bind, holds_write]
  exact h.same (hf w.st) rfl (fun u hu => absurd hu (hm _)) rfl

/-- A client of the owner does nothing to the call. -/
theorem client_slot (m : Method) (d : TtsOutput) : (client m d).toSlot = d.toSlot := by
  unfold client
  split
  · split <;> rfl
  · split <;> rfl
  · split <;> rfl
  · rfl

/-- **`start`** takes what is an utterance, where there is no call and nothing to hand out. -/
theorem start_leaves (h : Good w) (u : Option Utterance) :
    Holds (progressContract digest b) ctx w.next (body b (.start u)) (Comes w w.next) (w.enter (.start u)) := by
  show Holds _ _ _ (start b u >>= fun r => pure (Value.started r)) _ _
  unfold start
  rw [holds_bind]
  cases u with
  | none =>
    refine .inr ⟨⟨fun hb => h.rest hb, h.fine, fun e he x hx => ?_⟩, fun hb => hb, fun _ => ⟨rfl, rfl⟩⟩
    rcases List.mem_cons.1 he with rfl | he
    · cases hx
      exact ⟨rfl, _, List.mem_cons_of_mem _ List.mem_cons_self, rfl, rfl⟩
    · exact (h.refuses.push fun e he => by cases he) e he x hx |>.imp id fun ⟨m, hm, hf⟩ => ⟨m, List.mem_cons_of_mem _ hm, hf⟩
  | some u =>
    dsimp only
    rw [holds_bind, holds_read]
    dsimp only
    split
    · rename_i htaken
      refine h.same rfl rfl (fun v _ => ?_) rfl
      simp only [id, World.enter_st, Bool.or_eq_true] at htaken
      simp only [Slot.open, Bool.and_eq_false_iff, Bool.not_eq_false']
      rcases htaken with (hf | hc) | ht
      · exact .inl (.inl (.inr hf))
      · exact .inl (.inr (by rw [← Option.not_isSome, hc]; rfl))
      · exact .inr (by rw [← Option.not_isSome, ht]; rfl)
    · rename_i hfree
      simp only [id, World.enter_st, Bool.or_eq_true, not_or, Bool.not_eq_true] at hfree
      obtain ⟨⟨hf, hc⟩, ht⟩ := hfree
      cases hb : w.st.busy with
      | true =>
        unfold run
        rw [holds_bind, holds_read]
        dsimp only
        rw [if_pos (show (w.enter (.start (some u))).st.busy = true from hb)]
        refine h.same rfl rfl (fun v _ => ?_) rfl
        simp [Slot.open, hb]
      | false =>
        have hopen : w.st.toSlot.open = true := by
          simp only [Slot.open, hb, hf, Bool.not_false, Bool.true_and, Bool.and_eq_true]
          exact ⟨by rw [← Option.not_isSome, hc]; rfl, by rw [← Option.not_isSome, ht]; rfl⟩
        have hvacant : Vacant w.st.toSlot := by
          rcases h.rest hb with ⟨l, c, hs, -⟩ | ⟨hs, -⟩ | ⟨hs, -⟩
          · rw [show w.st.call = some c from hs.call] at hc
            cases hc
          · rw [show w.st.terminal.isSome = true from hs.terminal] at ht
            cases ht
          · exact hs
        have hsince : since (w.enter (.start (some u))).log = ⟨none, 0, []⟩ := by
          show (if w.st.toSlot.open = true then _ else _) = _
          rw [if_pos hopen]
        have hidle : (w.enter (.start (some u))).st.busy = false := hb
        have hfine : Fine ⟨none, 0, []⟩ := ⟨Nat.zero_le _, fun k hk => by cases hk⟩
        have hbegin : At Vacant ⟨none, 0, []⟩
            ((w.enter (.start (some u))).put ((w.enter (.start (some u))).st.occupy true)) :=
          ⟨hvacant.idle true, rfl, hsince, hfine, h.refuses.push fun e he => by cases he⟩
        refine (run_ends (E := Stops) (Q := Accepted) (R := fun s => Published s ∨ Vacant s) hidle hbegin
          (fun w' h' => starting_ends h') (fun code w' h' => notice_ends code h') (fun accepted s hs => ?_) fun s hs => ?_).mono
          fun r w' hr => ?_
        · cases accepted with
          | true =>
            obtain ⟨l, c, hg, h0, hp⟩ := hs
            exact ⟨l, c, hg.idle false, h0, hp⟩
          | false => exact hs.imp (fun hs => hs.idle false) fun hs => hs.idle false
        · exact hs.imp (fun hs => hs.idle false) fun hs => hs.idle false
        · rcases hr with hbad | ⟨accepted, rfl, hover⟩
          · cases r with
            | ok a => exact .inl hbad
            | error e => exact .inl hbad
          cases accepted with
          | true =>
            have hslot : Accepted true w'.st.toSlot := hover.slot.elim id fun hs => by cases hs.1
            obtain ⟨l, c, hg, h0, hp⟩ := hslot
            have hallowed : allowance c = l.total := by
              obtain ⟨p, hp, hl⟩ := hg.known.policy
              show c.snapshot.policy.elim 0 _ = _
              rw [hp, ← hl]
              rfl
            have hsince' : since (w'.push w.next (.ret (.ok (.started true)))).log = ⟨some l.total, 0, []⟩ := by
              show (⟨some (w'.st.toSlot.call.elim 0 allowance), 0, (since w'.log).delivered⟩ : Since) = _
              rw [hg.call, hover.log, ← hallowed]
              rfl
            have hover' : Over (fun s => s = w'.st.toSlot) ⟨none, 0, []⟩ w' :=
              ⟨rfl, hover.idle, hover.log, hover.fine, hover.refuses⟩
            refine hover'.leaves hb (fun s hs => ?_) ?_
            · rw [hsince', hs]
              refine .goes l c hg rfl rfl ?_
              rw [hp, h0]
              show 0 + (l.synthesisPolls - 0 + l.playbackPolls) ≤ l.synthesisPolls + l.playbackPolls
              omega
            · rw [hsince']
              exact ⟨Nat.zero_le _, fun k hk _ => Nat.zero_le _⟩
          | false =>
            have hsince' : since (w'.push w.next (.ret (.ok (.started false)))).log = ⟨none, 0, []⟩ := hover.log
            refine hover.leaves hb (fun s hs => ?_) (hsince' ▸ hfine)
            rw [hsince']
            have hs' : Published s ∨ Vacant s := hs.elim id And.right
            rcases hs' with hs' | hs'
            · exact .published hs' rfl fun k hk => by cases hk
            · exact .vacant hs' (Nat.zero_le _) fun k hk => by cases hk

/-- **Every method keeps the contract.** -/
theorem progress_kept : (progressContract digest b).Kept := by
  refine ⟨fun ctx m w hen hlog hctx hinv => ?_, fun w s hw hc => by cases hc⟩
  have hgrown : ∀ {r : Except Exc Value} {w' : TWorld digest}, Extends w.next (w.enter m) w' →
      ∀ e ∈ w.log, e ∈ (w'.push w.next (.ret r)).log := by
    rintro r w' ⟨-, new, hl, -⟩ e he
    refine List.mem_cons_of_mem _ ?_
    rw [hl]
    exact List.mem_append_right _ (List.mem_cons_of_mem _ he)
  rcases hinv with hbad | hgood
  · have hbad' : Bad (w.enter m).log := hbad.mono fun e he => List.mem_cons_of_mem _ he
    have hstays : Holds (progressContract digest b) ctx w.next (body b m) (fun _ w' => Bad w'.log) (w.enter m) :=
      bad_holds hbad' fun _ _ h => h
    refine hstays.extends.mono fun r w' ⟨h, hext⟩ => ?_
    have hret : Bad (w'.push w.next (.ret r)).log := h.mono fun e he => List.mem_cons_of_mem _ he
    exact ⟨.inl hret, hgrown hext, .inl hret⟩
  · have hleaves : Holds (progressContract digest b) ctx w.next (body b m) (Comes w w.next) (w.enter m) := by
      cases m with
      | start u => exact start_leaves hgood u
      | poll => exact poll_leaves hgood
      | cancel => exact finish_leaves hgood (fun u hu => by cases hu) fun d => rfl
      | invalidate => exact calm_leaves hgood (fun u hu => by cases hu) fun d => rfl
      | finish => exact finish_leaves hgood (fun u hu => by cases hu) fun d => rfl
      | ownerBegin mode => exact calm_leaves hgood (fun u hu => by cases hu) (client_slot _)
      | ownerCancel g => exact calm_leaves hgood (fun u hu => by cases hu) (client_slot _)
      | ownerRelease g cleaned => exact calm_leaves hgood (fun u hu => by cases hu) (client_slot _)
    refine hleaves.extends.mono fun r w' ⟨h, hext⟩ => ?_
    rcases h with hbad | ⟨hgood', hnests⟩
    · have hret : Bad (w'.push w.next (.ret r)).log := hbad.mono fun e he => List.mem_cons_of_mem _ he
      exact ⟨.inl hret, hgrown hext, .inl hret⟩
    · exact ⟨.inr hgood', hgrown hext, .inr hnests⟩

/-! ## Runs -/

variable {sid : String} {cfg : TConfig digest}

theorem Good.new (sid : String) : Good (Machine.start (TtsOutput.new sid) : TConfig digest).w :=
  ⟨fun _ => .vacant ⟨rfl, rfl, fun hp => (by cases hp)⟩ (Nat.zero_le _) fun k hk => (by cases hk),
    ⟨Nat.zero_le _, fun k hk => (by cases hk)⟩, fun e he => (by cases he)⟩

/-- The invariant, in a run; where nothing is under way, the output is at rest. -/
theorem progress_reachable (h : (output digest b).Reachable (.new sid) cfg) :
    (Bad cfg.w.log ∨ Good cfg.w) ∧ (cfg.stack = [] → Bad cfg.w.log ∨ cfg.w.st.busy = false) := by
  refine Contract.sound_idle (B := fun w => Bad w.log ∨ w.st.busy = false) (progress_kept : (progressContract digest b).Kept)
    (fun w w' hidle hrel => ?_) (fun w s hs => by cases hs) (.inr (Good.new sid)) (.inr rfl) h
  obtain ⟨hmem, hbad | hnests⟩ := hrel
  · exact .inl hbad
  · rcases hidle with hbad | hidle
    · exact .inl (hbad.mono hmem)
    · exact .inr (hnests.idle hidle)

/-- **A speech output comes to an end**, in every run whose collaborators raise nothing but exceptions and name
providers by identifiers. No start that was taken has two completions. One that was accepted has one, within the polls
of its limits and one more, and before another start is taken. Where nothing is under way, the output is not stopping.
And only a start with what is no utterance raises. -/
theorem output_completes (h : (output digest b).Reachable (.new sid) cfg) (hd : ¬ Disturbed cfg.w.log)
    (hm : ¬ Misnamed cfg.w.log) :
    (since cfg.w.log).delivered.length ≤ 1 ∧
    (∀ k, (since cfg.w.log).accepted = some k → k + 1 ≤ (since cfg.w.log).polls ∨ cfg.w.st.open = true →
      (since cfg.w.log).delivered.length = 1) ∧
    (cfg.stack = [] → cfg.w.st.phase ≠ .stopping) ∧
    ∀ e ∈ cfg.w.log, ∀ x, e.act = .ret (.error x) →
      x = .value ∧ ∃ m ∈ cfg.w.log, m.frame = e.frame ∧ m.act = .invoke (.start none) := by
  obtain ⟨hinv, hidle⟩ := progress_reachable h
  have hnot : ¬ Bad cfg.w.log := fun hbad => hbad.elim hd hm
  have hgood := hinv.resolve_left hnot
  refine ⟨hgood.fine.once, fun k hk hend => ?_, fun hstack => ?_, hgood.refuses⟩
  · rcases hend with hpolls | hopen
    · have hsome : (since cfg.w.log).delivered ≠ [] := by
        intro hempty
        have hwithin := hgood.fine.within k hk hempty
        omega
      have honce := hgood.fine.once
      have hpos := List.length_pos_iff.2 hsome
      omega
    · simp only [Slot.open, Bool.and_eq_true, Bool.not_eq_true', Option.isNone_iff_eq_none] at hopen
      obtain ⟨⟨⟨hb, -⟩, hcall⟩, hterminal⟩ := hopen
      rcases hgood.rest hb with ⟨l, c, hs, -⟩ | ⟨hs, -⟩ | ⟨-, -, ha⟩
      · rw [hs.call] at hcall
        cases hcall
      · have hsome := hs.terminal
        rw [hterminal] at hsome
        cases hsome
      · exact ha k hk
  · have hb := (hidle hstack).resolve_left hnot
    rcases hgood.rest hb with ⟨l, c, hs, -⟩ | ⟨hs, -⟩ | ⟨hs, -⟩
    · intro hp
      rcases hs.phase with ⟨hphase, -⟩ | ⟨hphase, -⟩
      · rw [hp] at hphase
        cases hphase
      · rw [hp] at hphase
        cases hphase
    · exact hs.phase
    · exact hs.phase

instance (a : Act Op (Answer digest) Exc Method Value) :
    Decidable (∃ t, a = .reply .gatewayPoll (.result t) ∧ named t = false) :=
  match a with
  | .reply .gatewayPoll (.result t) =>
    decidable_of_iff (named t = false) ⟨fun h => ⟨t, rfl, h⟩, fun ⟨_, ht, h⟩ => by cases ht; exact h⟩
  | .reply op (.raised _) | .reply op (.gatewayError _) | .reply op .none | .reply op (.snapshot _)
  | .reply op (.status _) | .reply op (.handle _ _) | .reply op (.playback _) | .reply op .true
  | .reply op .object | .invoke _ | .call _ | .ret _ | .crash => isFalse fun ⟨_, h, _⟩ => by cases h
  | .reply .sample (.result _) | .reply .state (.result _) | .reply (.gatewayStart _) (.result _)
  | .reply .gatewayCancel (.result _) | .reply .gatewayProven (.result _) | .reply .mixes (.result _)
  | .reply (.apply _ _) (.result _) | .reply (.restore _) (.result _) | .reply .players (.result _)
  | .reply (.start _ _) (.result _) | .reply (.poll _) (.result _) | .reply (.cancel _) (.result _)
  | .reply .gap (.result _) => isFalse fun ⟨_, h, _⟩ => by cases h

instance (log : List (TEntry digest)) : Decidable (Misnamed log) :=
  inferInstanceAs (Decidable (∃ e ∈ log, ∃ t, e.act = .reply .gatewayPoll (.result t) ∧ named t = false))

/-- A call that was played: its completion was handed out by the second of the six polls that it may take. -/
theorem output_completes_played :
    ∃ cfg : TConfig Example.sha, (output Example.sha Example.binding).Reachable (.new "s") cfg ∧
      (since cfg.w.log).accepted = some 6 ∧ (since cfg.w.log).polls = 2 ∧ (since cfg.w.log).delivered.length = 1 ∧
        cfg.w.st.phase ≠ .stopping := by
  obtain ⟨cfg, hcfg, ht⟩ := Machine.Reachable.of_run (output Example.sha Example.binding) (.new "s") Example.played
    (fun c => decide (¬ Disturbed c.w.log ∧ ¬ Misnamed c.w.log ∧ c.stack.length = 0 ∧ c.w.st.open = true ∧
      (since c.w.log).accepted = some 6 ∧ (since c.w.log).polls = 2)) (by decide +kernel)
  obtain ⟨hd, hm, hstack, hopen, haccepted, hpolls⟩ := of_decide_eq_true ht
  obtain ⟨-, hone, hphase, -⟩ := output_completes hcfg hd hm
  exact ⟨cfg, hcfg, haccepted, hpolls, hone 6 haccepted (.inr hopen), hphase (List.length_eq_zero_iff.1 hstack)⟩

namespace Example

/-- A `KeyboardInterrupt` while the mix is restored, and then polls. -/
def stuck : List (Input (Answer sha) Method) :=
  playing ++ ([.invoke .poll] : Steps) ++ checked ++ ([.reply (.playback .complete)] : Steps) ++ checked ++
    ([.reply .true, .reply (.raised true)] : Steps) ++ (List.replicate 6 (([.invoke .poll] : Steps) ++ checked)).flatten

end Example

/-- **A call is left stopping**, after a `KeyboardInterrupt` while its mix was restored: seven polls end, where it may
take six, and there is no completion. -/
theorem stuck_after_interrupt :
    ∃ cfg : TConfig Example.sha, (output Example.sha Example.binding).Reachable (.new "s") cfg ∧ cfg.stack = [] ∧
      (since cfg.w.log).accepted = some 6 ∧ (since cfg.w.log).polls = 7 ∧ (since cfg.w.log).delivered = [] ∧
        cfg.w.st.phase = .stopping := by
  obtain ⟨cfg, hcfg, ht⟩ := Machine.Reachable.of_run (output Example.sha Example.binding) (.new "s") Example.stuck
    (fun c => decide (c.stack.length = 0 ∧ (since c.w.log).accepted = some 6 ∧ (since c.w.log).polls = 7 ∧
      (since c.w.log).delivered = [] ∧ c.w.st.phase = .stopping)) (by decide +kernel)
  obtain ⟨hstack, haccepted, hpolls, hdelivered, hphase⟩ := of_decide_eq_true ht
  exact ⟨cfg, hcfg, List.length_eq_zero_iff.1 hstack, haccepted, hpolls, hdelivered, hphase⟩

end Tts

end Arhugula
