import Arhugula.Proof.FootHelperState

/-!
# What a helper types

`handoff_kept`: each helper keeps the discipline, whatever the others do. `types_once`: where each helper that
opens the intent file for its clear finds it absent, the helpers together type each input once, in order.
-/

namespace Arhugula

namespace FootHelper

open Reentrant Concurrent Strings

variable {msgfile : Text} {t t' : List FAct} {s s' : Intent} {op : Op} {x : FAct} {α β : Type}
  {F G : List FAct → Prop} {A : Phase → Prop} {h : Helper} {binding : Text} {bound : Window} {phase : Phase}
  {submission : Bool} {each : Text} {done : List Phase}

/-! ## Facts of a helper -/

theorem lasting_acked (phase : Phase) (submission : Bool) : Lasting A (Acked phase submission) := by
  intro x t _ h
  obtain ⟨s, out, hmem, hout⟩ := h
  exact ⟨s, out, List.mem_cons_of_mem _ hmem, hout⟩

theorem lasting_binds : Lasting A (Binds h binding bound) := by
  intro x t _ hb
  obtain ⟨o, t', rfl, ho⟩ := hb
  exact ⟨o, x :: t', rfl, ho⟩

theorem lasting_clearedFrom (before : Session) (seen : ℕ) : Lasting A (ClearedFrom before seen) := by
  intro x t _ hc
  obtain ⟨t₁, t₂, s, rfl, hidle⟩ := hc
  exact ⟨x :: t₁, t₂, s, rfl, hidle⟩

theorem lasting_boundarySeen (boundary : Text × ℕ) : Lasting A (BoundarySeen binding boundary) := by
  intro x t _ hb
  obtain ⟨before, seen, after, receipts, starts, t₁, t₂, rfl, hrest⟩ := hb
  exact ⟨before, seen, after, receipts, starts, x :: t₁, t₂, rfl, hrest⟩

theorem lasting_firstSeen : Lasting A (FirstSeen msgfile binding) := by
  intro x t _ hf
  obtain ⟨boundary, found, t₁, t₂, rfl, hrest⟩ := hf
  exact ⟨boundary, found, x :: t₁, t₂, rfl, hrest⟩

theorem lasting_ready (phase : Phase) : Lasting A (Ready msgfile binding phase) := by
  intro x t hx hr
  cases phase with
  | clearIntent => trivial
  | deliverIntent =>
    obtain ⟨boundary, hb⟩ := hr
    exact ⟨boundary, lasting_boundarySeen boundary x t hx hb⟩
  | goalIntent => exact lasting_firstSeen x t hx hr
  | delivered => exact hr

theorem lasting_idle (before : Session) (seen : ℕ) : Lasting A (Idle before seen) := by
  intro x t _ hi
  obtain ⟨hmem, hstatus, found, hfound, hseen⟩ := hi
  exact ⟨List.mem_cons_of_mem _ hmem, hstatus, found, List.mem_cons_of_mem _ hfound, hseen⟩

/-- Scripts were sent in these phases only. -/
def Typed (done : List Phase) (t : List FAct) : Prop :=
  ∀ phase submission each, .call (.eval phase submission each) ∈ t → phase ∈ done

theorem lasting_typed (hA : ∀ phase, A phase → phase ∈ done) : Lasting A (Typed done) := by
  intro x t hx ht phase submission each hmem
  rcases List.mem_cons.1 hmem with hcall | hmem
  · exact hA phase (hx phase submission each hcall.symm)
  · exact ht phase submission each hmem

/-- **What is known of a helper** that typed these phases. -/
structure Stands (h : Helper) (binding : Text) (bound : Window) (done : List Phase) (t : List FAct) : Prop where
  invoked : .invoke h ∈ t
  binds : Binds h binding bound t
  typed : Typed done t

theorem lasting_stands (hA : ∀ phase, A phase → phase ∈ done) : Lasting A (Stands h binding bound done) := by
  intro x t hx hs
  exact ⟨List.mem_cons_of_mem _ hs.invoked, lasting_binds x t hx hs.binds, lasting_typed hA x t hx hs.typed⟩

/-- What is due before a script is sent, but for the window. -/
structure Due (msgfile : Text) (h : Helper) (binding : Text) (bound : Window) (phase : Phase) (submission : Bool)
    (each : Text) (t : List FAct) : Prop where
  opened : Opened t
  once : ∀ s, .call (.eval phase submission s) ∉ t
  submitted : submission = true → Acked phase false t
  invoked : .invoke h ∈ t
  binds : Binds h binding bound t
  ready : Ready msgfile binding phase t
  text : ∃ text replaced submit, Types msgfile phase text ∧ composerInput bound.address text = some (replaced, submit) ∧
    each = if submission then submit else replaced

theorem lasting_due : Lasting (fun _ => False) (Due msgfile h binding bound phase submission each) := by
  intro x t hx hd
  refine ⟨List.mem_cons_of_mem _ hd.opened, fun s hs => ?_, fun hsub => lasting_acked _ _ x t hx (hd.submitted hsub),
    List.mem_cons_of_mem _ hd.invoked, lasting_binds x t hx hd.binds, lasting_ready _ x t hx hd.ready, hd.text⟩
  rcases List.mem_cons.1 hs with hcall | hs
  · exact hx phase submission s hcall.symm
  · exact hd.once s hs

/-! ## A script -/

/-- **The compositor is sent a script.** -/
theorem does_eval : Does msgfile (fun t => Sent msgfile phase submission each t ∧ F t)
    (readText (.eval phase submission each)) fun out t =>
      ∃ t₀, t = .reply (.eval phase submission each) (.text out) :: .call (.eval phase submission each) :: t₀ ∧ F t₀ := by
  unfold readText
  refine Does.bind (P := fun a t => ∃ t₀, t = .reply (.eval phase submission each) a ::
    .call (.eval phase submission each) :: t₀ ∧ F t₀) ?_ fun a => ?_
  · intro t s hF hs
    rw [Concurrent.holds_ask]
    refine ⟨⟨fun ph sub e hx => ?_, fun _ => hs⟩, fun s' hr a => ⟨⟨fun _ _ _ hx => (by cases hx), fun hx => ?_⟩, ?_⟩⟩
    · cases hx
      exact hF.1
    · exact absurd rfl (hx _ a)
    · refine ⟨hs.ask hr (fun hx => by cases hx), fun b hb => ?_⟩
      cases hb
      exact ⟨t, rfl, hF.2⟩
  · cases a with
    | text x => exact does_pure fun t ht => ht
    | _ => exact does_throw

/-- **`effect`, one script**: the window is read just before it. -/
theorem does_send (binding : Text) (hF : Lasting (fun _ => False) F)
    (hown : ∀ t, F t → F (.call (.eval phase submission each) :: t)) :
    Does msgfile (fun t => Due msgfile h binding bound phase submission each t ∧ F t)
      (send h bound phase submission each) fun _ t => F t ∧ Acked phase submission t ∧
        ∃ t₁ t₂, t = t₁ ++ .call (.eval phase submission each) :: t₂ ∧ F t₂ := by
  have hboth : Lasting (fun _ => False) fun t => Due msgfile h binding bound phase submission each t ∧ F t :=
    lasting_due.and hF
  unfold send
  refine (does_window h).bind fun now => ?_
  refine Does.ite (fun _ => does_throw) fun hsame => ?_
  have hnow : now = bound := not_not.1 hsame
  refine does_keyboard.bind fun _ => ?_
  refine Does.bind (P := fun out t => ∃ t₀, t = .reply (.eval phase submission each) (.text out) ::
    .call (.eval phase submission each) :: t₀ ∧ F t₀) ?_ fun out => ?_
  · refine does_eval.weaken (fun t ht => ?_) fun _ _ ht => ht
    obtain ⟨ks, t₁, rfl, hks, o, t₀, rfl, ho, hdue⟩ := ht
    have hread : JustRead h bound (.reply .devices (.devices ks) :: .call .devices :: .reply .window (.sight o) ::
        .call .window :: t₀) := ⟨ks, o, t₀, rfl, hks, hnow ▸ ho⟩
    obtain ⟨hd, hf⟩ := hboth.ask .devices (.devices ks) rfl (hboth.ask .window (.sight o) rfl hdue)
    exact ⟨⟨hd.opened, hd.once, hd.submitted, h, binding, bound, hd.invoked, hd.binds, hread, hd.ready, hd.text⟩, hf⟩
  · refine Does.ite (fun _ => does_throw) fun hok => ?_
    refine (does_call .sleep rfl (by decide)).weaken (fun t ht => ht) fun _ t ht => ?_
    obtain ⟨t₁, rfl, t₀, rfl, hf⟩ := ht
    have hacked : Acked phase submission (.reply (.eval phase submission each) (.text out) ::
        .call (.eval phase submission each) :: t₀) := ⟨each, out, List.mem_cons_self, not_not.1 hok⟩
    refine ⟨hF.ask .sleep .done rfl (hF _ _ (fun _ _ _ hx => by cases hx) (hown t₀ hf)), ?_, ?_⟩
    · exact (lasting_acked (A := fun _ => False) phase submission).ask .sleep .done rfl hacked
    · exact ⟨[.reply .sleep .done, .call .sleep, .reply (.eval phase submission each) (.text out)], t₀, rfl, hf⟩

/-! ## A phase -/

/-- **The intent file is opened.** -/
theorem does_opening {f : FM β} {P : β → List FAct → Prop} (hF : Lasting (fun _ => False) F)
    (hf : Does msgfile (fun t => F t ∧ Opened t) f P) :
    Does msgfile (fun t => F t ∧ (phase ≠ .clearIntent → Opened t)) (do
      call (.open phase)
      Prog.write fun _ => some none
      f) P := by
  intro t s ht hs
  obtain ⟨hFt, hopened⟩ := ht
  unfold call
  rw [Concurrent.holds_bind, Concurrent.holds_bind, Concurrent.holds_ask]
  refine ⟨⟨fun _ _ _ hx => (by cases hx), fun _ => hs⟩, fun s' hr a => ⟨⟨fun _ _ _ hx => (by cases hx), fun hx => ?_⟩, ?_⟩⟩
  · exact absurd rfl (hx _ a)
  -- only an open that succeeds may be the one of the clear
  have hfail : a ≠ .done → Safe (.reply (.open phase) a :: .call (.open phase) :: t) s' := by
    intro hne ho
    rcases List.mem_cons.1 ho with hx | ho
    · exact absurd (Act.reply.inj hx).2.symm hne
    rcases List.mem_cons.1 ho with hx | ho
    · cases hx
    · exact hr (hs ho)
  have hraise : a ≠ .done → Safe (.reply (.open phase) a :: .call (.open phase) :: t) s' ∧
      ∀ b, (Except.error Exc.raised : Except Exc β) = .ok b → P b (.reply (.open phase) a :: .call (.open phase) :: t) :=
    fun hne => ⟨hfail hne, fun b hb => by cases hb⟩
  cases a with
  | done =>
    dsimp only
    rw [Concurrent.holds_pure]
    dsimp only
    rw [Concurrent.holds_bind, Concurrent.holds_write]
    refine ⟨fun _ => rfl, hf _ _ ⟨hF.ask (.open phase) .done rfl hFt, ?_⟩ fun _ => rfl⟩
    by_cases hc : phase = .clearIntent
    · rw [hc]
      exact List.mem_cons_self
    · exact List.mem_cons_of_mem _ (List.mem_cons_of_mem _ (hopened hc))
  | raised => exact hraise fun hx => by cases hx
  | text _ => exact hraise fun hx => by cases hx
  | sight _ => exact hraise fun hx => by cases hx
  | session _ => exact hraise fun hx => by cases hx
  | devices _ => exact hraise fun hx => by cases hx
  | transcripts _ => exact hraise fun hx => by cases hx

/-- What is known before a phase is typed. -/
structure Begins (msgfile : Text) (h : Helper) (binding : Text) (bound : Window) (phase : Phase) (done : List Phase)
    (t : List FAct) : Prop where
  stands : Stands h binding bound done t
  ready : Ready msgfile binding phase t

theorem lasting_begins : Lasting (fun _ => False) (Begins msgfile h binding bound phase done) := by
  intro x t hx hb
  exact ⟨lasting_stands (fun _ hf => hf.elim) x t hx hb.stands, lasting_ready _ x t hx hb.ready⟩

/-- What stands while a phase is typed. -/
structure Typing (msgfile : Text) (F : List FAct → Prop) (h : Helper) (binding : Text) (bound : Window) (phase : Phase)
    (done : List Phase) (t : List FAct) : Prop where
  fact : F t
  stands : Stands h binding bound (phase :: done) t
  ready : Ready msgfile binding phase t
  opened : Opened t

theorem lasting_typing (hF : Lasting A F) (hA : ∀ p, A p → p = phase) :
    Lasting A (Typing msgfile F h binding bound phase done) := by
  intro x t hx ht
  refine ⟨hF x t hx ht.fact, lasting_stands (fun p hp => ?_) x t hx ht.stands, lasting_ready _ x t hx ht.ready,
    lasting_mem _ x t hx ht.opened⟩
  rw [hA p hp]
  exact List.mem_cons_self

/-- The submission of a phase was not sent. -/
def Unsubmitted (phase : Phase) (t : List FAct) : Prop := ∀ s, .call (.eval phase true s) ∉ t

theorem lasting_unsubmitted : Lasting (fun _ => False) (Unsubmitted phase) := by
  intro x t hx hn s hs
  rcases List.mem_cons.1 hs with hcall | hs
  · exact hx phase true s hcall.symm
  · exact hn s hs

/-- When the text of a phase was sent, this was known. -/
def SentFrom (phase : Phase) (F : List FAct → Prop) (t : List FAct) : Prop :=
  ∃ t₁ t₂ s, t = t₁ ++ .call (.eval phase false s) :: t₂ ∧ F t₂

theorem SentFrom.cons (h : SentFrom phase F t) : SentFrom phase F (x :: t) := by
  obtain ⟨t₁, t₂, s, rfl, hf⟩ := h
  exact ⟨x :: t₁, t₂, s, rfl, hf⟩

/-- **`effect`.** -/
theorem does_effect {text : Text} (binding : Text) (done : List Phase) (hF : Lasting (fun p => p = phase) F) (hphase : phase ∉ done)
    (htext : Types msgfile phase text) :
    Does msgfile (fun t => (F t ∧ Begins msgfile h binding bound phase done t) ∧ (phase ≠ .clearIntent → Opened t))
      (effect h bound phase text) fun _ t => F t ∧ Stands h binding bound (phase :: done) t ∧ Opened t ∧
        Acked phase true t ∧ SentFrom phase F t := by
  have hquiet : Lasting (fun _ => False) F := hF.mono fun _ hx => hx.elim
  have htyping : Lasting (fun p => p = phase) (Typing msgfile F h binding bound phase done) :=
    lasting_typing hF fun _ hp => hp
  have hstill : Lasting (fun _ => False) (Typing msgfile F h binding bound phase done) :=
    lasting_typing hquiet fun _ hp => hp.elim
  have hown : ∀ {submission : Bool} {each : Text} {t : List FAct}, Typing msgfile F h binding bound phase done t →
      Typing msgfile F h binding bound phase done (.call (.eval phase submission each) :: t) := by
    intro submission each t ht
    refine htyping _ t (fun p b e hp => ?_) ht
    cases hp
    rfl
  unfold effect
  cases hscripts : composerInput bound.address text with
  | none => exact does_throw
  | some scripts =>
    obtain ⟨replaced, submitted⟩ := scripts
    dsimp only
    have hopening : Lasting (fun _ => False) fun t => (F t ∧ Begins msgfile h binding bound phase done t) ∧ Opened t :=
      (hquiet.and lasting_begins).and (lasting_mem _)
    refine does_opening (hquiet.and lasting_begins) ?_
    refine (does_call (.record phase) rfl (fun hx => by cases hx)).bind fun _ => (does_write _).bind fun _ => ?_
    refine Does.bind (P := fun _ t => (Typing msgfile F h binding bound phase done t ∧ Unsubmitted phase t) ∧
      Acked phase false t ∧ SentFrom phase F t) ?_ fun _ => ?_
    · -- the text: nothing of this phase was sent
      refine (does_send (F := fun t => Typing msgfile F h binding bound phase done t ∧ Unsubmitted phase t) binding
        (hstill.and lasting_unsubmitted) fun t ht => ⟨hown ht.1, fun s hs => ?_⟩).weaken (fun t ht => ?_) fun _ t ht => ?_
      · rcases List.mem_cons.1 hs with hcall | hs
        · cases hcall
        · exact ht.2 s hs
      · obtain ⟨t₀, rfl, ht₀⟩ := ht
        obtain ⟨⟨hf, hb⟩, ho⟩ := hopening.ask (.record phase) .done rfl ht₀
        have hnone : ∀ sub s, .call (.eval phase sub s) ∉ (.reply (.record phase) .done :: .call (.record phase) :: t₀) :=
          fun sub s hs => hphase (hb.stands.typed phase sub s hs)
        have hstands : Stands h binding bound (phase :: done) (.reply (.record phase) .done :: .call (.record phase) :: t₀) :=
          ⟨hb.stands.invoked, hb.stands.binds, fun p b e hmem => List.mem_cons_of_mem _ (hb.stands.typed p b e hmem)⟩
        exact ⟨⟨ho, hnone false, fun hx => (by cases hx), hstands.invoked, hstands.binds, hb.ready, text, replaced,
          submitted, htext, hscripts, rfl⟩, ⟨hf, hstands, hb.ready, ho⟩, hnone true⟩
      · obtain ⟨hkeep, hacked, t₁, t₂, rfl, ht₂⟩ := ht
        exact ⟨hkeep, hacked, t₁, t₂, replaced, rfl, ht₂.1.fact⟩
    · -- the submission, once the text was acknowledged
      refine (does_send (F := fun t => Typing msgfile F h binding bound phase done t ∧ SentFrom phase F t) binding
        (hstill.and (lasting_past fun _ _ ht => ht.cons)) fun t ht => ⟨hown ht.1, ht.2.cons⟩).weaken
        (fun t ht => ?_) fun _ t ht => ?_
      · obtain ⟨⟨htype, hnone⟩, hacked, hsent⟩ := ht
        exact ⟨⟨htype.opened, hnone, fun _ => hacked, htype.stands.invoked, htype.stands.binds, htype.ready, text, replaced,
          submitted, htext, hscripts, rfl⟩, htype, hsent⟩
      · obtain ⟨⟨htype, hsent⟩, hacked, -⟩ := ht
        exact ⟨htype.fact, htype.stands, htype.opened, hacked, hsent⟩

/-! ## The helper -/

/-- **`await_clear`**: the native boundary is observed. -/
theorem does_awaitClear {before : Session} {seen : ℕ} (hF : Lasting (fun _ => False) F)
    (hcleared : ∀ t, F t → ClearedFrom before seen t ∧ Acked .clearIntent true t) :
    Does msgfile F (awaitClear h binding before seen) fun boundary t => F t ∧ BoundarySeen binding boundary t := by
  unfold awaitClear
  refine does_polling hF ?_ h.timeout
  refine (does_session h).bind fun after => ?_
  refine (does_readText .receipts rfl (by decide)).bind fun receipts => ?_
  cases hstarts : sessionStarts (receiptsOf binding receipts after.sessionId) with
  | none => exact does_throw
  | some starts =>
    have hkeep : ∀ t, (∃ t₀, t = .reply .receipts (.text receipts) :: .call .receipts :: t₀ ∧
        ∃ t₁, t₀ = .reply .session (.session after) :: .call .session :: t₁ ∧ F t₁) → F t := by
      intro t ht
      obtain ⟨t₀, rfl, t₁, rfl, ht₁⟩ := ht
      exact hF.ask .receipts _ rfl (hF.ask .session _ rfl ht₁)
    refine Does.ite (fun hb => does_pure fun t ht => ?_) fun _ => does_pure hkeep
    refine ⟨hkeep t ht, ?_⟩
    obtain ⟨t₀, rfl, t₁, rfl, ht₁⟩ := ht
    obtain ⟨hfrom, hacked⟩ := hcleared t₁ ht₁
    exact ⟨before, seen, after, receipts, starts, [], t₁, rfl, hfrom, hacked, hstarts, hb, rfl⟩

/-- **`await_first_input`**: the pointer is the first input of the cleared session. -/
theorem does_awaitFirstInput {boundary : Text × ℕ} (hF : Lasting (fun _ => False) F)
    (hboundary : ∀ t, F t → BoundarySeen binding boundary t ∧ Acked .deliverIntent true t) :
    Does msgfile F (awaitFirstInput h boundary (pointer msgfile)) fun _ t => F t ∧ FirstSeen msgfile binding t := by
  unfold awaitFirstInput firstInput
  refine does_polling hF ?_ h.timeout
  refine Does.bind (P := fun o t => ∃ found t₀, t = .reply (.transcripts boundary.1) (.transcripts found) ::
    .call (.transcripts boundary.1) :: t₀ ∧ o = ((found.flatten.filterMap promptText).drop boundary.2).head? ∧ F t₀)
    ?_ fun o => ?_
  · refine (does_prompts boundary.1).bind fun ps => does_pure fun t ht => ?_
    obtain ⟨found, t₀, rfl, rfl, ht₀⟩ := ht
    exact ⟨found, t₀, rfl, rfl, ht₀⟩
  · cases o with
    | none =>
      refine does_pure fun t ht => ?_
      obtain ⟨found, t₀, rfl, -, ht₀⟩ := ht
      exact hF.ask _ _ rfl ht₀
    | some first =>
      refine Does.ite (fun hfirst => does_pure fun t ht => ?_) fun _ => does_throw
      obtain ⟨found, t₀, rfl, hhead, ht₀⟩ := ht
      obtain ⟨hb, hacked⟩ := hboundary t₀ ht₀
      exact ⟨hF.ask _ _ rfl ht₀, boundary, found, [], t₀, rfl, hb, hacked, hfirst ▸ hhead.symm⟩

/-- The last mark of the intent file. -/
theorem does_finish : Does msgfile (fun t => Opened t) (do
      call (.open .delivered)
      Prog.write fun _ => some none
      call (.record .delivered)
      Prog.write fun _ => some (some (.delivered, bound.address))
      call .unlink) fun _ _ => True := by
  refine (does_opening (F := Opened) (lasting_mem _) ?_).weaken (fun t ht => ⟨ht, fun _ => ht⟩) fun _ _ h => h
  refine (does_call _ rfl (by decide)).bind fun _ => (does_write _).bind fun _ => ?_
  exact (does_call .unlink rfl (by decide)).weaken (fun _ ht => ht) fun _ _ _ => trivial

/-- **The phases after the clear.** -/
theorem does_deliver {goal : Text} {before : Session} {seen : ℕ} :
    Does msgfile (fun t => (Stands h binding bound [.clearIntent] t ∧ Opened t) ∧ ClearedFrom before seen t ∧
      Acked .clearIntent true t) (deliver h msgfile binding bound goal before seen) fun _ _ => True := by
  have hstands : ∀ {done : List Phase}, Lasting (fun _ => False) fun t => Stands h binding bound done t ∧ Opened t :=
    (lasting_stands fun _ hf => hf.elim).and (lasting_mem _)
  unfold deliver
  refine (does_awaitClear (hstands.and ((lasting_clearedFrom _ _).and (lasting_acked _ _))) fun t ht => ht.2).bind
    fun boundary => ?_
  refine Does.bind (P := fun _ t => (Stands h binding bound [.deliverIntent, .clearIntent] t ∧ Opened t) ∧
    BoundarySeen binding boundary t ∧ Acked .deliverIntent true t) ?_ fun _ => ?_
  · refine (does_effect (F := BoundarySeen binding boundary) binding [.clearIntent] (lasting_boundarySeen _) (by decide) .pointer).weaken
      (fun t ht => ?_) fun _ t ht => ?_
    · obtain ⟨⟨⟨hst, ho⟩, -⟩, hb⟩ := ht
      exact ⟨⟨hb, hst, boundary, hb⟩, fun _ => ho⟩
    · obtain ⟨hb, hst, ho, hacked, -⟩ := ht
      exact ⟨⟨hst, ho⟩, hb, hacked⟩
  refine (does_awaitFirstInput (hstands.and ((lasting_boundarySeen _).and (lasting_acked _ _))) fun t ht => ht.2).bind
    fun _ => ?_
  refine Does.ite (fun _ => ?_) fun _ => does_finish.weaken (fun t ht => ht.1.1.2) fun _ _ h => h
  refine Does.bind (P := fun _ t => Opened t) ?_ fun _ => does_finish
  refine (does_effect (F := fun _ => True) binding [.deliverIntent, .clearIntent] (fun _ _ _ _ => trivial) (by decide) (.goal goal)).weaken
    (fun t ht => ?_) fun _ t ht => ht.2.2.1
  obtain ⟨⟨⟨hst, ho⟩, -⟩, hfirst⟩ := ht
  exact ⟨⟨trivial, hst, hfirst⟩, fun _ => ho⟩

/-- **`wait_idle`.** -/
theorem does_waitIdle {started : Session} (hF : Lasting (fun _ => False) F) :
    Does msgfile F (waitIdle h started) fun before t => F t ∧ .reply .session (.session before) ∈ t ∧
      before.status = some "idle".toList := by
  unfold waitIdle
  refine does_polling hF ?_ h.timeout
  refine (does_session h).bind fun record => ?_
  refine Does.ite (fun _ => does_throw) fun _ => Does.ite (fun hidle => ?_) fun _ => ?_
  · refine does_pure fun t ht => ?_
    obtain ⟨t₀, rfl, ht₀⟩ := ht
    exact ⟨hF.ask .session _ rfl ht₀, List.mem_cons_self, hidle⟩
  · refine does_pure fun t ht => ?_
    obtain ⟨t₀, rfl, ht₀⟩ := ht
    exact hF.ask .session _ rfl ht₀

/-- **`handoff`.** -/
theorem does_handoff : Does msgfile (Stands h binding bound []) (handoff h msgfile binding bound) fun _ _ => True := by
  have hstands : Lasting (fun _ => False) (Stands h binding bound []) := lasting_stands fun _ hf => hf.elim
  have hkeep : ∀ {op : Op} {a : Answer} {t : List FAct}, op.quiet = true →
      (∃ t₀, t = .reply op a :: .call op :: t₀ ∧ Stands h binding bound [] t₀) → Stands h binding bound [] t := by
    intro op a t hquiet ht
    obtain ⟨t₀, rfl, ht₀⟩ := ht
    exact hstands.ask op a hquiet ht₀
  unfold handoff
  refine (does_call .exists rfl (by decide)).bind fun _ => does_read.bind fun _ => ?_
  refine Does.ite (fun _ => does_throw) fun _ => ?_
  refine ((does_session h).weaken (fun t ht => hkeep rfl ht) fun _ _ ht => ht).bind fun started => ?_
  refine (does_keyboard.weaken (fun t ht => hkeep rfl ht) fun _ _ ht => ht).bind fun _ => ?_
  refine Does.bind (P := fun _ t => Stands h binding bound [] t) ?_ fun goal => ?_
  · unfold carriedGoal
    refine ((does_readText (F := Stands h binding bound []) .goal rfl (by decide)).weaken (fun t ht => ?_) fun _ _ ht => ht).bind fun goal => ?_
    · obtain ⟨ks, t₀, rfl, -, ht₀⟩ := ht
      exact hstands.ask .devices _ rfl ht₀
    · exact Does.ite (fun _ => does_throw) fun _ => does_pure fun t ht => hkeep rfl ht
  refine (does_call .sleep rfl (by decide)).bind fun _ => ?_
  refine ((does_waitIdle hstands).weaken (fun t ht => hkeep rfl ht) fun _ _ ht => ht).bind fun before => ?_
  refine (does_window h).bind fun now => Does.ite (fun _ => does_throw) fun _ => ?_
  refine does_keyboard.bind fun _ => (does_prompts before.sessionId).bind fun seen => ?_
  refine Does.bind (P := fun _ t => (Stands h binding bound [.clearIntent] t ∧ Opened t) ∧
    ClearedFrom before seen.length t ∧ Acked .clearIntent true t) ?_ fun _ => does_deliver
  refine (does_effect (F := Idle before seen.length) binding [] (lasting_idle _ _) (by decide) .clear).weaken
    (fun t ht => ?_) fun _ t ht => ?_
  · obtain ⟨found, t₃, rfl, rfl, ks, t₂, rfl, -, o, t₁, rfl, -, hst, hmem, hidle⟩ := ht
    have hst' := hstands.ask (.transcripts before.sessionId) (.transcripts found) rfl
      (hstands.ask .devices (.devices ks) rfl (hstands.ask .window (.sight o) rfl hst))
    refine ⟨⟨⟨?_, hidle, found, List.mem_cons_self, rfl⟩, hst', trivial⟩, fun hne => absurd rfl hne⟩
    simp [hmem]
  · obtain ⟨-, hst, ho, hacked, t₁, t₂, s, rfl, hidle⟩ := ht
    exact ⟨⟨hst, ho⟩, ⟨t₁, t₂, s, rfl, hidle⟩, hacked⟩

/-- **Each helper keeps the discipline**, whatever the others do. -/
theorem handoff_kept (msgfile : Text) : Kept (rules msgfile) (body msgfile) where
  method := by
    intro h s
    refine ⟨⟨fun _ _ _ hx => (by cases hx), fun _ ho => by cases ho⟩, ?_⟩
    have hbody : Does msgfile (fun t => t = [.invoke h]) (body msgfile h) fun _ _ => True := by
      unfold body
      refine (does_readText .receipts rfl (by decide)).bind fun binding => (does_window h).bind fun bound => ?_
      refine does_handoff.weaken (fun t ht => ?_) fun _ _ h => h
      obtain ⟨o, t₁, rfl, ho, t₂, rfl, rfl⟩ := ht
      refine ⟨by simp, ⟨o, [], rfl, ho⟩, fun phase submission each hmem => ?_⟩
      simp at hmem
    refine (hbody [.invoke h] s rfl fun ho => ?_).mono fun r t' s' hr => ⟨fun _ _ _ hx => (by cases hx), fun _ => hr.1⟩
    simp [Opened] at ho
  crash := by
    intro t op s s' ho hr
    refine ⟨fun _ _ _ hx => (by cases hx), fun _ hopen => hr (ho.2 (fun _ _ hx => (by cases hx)) ?_)⟩
    rcases List.mem_cons.1 hopen with hx | hopen
    · cases hx
    · exact hopen

/-! ## Several helpers -/

variable {start : Intent} {c : FConfig} {newer older : List FEntry} {e e' : FEntry}

/-- The entry opens the intent file for a clear. -/
def Opens (e : FEntry) : Prop := e.act = .reply (.open .clearIntent) .done

/-- **Each helper that opens the intent file for its clear finds it absent.** -/
def Timely (log : List FEntry) : Prop := ∀ e ∈ log, Opens e → e.st = none

theorem entry_sound (h : Reachable (body msgfile) start c) (hlog : c.w.log = newer ++ e :: older) :
    (rules msgfile).owes (acts e.frame older) e.act e.st ∧ ∀ e' ∈ older, (rules msgfile).rely e'.st e.st := by
  have howes := ((handoff_kept msgfile).sound h).owes
  rw [hlog] at howes
  exact howes.at

/-- Where a clear was begun, the intent file stays. -/
theorem intent_stays (h : Reachable (body msgfile) start c) (he : e ∈ c.w.log) (ho : Opens e) :
    c.w.st.isSome = true := by
  have hsound := (handoff_kept msgfile).sound h
  have hmem : .reply (.open .clearIntent) .done ∈ acts e.frame c.w.log := mem_acts.2 ⟨e, he, rfl, ho⟩
  cases hacts : acts e.frame c.w.log with
  | nil =>
    rw [hacts] at hmem
    cases hmem
  | cons x t =>
    -- the helper stopped at an act after it opened the file, and leaves it there
    rw [hacts] at hmem
    have hrest := hsound.rests e.frame x t hacts
    have hx : ∀ op a, x ≠ .reply op a := by
      rintro op a rfl
      rcases hrest with ⟨op', hx⟩ | ⟨r, hx⟩ | hx
      · cases hx
      · cases hx
      · cases hx
    have hopened : Opened t := by
      rcases List.mem_cons.1 hmem with hx' | hmem
      · exact absurd hx'.symm (hx _ _)
      · exact hmem
    obtain ⟨newer, e₁, older, hlog, hf, hact, ht⟩ := acts_split hacts
    obtain ⟨howes, -⟩ := entry_sound h hlog
    rw [hf, ht, hact] at howes
    exact hsound.rely e₁ (hlog ▸ by simp) (howes.2 hx hopened)

/-- **One clear is begun.** -/
theorem opens_once (h : Reachable (body msgfile) start c) (ht : Timely c.w.log) (hlog : c.w.log = newer ++ e :: older)
    (ho : Opens e) : ∀ e' ∈ older, ¬ Opens e' := by
  intro e' he' ho'
  obtain ⟨c', hc', hlog', hst⟩ := h.before hlog ho
  have hsome := intent_stays hc' (hlog' ▸ he') ho'
  have hnone : e.st = none := ht e (hlog ▸ by simp) ho
  rw [hst, hnone] at hsome
  cases hsome

/-- One helper begins a clear. -/
theorem opener (h : Reachable (body msgfile) start c) (ht : Timely c.w.log) (he : e ∈ c.w.log) (ho : Opens e)
    (he' : e' ∈ c.w.log) (ho' : Opens e') : e.frame = e'.frame := by
  obtain ⟨newer, older, hlog⟩ := List.append_of_mem he
  rw [hlog] at he'
  rcases List.mem_append.1 he' with he' | he'
  · obtain ⟨l, l', hl⟩ := List.append_of_mem he'
    have hsplit : c.w.log = l ++ e' :: (l' ++ e :: older) := by
      rw [hlog, hl, List.append_assoc, List.cons_append]
    exact absurd ho (opens_once h ht hsplit ho' e (by simp))
  · rcases List.mem_cons.1 he' with rfl | he'
    · rfl
    · exact absurd ho' (opens_once h ht hlog ho e' he')

/-- What stands when a helper sends a script, in any run. -/
theorem sent (h : Reachable (body msgfile) start c) (hlog : c.w.log = newer ++ e :: older)
    (he : e.act = .call (.eval phase submission each)) : Sent msgfile phase submission each (acts e.frame older) :=
  (entry_sound h hlog).1.1 _ _ _ he

/-- **The helpers type each input once.** In every run in which each helper that opens the intent file for its clear
finds it absent, with crashes: each script is sent once, all by one helper; before it the window read equals the
bound one, the pointer follows the native boundary of the clear, and the goal the pointer, recorded as the first
input. -/
theorem types_once (h : Reachable (body msgfile) start c) (ht : Timely c.w.log)
    (hlog : c.w.log = newer ++ e :: older) (he : e.act = .call (.eval phase submission each)) :
    Sent msgfile phase submission each (acts e.frame older) ∧
    ∀ e' ∈ older, ∀ phase' submission' each', e'.act = .call (.eval phase' submission' each') →
      e'.frame = e.frame ∧ (phase', submission') ≠ (phase, submission) := by
  have hsent := sent h hlog he
  refine ⟨hsent, fun e' he' phase' submission' each' hact => ?_⟩
  have hframe : e'.frame = e.frame := by
    obtain ⟨l, l', hl⟩ := List.append_of_mem he'
    have hsplit : c.w.log = (newer ++ e :: l) ++ e' :: l' := by
      rw [hlog, hl, List.append_assoc, List.cons_append]
    have hsent' := sent h hsplit hact
    obtain ⟨e₁, he₁, hf₁, ho₁⟩ := mem_acts.1 hsent.opened
    obtain ⟨e₂, he₂, hf₂, ho₂⟩ := mem_acts.1 hsent'.opened
    have hmem₁ : e₁ ∈ c.w.log := by
      rw [hlog]
      exact List.mem_append_right _ (List.mem_cons_of_mem _ he₁)
    have hmem₂ : e₂ ∈ c.w.log := by
      rw [hsplit]
      exact List.mem_append_right _ (List.mem_cons_of_mem _ he₂)
    rw [← hf₁, ← hf₂]
    exact opener h ht hmem₂ ho₂ hmem₁ ho₁
  refine ⟨hframe, fun heq => ?_⟩
  cases heq
  exact hsent.once each' (mem_acts.2 ⟨e', he', hframe, hact⟩)

/-! ### Runs -/

namespace Example

def helper : Helper := ⟨7, 0⟩

/-- A terminal with one client. -/
def sight : Sight := ⟨5, "10".toList, "foot".toList, [⟨some 5, true, true, "0x1f".toList, "s".toList⟩], "9".toList⟩

/-- An idle session. -/
def idle (sessionId : Text) : Session :=
  ⟨some 7, some "10".toList, "10".toList, sessionId, "local".toList, some "idle".toList⟩

def literal : Answer := .devices [⟨true, some "English (US)".toList, some false⟩]

/-- The answers that take a helper to its clear. -/
def approach : List Answer :=
  [.text [], .sight sight, .done, .session (idle ['a']), literal, .text [], .done, .session (idle ['a']), .sight sight,
    literal, .transcripts []]

/-- The answers that take it from the intent file to the compositor. -/
def typing : List Answer := [.done, .done, .sight sight, literal]

/-- The answers that take it from there to the intent file of the pointer. -/
def acknowledged : List Answer :=
  [.text "ok".toList, .done, .sight sight, literal, .text "ok".toList, .done, .session (idle ['b']), .text []]

def answers (i : ℕ) (as : List Answer) : List (Concurrent.Input Answer Helper) := as.map (.reply i)

/-- One helper, up to its pointer. -/
def alone : List (Concurrent.Input Answer Helper) := .begin helper :: answers 0 (approach ++ typing ++ acknowledged ++ typing)

/-- Two helpers that both checked the intent file before either wrote it. -/
def together : List (Concurrent.Input Answer Helper) :=
  [Concurrent.Input.begin helper, .begin helper] ++ answers 0 approach ++ answers 1 approach ++ answers 0 typing ++
    answers 1 typing

/-- What the entry sends. -/
def sends (e : FEntry) : Option (Phase × Bool) :=
  match e.act with
  | .call (.eval phase submission _) => some (phase, submission)
  | _ => none

/-- The entry opens the intent file for a clear, and finds it there. -/
def late (e : FEntry) : Bool :=
  match e.act with
  | .reply (.open .clearIntent) .done => e.st.isSome
  | _ => false

theorem timely_of_late {log : List FEntry} (h : log.any late = false) : Timely log := by
  intro e he ho
  have hlate : ¬ late e = true := List.any_eq_false.1 h e he
  unfold late at hlate
  rw [show e.act = .reply (.open .clearIntent) .done from ho] at hlate
  simpa using hlate

theorem sends_act {phase : Phase} {submission : Bool} (h : sends e = some (phase, submission)) :
    ∃ each, e.act = .call (.eval phase submission each) := by
  unfold sends at h
  split at h
  · rename_i phase' submission' each hact
    cases h
    exact ⟨each, hact⟩
  · cases h

end Example

/-- A helper alone, at its pointer: the native boundary was observed. -/
theorem types_once_alone :
    ∃ c, Reachable (body ['m']) none c ∧ ∃ e older, c.w.log = e :: older ∧
      ∃ each, Sent ['m'] .deliverIntent false each (acts e.frame older) := by
  obtain ⟨c, hc, ht⟩ := Reachable.of_run (body ['m']) none Example.alone
    (fun c => decide ((c.w.log.head?.bind Example.sends) = some (.deliverIntent, false) ∧
      c.w.log.any Example.late = false)) (by decide +kernel)
  obtain ⟨hhead, htimely⟩ := of_decide_eq_true ht
  obtain ⟨e, he, hsends⟩ := Option.bind_eq_some_iff.1 hhead
  obtain ⟨each, hact⟩ := Example.sends_act hsends
  obtain ⟨older, hlog⟩ := List.head?_eq_some_iff.1 he
  have hsplit : c.w.log = [] ++ e :: older := hlog
  obtain ⟨hsent, -⟩ := types_once hc (Example.timely_of_late htimely) hsplit hact
  exact ⟨c, hc, e, older, hlog, each, hsent⟩

/-- **Two helpers that both checked before either wrote both type `/clear`.** -/
theorem types_twice :
    ¬ ∀ c : FConfig, Reachable (body ['m']) none c → ∀ newer e older, c.w.log = newer ++ e :: older →
      ∀ phase submission each, e.act = .call (.eval phase submission each) →
        ∀ e' ∈ older, ∀ each', e'.act ≠ .call (.eval phase submission each') := by
  intro hall
  obtain ⟨c, hc, ht⟩ := Reachable.of_run (body ['m']) none Example.together
    (fun c => decide ((c.w.log.head?.bind Example.sends) = some (.clearIntent, false)) &&
      c.w.log.tail.any fun e => decide (Example.sends e = some (.clearIntent, false))) (by decide +kernel)
  obtain ⟨hhead, hbefore⟩ := Bool.and_eq_true_iff.1 ht
  obtain ⟨e, he, hsends⟩ := Option.bind_eq_some_iff.1 (of_decide_eq_true hhead)
  obtain ⟨each, hact⟩ := Example.sends_act hsends
  obtain ⟨older, hlog⟩ := List.head?_eq_some_iff.1 he
  obtain ⟨e', he', hsends'⟩ := List.any_eq_true.1 hbefore
  obtain ⟨each', hact'⟩ := Example.sends_act (of_decide_eq_true hsends')
  rw [hlog, List.tail_cons] at he'
  exact hall c hc [] e older hlog _ _ each hact e' he' each' hact'

end FootHelper

end Arhugula
