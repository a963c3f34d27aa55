import Arhugula.Proof.ConversationMethods

/-!
# The calls of a conversation

What a call leaves, of an operation, of a cancellation in another thread or of another client of the
owner (`Leaves`). So every call keeps the contract (`desk_kept`).
-/

namespace Arhugula

namespace Conversation

open Reentrant Session

variable {latch : Bool} {w w' w₁ w₂ : DWorld} {d d' s : Desk} {ctx : List (ℕ × Op)} {i : ℕ} {α : Type}
  {r : Except Exc α} {absorbs : Bool}

/-- A call that has just begun. -/
structure Fresh (latch : Bool) (i : ℕ) (w : DWorld) : Prop extends DInv latch w where
  unbroken : ¬ Broken w.log i
  uncalled : ¬ Called w.log i

/-- **What a call leaves.** One that finds another under way leaves what that one relies on. -/
structure Leaves (latch absorbs : Bool) (i : ℕ) (w : DWorld) (r : Except Exc α) (w' : DWorld) : Prop
    extends Core latch w' where
  linked : Linked w'.log w'.st
  idle : w.st.busy = false → w'.st.busy = false
  rest : w'.st.busy = false → Rest latch w'.log w'.st
  nested : w.st.busy = true → Moves w.st w'.st ∧ w'.log = w.log
  absorbed : absorbs = true → w.st.busy = false → w.st.owner.state = .faulted → Called w'.log i →
    w'.st.active = false →
      ((Over w'.st ∧ r ≠ .error (.session .faulted)) ↔ w.st.lease = none ∧ ¬ Broken w'.log i)

theorem Leaves.result {β : Type} {r' : Except Exc β} (h : Leaves latch absorbs i w r w')
    (hr : r' = .error (.session .faulted) ↔ r = .error (.session .faulted)) : Leaves latch absorbs i w r' w' :=
  ⟨h.toCore, h.linked, h.idle, h.rest, h.nested, fun ha hb hf hc hactive =>
    (and_congr_right fun _ => not_congr hr).trans (h.absorbed ha hb hf hc hactive)⟩

/-- What calls nothing, and leaves what a call under way relies on. -/
theorem Fresh.aside (h : Fresh latch i w) (hc : Core latch (w.put s)) (hm : Moves w.st s) :
    Leaves latch absorbs i w r (w.put s) := by
  have hlevel : Level w.log s.history := by
    rw [hm.history]
    exact h.level
  have hlinked : Linked w.log s := hlevel.linked
  refine ⟨hc, hlinked, hm.busy.trans, fun hb => ?_, fun _ => ⟨hm, rfl⟩,
    fun _ _ _ hcalled => absurd hcalled h.uncalled⟩
  exact (h.rest (hm.busy.symm.trans hb)).moves hm id

/-- A call that does nothing. -/
theorem Fresh.skip (h : Fresh latch i w) : Leaves latch absorbs i w r w := h.aside h.toCore (.refl w.st)

/-- **A call of an operation.** -/
theorem Fresh.run (h : Fresh latch i w) {operation : DM α}
    (hop : ∀ w₁, Begun latch w₁ → Holds (deskContract latch) ctx i operation (Done latch absorbs i w₁) w₁) :
    Holds (deskContract latch) ctx i (run operation) (Leaves latch absorbs i w) w := by
  cases hb : w.st.busy with
  | true =>
    unfold Conversation.run
    rw [holds_bind, holds_read]
    dsimp only
    rw [hb, if_pos rfl]
    exact h.skip
  | false =>
    refine (holds_run h.toCore h.level (h.rest hb) hb hop).mono fun r w' hran => ?_
    refine ⟨hran.toCore, hran.linked, fun _ => hran.busy, fun _ => hran.rest, fun ht => ?_, fun ha _ hf _ hactive =>
      hran.absorbed ha h.unbroken hf hactive⟩
    rw [hb] at ht
    cases ht

/-- A call of an operation, and what is made of its result. -/
theorem Fresh.called (h : Fresh latch i w) {operation : DM α} {f : Option α × Bool → Value}
    (hop : ∀ w₁, Begun latch w₁ → Holds (deskContract latch) ctx i operation (Done latch absorbs i w₁) w₁) :
    Holds (deskContract latch) ctx i (do
      let r ← Conversation.run operation
      pure (f r)) (Leaves latch absorbs i w) w := by
  rw [holds_bind]
  refine (h.run hop).mono fun r w' hleft => ?_
  cases r with
  | ok v => exact hleft.result (by simp)
  | error e => exact hleft.result (by simp)

/-! ## The operations -/

theorem holds_enter (h : Fresh latch i w) (channel : Option Entry) :
    Holds (deskContract latch) ctx i (enter channel) (Leaves latch false i w) w := by
  cases channel with
  | none => exact h.skip
  | some channel => exact h.called fun w₁ h₁ => holds_entering h₁ channel

theorem holds_submit (h : Fresh latch i w) (value : Option String) :
    Holds (deskContract latch) ctx i (submit value) (Leaves latch true i w) w := by
  unfold submit
  split
  · exact h.skip
  · exact h.called fun w₁ h₁ => holds_submitting h₁ _

theorem holds_clarify (h : Fresh latch i w) (c : Option Clarification) :
    Holds (deskContract latch) ctx i (clarify c) (Leaves latch false i w) w := by
  cases c with
  | none => exact h.skip
  | some c => exact h.called fun w₁ h₁ => holds_clarifying h₁ c

theorem holds_poll (h : Fresh latch i w) :
    Holds (deskContract latch) ctx i poll (Leaves latch true i w) w :=
  h.called fun _ h₁ => holds_polling h₁

theorem holds_exitKey (h : Fresh latch i w) (key : Option String) :
    Holds (deskContract latch) ctx i (exitKey key) (Leaves latch true i w) w := by
  unfold exitKey
  split
  · exact h.skip
  · exact h.called fun w₁ h₁ => holds_exiting h₁ _

/-- A cancellation that has the lock. -/
theorem holds_resume (h : Fresh latch i w) :
    Holds (deskContract latch) ctx i resume (Leaves latch true i w) w := by
  have hnothing : ∀ w₁, Begun latch w₁ →
      Holds (deskContract latch) ctx i (pure () : DM Unit) (Done latch true i w₁) w₁ :=
    fun w₁ h₁ => h₁.skip (by simp) (by simp) (by simp)
  unfold resume
  rw [holds_bind, holds_read]
  dsimp only
  split
  · exact h.skip
  · rw [holds_bind]
    refine (h.run hnothing).mono fun r w' hleft => ?_
    cases r with
    | ok v => exact hleft.result (by simp)
    | error e => exact hleft.result (by simp)

/-- A cancellation leaves what it leaves from where the lease was canceled. -/
theorem Fresh.struck (h : Fresh latch i w) (hc : Core latch (w.put s)) (hm : Moves w.st s) :
    Fresh latch i (w.put s) := by
  have hlevel : Level w.log s.history := by
    rw [hm.history]
    exact h.level
  refine ⟨⟨hc, hlevel, fun hb => ?_⟩, h.unbroken, h.uncalled⟩
  exact (h.rest (hm.busy.symm.trans hb)).moves hm id

theorem Leaves.after (h : Leaves latch absorbs i (w.put s) r w') (hm : Moves w.st s) :
    Leaves latch absorbs i w r w' := by
  refine ⟨h.toCore, h.linked, fun hb => h.idle (hm.busy.trans hb), h.rest, fun hb => ?_,
    fun ha hb hf hcalled hactive => ?_⟩
  · obtain ⟨hm', hlog⟩ := h.nested (hm.busy.trans hb)
    exact ⟨hm.trans hm', hlog⟩
  · rw [h.absorbed ha (hm.busy.trans hb) (hm.faulted hf) hcalled hactive, World.put_st, hm.lease]

theorem holds_cancel (h : Fresh latch i w) (code : Code) :
    Holds (deskContract latch) ctx i (cancel code) (Leaves latch true i w) w := by
  unfold cancel
  rw [holds_bind, holds_read]
  dsimp only
  split
  · rw [holds_bind]
    refine (holds_invalidate h.toCore code).mono ?_
    rintro r w' ⟨rfl, s, rfl, hcore, hm, -⟩
    exact (holds_resume (h.struck hcore hm)).mono fun r w' hleft => hleft.after hm
  · exact h.skip

/-! ## Other threads, and other clients of the owner -/

/-- What writes the state once. -/
theorem Fresh.writes (h : Fresh latch i w) (f : Desk → Desk) (hc : Core latch (w.put (f w.st)))
    (hm : Moves w.st (f w.st)) :
    Holds (deskContract latch) ctx i (silent (Prog.write f)) (Leaves latch absorbs i w) w := by
  unfold silent
  rw [holds_bind, holds_write]
  exact h.aside hc hm

/-- What the owner becomes by a call of another client. -/
theorem Fresh.owner (h : Fresh latch i w) {o : SessionOwner} {os : List ℕ}
    (ho : Owning latch o w.st.lease os w.st.deeds) (hf : w.st.owner.state = .faulted → o.state = .faulted) :
    Core latch (w.put { w.st with owner := o, others := os }) ∧
      Moves w.st { w.st with owner := o, others := os } :=
  ⟨h.toCore.put ho h.bounds h.jobs fun hl => ⟨(h.lost hl).1, fun hu => hf ((h.lost hl).2 hu)⟩, rfl, id, hf⟩

/-- **A call of the owner by another client.** -/
theorem Fresh.client (h : Fresh latch i w) (m : Method) (hm : (conversation latch).enter w ctx m = true) :
    Core latch (w.put (client m w.st)) ∧ Moves w.st (client m w.st) := by
  have hsame : Core latch (w.put w.st) ∧ Moves w.st w.st := ⟨h.toCore, .refl w.st⟩
  cases m with
  | ownerBegin mode =>
    unfold Conversation.client
    dsimp only
    cases hb : w.st.owner.begin mode with
    | error x => exact hsame
    | ok v => exact h.owner (h.owning.begin_other hb) fun hf => absurd hb (begin_faulted hf _)
  | ownerCancel generation =>
    unfold Conversation.client
    dsimp only
    cases hc : w.st.owner.cancel generation with
    | error x => exact hsame
    | ok v => exact h.owner (h.owning.cancel hc) fun hf => cancel_faulted hf hc
  | ownerRelease g cleaned =>
    have hg : g ∈ w.st.others := by simpa [conversation] using hm
    unfold Conversation.client
    dsimp only
    cases hr : w.st.owner.release (some g) (some cleaned) with
    | error x => exact hsame
    | ok o => exact h.owner (h.owning.release_other hg hr) fun hf => absurd hr (release_faulted hf _)
  | fault g =>
    obtain rfl : latch = true := hm
    unfold Conversation.client
    dsimp only
    cases hr : w.st.owner.release (some g) (some false) with
    | error x => exact hsame
    | ok o => exact h.owner (h.owning.fault hr) fun hf => absurd hr (release_faulted hf _)
  | _ => exact hsame

/-- What a thread that found the conversation active counts. -/
theorem Fresh.counts (h : Fresh latch i w) (found : List Code) (waiting : ℕ) :
    Core latch (w.put { w.st with found := found, waiting := waiting }) ∧
      Moves w.st { w.st with found := found, waiting := waiting } :=
  ⟨h.toCore.put h.owning h.bounds h.jobs h.lost, rfl, id, id⟩

/-- **Every call leaves what it is to leave.** -/
theorem Fresh.body (h : Fresh latch i w) (m : Method) (hm : (conversation latch).enter w ctx m = true) :
    Holds (deskContract latch) ctx i (body m) (Leaves latch m.absorbs i w) w := by
  have hclient : Holds (deskContract latch) ctx i (silent (Prog.write (Conversation.client m)))
      (Leaves latch m.absorbs i w) w := by
    obtain ⟨hc, hmoves⟩ := h.client m hm
    exact h.writes (Conversation.client m) hc hmoves
  have hsilent : ∀ {p : DM Unit} {absorbs : Bool}, Holds (deskContract latch) ctx i p (Leaves latch absorbs i w) w →
      Holds (deskContract latch) ctx i (silent p) (Leaves latch absorbs i w) w := by
    intro p absorbs hp
    unfold silent
    rw [holds_bind]
    refine hp.mono fun r w' hleft => ?_
    cases r with
    | ok v => exact hleft.result (by simp)
    | error e => exact hleft.result (by simp)
  cases m with
  | enter channel => exact holds_enter h channel
  | submit value => exact holds_submit h value
  | clarify c => exact holds_clarify h c
  | poll => exact holds_poll h
  | exitKey key => exact holds_exitKey h key
  | cancelTurn => exact hsilent (holds_cancel h .canceled)
  | end' => exact hsilent (holds_cancel h .ended)
  | handoff => exact hsilent (holds_cancel h .handoff)
  | look code =>
    refine h.writes _ ?_ ?_
    · split
      · exact (h.counts _ _).1
      · exact h.toCore
    · split
      · exact (h.counts _ _).2
      · exact .refl w.st
  | strike code =>
    obtain ⟨hc, hmoves⟩ := h.counts (w.st.found.erase code) (w.st.waiting + 1)
    refine hsilent ?_
    rw [holds_bind, holds_write]
    dsimp only
    refine (holds_invalidate hc code).mono ?_
    rintro r w' ⟨rfl, s, rfl, hcore, hms, -⟩
    exact h.aside hcore (hmoves.trans hms)
  | resume =>
    obtain ⟨hc, hmoves⟩ := h.counts w.st.found (w.st.waiting - 1)
    refine hsilent ?_
    rw [holds_bind, holds_write]
    dsimp only
    refine (holds_resume (h.struck hc hmoves)).mono fun r w' hleft => ?_
    have hafter := hleft.after hmoves
    exact { hafter with absorbed := fun ha => by cases ha }
  | ownerBegin mode => exact hclient
  | ownerCancel generation => exact hclient
  | ownerRelease g cleaned => exact hclient
  | fault g => exact hclient

/-! ## The contract is kept -/

/-- A return, and what it owes. -/
theorem Leaves.returned {r : Except Exc Value} {m : Method} {s : Desk} (h : Leaves latch m.absorbs i w r w')
    (hw : w.st = s)
    (hi : ∀ e ∈ w'.log, e.frame = i → ∀ x, e.act = .invoke x → x = m ∧ e.st = s) :
    DInv latch (w'.push i (.ret r)) := by
  have howes : Owes ⟨i, .ret r, w'.st⟩ w'.log := by
    refine ⟨h.linked, fun r' hr e he hf x hx ha hb hfault hcalled hactive => ?_⟩
    cases hr
    obtain ⟨rfl, hst⟩ := hi e he hf x hx
    rw [hst, ← hw] at hb hfault ⊢
    rw [← h.absorbed ha hb hfault hcalled hactive]
    exact ⟨fun hd => ⟨⟨hd.display, hd.cleared⟩, hd.escapes⟩, fun ⟨hover, he⟩ => ⟨hover.display, hover.cleared, he⟩⟩
  refine ⟨⟨⟨howes, h.owes⟩, h.owning, h.bounds, h.jobs, h.lost⟩, rfl, fun hb => ?_⟩
  exact (h.rest hb).moves (.refl w'.st) Disturbed.cons

/-- **Every call keeps the contract.** -/
theorem desk_kept (latch : Bool) : (deskContract latch).Kept := by
  refine ⟨fun ctx m w hm hlog _ hinv => ?_, fun w s _ hc => (by cases hc)⟩
  have hnew : ∀ e ∈ w.log, e.frame ≠ w.next := fun e he => (hlog e he).ne
  have hpushed : Core latch (w.push w.next (.invoke m)) := hinv.toCore.push rfl hinv.level.linked
  have hfresh : Fresh latch w.next (w.enter m) := by
    refine ⟨⟨⟨hpushed.owes, hpushed.owning, hpushed.bounds, hpushed.jobs, hpushed.lost⟩, rfl, fun hb => ?_⟩, ?_, ?_⟩
    · exact (hinv.rest hb).moves (.refl w.st) Disturbed.cons
    · intro hb
      rcases broken_cons hb with ⟨e, he, hf, -⟩ | ⟨-, op, hact⟩
      · exact hnew e he hf
      · cases hact
    · rintro ⟨e, he, hf, op, hact⟩
      rcases List.mem_cons.1 he with rfl | he
      · cases hact
      · exact hnew e he hf
  have hinvoked : ∀ e ∈ (w.enter m).log, e.frame = w.next → ∀ x, e.act = .invoke x → x = m ∧ e.st = w.st := by
    intro e he hf x hx
    rcases List.mem_cons.1 he with rfl | he
    · cases hx
      exact ⟨rfl, rfl⟩
    · exact absurd hf (hnew e he)
  have hm' : (conversation latch).enter (w.enter m) ctx m = true := by
    cases m <;> exact hm
  refine ((hfresh.body m hm').invoked (P := fun x s => x = m ∧ s = w.st) hinvoked).mono ?_
  rintro r w' ⟨hleft, hi⟩
  refine ⟨hleft.returned rfl hi, hleft.idle, fun hb => ?_⟩
  obtain ⟨hmoves, hl⟩ := hleft.nested hb
  refine ⟨hmoves, ?_⟩
  show loose w'.log = loose w.log
  rw [hl]
  rfl

end Conversation

end Arhugula
