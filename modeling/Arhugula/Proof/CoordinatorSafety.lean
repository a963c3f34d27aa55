import Arhugula.Proof.CoordinatorTurns

/-!
# What the coordinator guarantees

In every run, whatever the callbacks do, and whoever calls again meanwhile: one turn is under way at most, and nothing is
left of it (`one_turn`); what ends clean was proven to have ended (`clean_end`); a fault is final (`fault_is_final`); the
router is told what was said once, by a fresh transcript (`told_once`); and what is observed of an activation is in order
(`observed_in_order`).
-/

namespace Arhugula

namespace Coordinate

open Reentrant Session
open Capture (Frame CaptureResult)
open Voice (VoiceReply)

variable {C : Type} [DecidableEq C] {u : Setup C} {w w₀ : CWorld C} {i : ℕ} {ctx : List (ℕ × Op C)} {α : Type}
  {P : Core C → List Effect → Prop} {M : List (CEntry C)}

/-! ## Confirmations, and what is abandoned -/

/-- What is current was given to an activation. -/
theorem current_holds {Q : Except Exc Bool → CWorld C → Prop} (h : Known P M w)
    (hok : ∀ b w', Known (fun k E => P k E ∧ (b = true → k.snapshot.isSome)) M w' → Q (.ok b) w') :
    Holds (contract u) ctx i current Q w := by
  have hfail : ∀ w' : CWorld C, Known P M w' → Q (.ok false) (w'.put { w'.st with valid := false }) := by
    intro w' h'
    have hfalse : Known (fun k E => P k E ∧ (false = true → k.snapshot.isSome)) M w' := h'.mono fun _ _ hp => ⟨hp, fun hb => by cases hb⟩
    exact hok false _ ((steady_known : Steady u ctx i _).write w' _ hfalse rfl (fun _ _ ho => ho) le_rfl)
  have hgood : ∀ (good : Bool) (w' : CWorld C), Known (fun k E => P k E ∧ (good = true → k.snapshot.isSome)) M w' →
      Holds (contract u) ctx i (if good then pure true else do
        Prog.write fun s : Coordinator C => { s with valid := false }
        pure false) Q w' := by
    intro good w' h'
    cases good with
    | true => exact hok true w' h'
    | false => exact hfail w' (h'.mono fun _ _ hp => hp.1)
  unfold current authority
  refine holds_bind.2 (holds_catching.2 (holds_bind.2 (look_holds h (fun v w₁ h₁ _ => ?_) fun _ w₁ h₁ => hfail w₁ h₁)))
  dsimp only
  rw [holds_bind, holds_read]
  dsimp only [id]
  by_cases hstands : w₁.st.stands v = true
  · rw [if_pos hstands]
    have hsnapshot : w₁.st.snapshot.isSome = true := by
      unfold Coordinator.stands at hstands
      cases hs : w₁.st.snapshot with
      | none => simp [hs] at hstands
      | some x => rfl
    have h₂ : Known (fun k E => P k E ∧ k.snapshot.isSome) M w₁ := ⟨h₁.base, h₁.busy, ⟨h₁.holds, hsnapshot⟩, h₁.given⟩
    cases w₁.st.generation with
    | none => exact hgood true w₁ (h₂.mono fun _ _ hp => ⟨hp.1, fun _ => hp.2⟩)
    | some g =>
      refine (keeps_proves (steady_known.silent ⟨rfl, rfl, fun _ => rfl⟩)).holds h₂ (fun b w₃ h₃ _ => ?_) fun _ w₃ h₃ =>
        hfail w₃ (h₃.mono fun _ _ hp => hp.1)
      exact hgood b w₃ (h₃.mono fun _ _ hp => ⟨hp.1, fun _ => hp.2⟩)
  · rw [if_neg hstands]
    exact hgood false w₁ (h₁.mono fun _ _ hp => ⟨hp, fun hb => by cases hb⟩)

/-- **A confirmation** begins a turn and ends it. -/
theorem confirmPending_holds {token channel : String} {accepted : Bool}
    (h : Known (fun k E => (Rested k E ∧ k.phase = .idle) ∧ k.snapshot.isSome) M w) :
    Holds (contract u) ctx i (confirmPending u token channel accepted) (fun _ w' => Known Live M w') w := by
  obtain ⟨⟨hrested, hidle⟩, hsnapshot⟩ := h.holds
  unfold confirmPending
  refine holds_bind.2 (begin_holds h hrested hidle (fun g w₁ h₁ _ _ => ?_) fun _ w₁ h₁ => h₁.mono fun k E hp => ?_)
  · obtain ⟨s, hstage⟩ := Option.isSome_iff_exists.1 (h.base.observed w.st.activation)
    have hfaulted : s ≠ .faulted := by
      intro hs
      subst hs
      have hf := hrested.linked.faulted hstage
      rw [hidle] at hf
      cases hf
    have hgoing : Going g .idle s { w.st.toCore with generation := some g } (.begun g :: effects w.log) := by
      refine ⟨⟨rfl, ?_, ?_, fun hp => ?_, fun hp => ?_, fun hf => ?_⟩, rfl, hidle, hstage, hsnapshot⟩
      · show none = if w.st.device then some w.st.deviceCleaned else none
        rw [hrested.device]
        rfl
      · exact hrested.job.symm
      · have hp : w.st.phase = .processing ∨ w.st.phase = .routing := hp
        simp [hidle] at hp
      · rfl
      · exact hrested.linked.faulted hf
    have h₂ : Known (Going g .idle s) M w₁ := h₁.mono fun k E hp => by
      obtain ⟨rfl, rfl⟩ := hp
      exact hgoing
    have hsteady : Steady u ctx i (Known (Going g .idle s) M) := steady_known
    have hfail : ∀ w' : CWorld C, Known (Going g .idle s) M w' → Holds (contract u) ctx i (do
        fail u "context.stale"
        pure unavailable) (fun _ w₂ => Known Live M w₂) w' := fun w' h' =>
      holds_bind.2 (fail_holds h' (.inl hfaulted) fun w₂ h₂ => h₂.mono fun _ _ hp => .rested hp)
    dsimp only
    rw [holds_bind, holds_write]
    have h₃ := hsteady.write w₁ { w₁.st with pending := none } h₂ rfl (fun _ _ ho => ho) le_rfl
    unfold confirmed
    refine holds_catching.2 ((keeps_work (.confirm token channel accepted) rfl (fun _ => rfl) (fun _ _ hp => hp)
      (by simp)).seq h₃ (fun a w₄ h₄ _ => ?_) fun _ w₄ h₄ => hfail w₄ h₄)
    cases a with
    | reply r =>
      refine holds_bind.2 (conclude_holds h₄ (by simp) hfaulted fun w₅ h₅ => ?_)
      exact h₅.mono fun _ _ hp => .rested hp
    | _ => exact hfail w₄ h₄
  · obtain ⟨rfl, rfl⟩ := hp
    exact .rested hrested

theorem confirmBody_holds {token : Option String} {channel : String} {accepted : Option Bool} (h : Known Live M w) :
    Holds (contract u) ctx i (confirmBody u token channel accepted) (fun _ w' => Known Live M w') w := by
  unfold confirmBody
  rw [holds_bind, holds_read]
  dsimp only [id]
  cases token with
  | none => exact h
  | some token =>
    cases accepted with
    | none => exact h
    | some accepted =>
      dsimp only
      split
      · rename_i hcond
        simp only [Bool.and_eq_true, decide_eq_true_eq] at hcond
        have hidle : w.st.phase = .idle := hcond.1.1
        have hrested : Rested w.st.toCore (effects w.log) := by
          cases h.holds with
          | rested hr => exact hr
          | capturing g hg => exact absurd (hg.phase.symm.trans hidle) (by simp)
          | processing g hg => exact absurd (hg.phase.symm.trans hidle) (by simp)
        have h₀ : Known (fun k E => Rested k E ∧ k.phase = .idle) M w := ⟨h.base, h.busy, ⟨hrested, hidle⟩, h.given⟩
        refine holds_bind.2 (current_holds h₀ fun b w₁ h₁ => ?_)
        cases b with
        | true => exact confirmPending_holds (h₁.mono fun _ _ hp => ⟨hp.1, hp.2 rfl⟩)
        | false => exact h₁.mono fun _ _ hp => .rested hp.1.1
      · exact h

/-- **What is under way is abandoned.** -/
theorem abandon_holds (h : Known Live M w) : Holds (contract u) ctx i (abandon u) (fun _ w' => Known Live M w') w := by
  unfold abandon
  rw [holds_bind, holds_read]
  dsimp only
  cases hgeneration : w.st.generation with
  | some g =>
    have hfail : ∀ g' p s, Going g' p s w.st.toCore (effects w.log) → Fits p s →
        Holds (contract u) ctx i (fail u "capture.canceled") (fun _ w' => Known Live M w') w := fun g' p s hg hfits =>
      fail_holds ⟨h.base, h.busy, hg, h.given⟩ (.inl hfits) fun w₁ h₁ => h₁.mono fun _ _ hp => .rested hp
    cases h.holds with
    | rested hr => exact absurd (hr.generation.symm.trans hgeneration) (by simp)
    | capturing g' hg => exact hfail g' _ _ hg trivial
    | processing g' hg => exact hfail g' _ _ hg trivial
  | none =>
    have hrested : Known Rested M w := ⟨h.base, h.busy, h.holds.resting hgeneration, h.given⟩
    refine holds_bind.2 (stopSpeech_holds hrested steady_known fun b w₁ h₁ => ?_)
    cases b with
    | true => exact h₁.mono fun _ _ hp => .rested hp
    | false =>
      have hl := h₁.holds.linked
      refine h₁.put _ (h₁.base.put _ (fun hf => absurd rfl hf) (fun _ hg => hg) rfl rfl) rfl (.rested ⟨⟨hl.held, hl.device, hl.job,
        fun hp => ?_, fun hp => ?_, fun _ => rfl⟩, h₁.holds.generation, .inr rfl, h₁.holds.device, h₁.holds.job⟩)
      · rcases hp with hp | hp <;> cases hp
      · rcases hp with hp | hp <;> cases hp

/-! ## Methods -/

/-- **A method that needs the lock** runs where no other does, or it is refused. -/
theorem exclusive_holds {refused p : CM C α} (h : Aside w₀ w) (hM : M ⊆ w.log)
    (hrefused : ∀ w' : CWorld C, Aside w₀ w' → Holds (contract u) ctx i refused (fun _ w₂ => Aside w₀ w₂) w')
    (hp : ∀ w₁ : CWorld C, Known Live M w₁ → w₁.st.phase = w.st.phase →
      Holds (contract u) ctx i p (fun _ w₂ => Known Live M w₂) w₁) :
    Holds (contract u) ctx i (exclusive refused p) (fun _ w₂ => Aside w₀ w₂) w := by
  unfold exclusive
  rw [holds_bind, holds_read]
  dsimp only
  cases hbusy : w.st.busy with
  | true => exact hrefused w h
  | false =>
    have hfree : w₀.st.busy = false := by
      cases hb : w₀.st.busy with
      | false => rfl
      | true =>
        have hcore := congrArg Core.busy (h.rel.held hb).1
        rw [hb] at hcore
        exact absurd (hcore.symm.trans hbusy) (by simp)
    have h₁ : Known Live M (w.put { w.st with busy := true }) :=
      ⟨h.inv.base.put _ id (fun _ hg => hg) rfl rfl, rfl, (h.inv.live hbusy).busy true, hM⟩
    rw [if_neg (by simp), holds_bind, holds_write]
    refine holds_lastly.2 ((hp _ h₁ rfl).mono fun r w₂ h₂ => ?_)
    exact ⟨⟨h₂.base.put _ id (fun _ hg => hg) rfl rfl, fun _ => h₂.holds.busy false⟩, fun hb => absurd (hfree.symm.trans hb) (by simp),
      fun _ => rfl⟩

theorem settle_holds (h : Aside w₀ w) : Holds (contract u) ctx i (settle u) (fun _ w' => Aside w₀ w') w := by
  have hsteady : Steady u ctx i (Aside w₀) := steady_aside w₀
  have h₁ := hsteady.write w { w.st with valid := false, pending := none, confirming := none } h rfl (fun _ _ ho => ho) le_rfl
  unfold settle
  rw [holds_bind, holds_write]
  exact exclusive_holds (M := []) h₁ (List.nil_subset _) (fun _ h' => h') fun w₂ h₂ _ => abandon_holds h₂

theorem holds_mapped {α β : Type} {L : CWorld C → Prop} {p : CM C α} (f : α → β)
    (h : Holds (contract u) ctx i p (fun _ w' => L w') w) : Holds (contract u) ctx i (f <$> p) (fun _ w' => L w') w :=
  holds_bind.2 (h.mono fun r _ hr => by cases r <;> exact hr)

theorem activate_holds (h : Aside w₀ w) (token : Option String) (correlation : String) :
    Holds (contract u) ctx i (activate u token correlation) (fun _ w' => Aside w₀ w') w := by
  unfold activate
  rw [holds_bind, holds_read]
  dsimp only [id]
  split
  · rename_i hidle
    refine exclusive_holds (M := []) h (List.nil_subset _) (fun _ h' => h') fun w₁ h₁ hphase => ?_
    have hp : w₁.st.phase = .idle := hphase.trans hidle
    have hrested : Known Rested [] w₁ := by
      refine ⟨h₁.base, h₁.busy, ?_, h₁.given⟩
      cases h₁.holds with
      | rested hr => exact hr
      | capturing g hg => exact absurd (hg.phase.symm.trans hp) (by simp)
      | processing g hg => exact absurd (hg.phase.symm.trans hp) (by simp)
    exact activateBody_holds hrested hp token correlation
  · exact h

theorem poll_holds (h : Aside w₀ w) : Holds (contract u) ctx i (poll u) (fun _ w' => Aside w₀ w') w := by
  unfold poll
  rw [holds_bind, holds_read]
  dsimp only [id]
  split
  · rename_i hactive
    refine exclusive_holds (M := []) h (List.nil_subset _) (fun _ h' => h') fun w₁ h₁ hphase => ?_
    refine failing_holds (M := []) ((tick_ticks h₁ (hphase.symm ▸ hactive)).mono fun r w₂ hr => ⟨hr.1, hr.2⟩) fun w₂ h₂ => ?_
    exact h₂.mono fun _ _ hp => .rested hp
  · exact h

/-- **Every method** does what other calls may do. -/
theorem body_holds (meth : Method) (h : Aside w₀ w) (hgiven : ∀ r, meth = .transcribed (some r) → ∃ z ∈ w.log, Given r z)
    (hforeign : ∀ call, meth = .client call → isForeign w.st call = true) :
    Holds (contract u) ctx i (body u meth) (fun _ w' => Aside w₀ w') w := by
  have hsteady : Steady u ctx i (Aside w₀) := steady_aside w₀
  have hmark : Keeps (contract u) ctx i (Aside w₀) (Prog.write fun s : Coordinator C => { s with requested := true }) fun _ => True :=
    hsteady.volatile (fun _ => rfl) fun _ => rfl
  have hrequest : Keeps (contract u) ctx i (Aside w₀) (request : CM C Unit) fun _ => True :=
    hmark.bind fun _ _ => keeps_invalidateOwned hsteady
  cases meth with
  | activate token correlation => exact holds_mapped _ (activate_holds h token correlation)
  | feed generation frame sequence =>
    refine holds_mapped _ (exclusive_holds (M := []) h (List.nil_subset _) (fun _ h' => h') fun w₁ h₁ _ => ?_)
    exact feedFrame_holds h₁ fun _ h₂ => h₂
  | transcribed r =>
    cases r with
    | none => exact holds_mapped _ (exclusive_holds (M := []) h (List.nil_subset _) (fun _ h' => h') fun _ h₁ _ => h₁)
    | some r =>
      obtain ⟨z, hz, hgive⟩ := hgiven r rfl
      refine holds_mapped _ (exclusive_holds (M := [z]) h (by simpa using hz) (fun _ h' => h') fun w₁ h₁ _ => ?_)
      exact transcribedBody_holds h₁ ⟨z, List.mem_singleton_self z, hgive⟩ fun _ _ h₂ => h₂
  | poll => exact holds_mapped _ (poll_holds h)
  | cancel =>
    refine holds_mapped _ (hrequest.seq h (fun _ w₁ h₁ _ => settle_holds h₁) fun _ _ h₁ => h₁)
  | request => exact holds_mapped _ (hrequest.holds h (fun _ _ h₁ _ => h₁) fun _ _ h₁ => h₁)
  | settle => exact holds_mapped _ (settle_holds h)
  | confirm token channel accepted =>
    refine holds_mapped _ (exclusive_holds (M := []) h (List.nil_subset _) (fun _ h' => h') fun w₁ h₁ _ => confirmBody_holds h₁)
  | routerState =>
    refine holds_mapped _ ((keeps_current hsteady).seq h (fun good w₁ h₁ _ => ?_) fun _ _ h₁ => h₁)
    rw [holds_bind, holds_read]
    dsimp only [id]
    split
    · exact h₁
    · exact h₁
  | client call =>
    refine hsteady.owner call h fun g hg z c hcall hpositive => ?_
    have hcond := hforeign call rfl
    subst hcall
    simp [isForeign, hg, hpositive] at hcond

/-- **The invariant is kept.** -/
theorem kept : (contract (C := C) u).Kept where
  method ctx meth w henter _ _ hinv := by
    have hb : Base (w.push w.next (.invoke meth)) := (Inv.base hinv).idle (fun _ hc => by cases hc) rfl
    have hpushed : Aside w (w.push w.next (.invoke meth)) := Aside.push ⟨hinv, (contract u).refl [] w⟩ hb rfl
    have hentered : Aside w (w.enter meth) :=
      ⟨⟨⟨hb.safe, hb.calm, hb.observed, hb.known, hb.activation, hb.owns⟩, hpushed.inv.live⟩, hpushed.rel.held, hpushed.rel.free⟩
    refine (body_holds meth hentered (fun r hr => ?_) fun call hcall => ?_).mono fun r w' h' => ?_
    · subst hr
      exact ⟨_, List.mem_cons_self, .inr rfl⟩
    · subst hcall
      exact henter
    · have hret : Aside w (w'.push w.next (.ret r)) := h'.push (h'.inv.base.idle (fun _ hc => by cases hc) rfl) rfl
      exact ⟨hret.inv, hret.rel⟩
  crash _ _ _ h := by cases h

/-- **In every run** the invariant holds, and nothing has the lock where nothing is under way. -/
theorem reachable_inv {o : SessionOwner} {c : CConfig C}
    (h : (machine u).Reachable (.new o) c) : Inv c.w ∧ (c.stack = [] → c.w.st.busy = false) := by
  refine Contract.sound_idle (K := contract u) (B := fun w => w.st.busy = false) kept (fun _ _ hb hrel => Rel.free hrel hb)
    (fun _ _ hc => by cases hc) ⟨⟨trivial, fun _ _ hz => (by cases hz), fun _ => rfl, fun _ _ _ he => (by cases he),
      fun _ ha => (by cases ha), fun _ hg => (by cases hg)⟩, fun _ => ?_⟩ rfl h
  refine .rested ⟨⟨rfl, rfl, rfl, fun hp => ?_, fun hp => ?_, fun hf => ?_⟩, rfl, .inl rfl, rfl, rfl⟩
  · rcases hp with hp | hp <;> cases hp
  · rcases hp with hp | hp <;> cases hp
  · cases hf

/-! ## The guarantees -/

namespace Example

/-- Neither a device nor speech. -/
def setup : Setup Unit := ⟨false, false, fun _ => true⟩

/-- A state. -/
def state : VoiceState Unit := ⟨(), "k", "a", false, "command"⟩

/-- What passes a check. -/
def checked : List (Input (Answer Unit) Method) := [.reply (.voice state), .reply (.truth true), .reply (.time (.finite 0))]

/-- A recording begins. -/
def activated (g : ℕ) : List (Input (Answer Unit) Method) :=
  .invoke (.activate none "c") :: .reply (.voice state) :: .reply (.generation g) :: .reply (.time (.finite 0)) :: .reply .done ::
    checked ++ .reply (.capture ⟨.recording, .started, none, []⟩) :: checked

/-- A frame. -/
def frame : Frame :=
  ⟨List.replicate 640 0, true, List.cons_ne_nil _ (List.replicate 639 0), by rw [List.length_replicate]; decide⟩

/-- It ends, and is transcribed. -/
def recorded : List (Input (Answer Unit) Method) :=
  .invoke (.feed (some 1) (some frame) none) :: checked ++ .reply (.capture ⟨.processing, .silence, none, []⟩) :: checked ++
    .reply .done :: checked ++ .reply .done :: checked ++ .reply .object :: checked ++ .reply (.time (.finite 0)) ::
      .reply .done :: checked

/-- The transcript is routed. -/
def routed : List (Input (Answer Unit) Method) :=
  .invoke (.transcribed (some ⟨1, .success, some "hi", "transcription.ok"⟩)) :: checked ++ .reply (.truth true) ::
    .reply .done :: checked ++ ([.reply (.reply (Voice.blocked "c")), .reply .done, .reply (.truth true),
      .reply (.truth true), .reply (.truth true), .reply .done] : List (Input (Answer Unit) Method))

/-- A turn is canceled, and its capture does not end. -/
def faulted : List (Input (Answer Unit) Method) :=
  .invoke .cancel :: [.reply .done, .reply .done, .reply (.truth false), .reply .done, .reply (.truth false), .reply .done,
    .reply .done, .reply .done]

/-- The router is told. -/
def tells (z : CEntry Unit) : Bool :=
  match z.act with
  | .call (.handle text) => text = "hi"
  | _ => false

/-- The turn ends clean. -/
def cleans (z : CEntry Unit) : Bool :=
  match z.act with
  | .call (.release g clean) => g = 1 && clean
  | _ => false

/-- There is a fault. -/
def fails (z : CEntry Unit) : Bool := z.st.phase = .faulted

/-- A turn that is routed, and one that is canceled. -/
theorem ran : ∃ c : CConfig Unit, (machine setup).Reachable (.new (.new "s")) c ∧
    (c.stack.isEmpty && c.w.log.any tells && c.w.log.any cleans && c.w.log.any fails) = true :=
  Machine.Reachable.of_run _ _ (activated 1 ++ recorded ++ routed ++ activated 2 ++ faulted) _ (by decide +kernel)

/-- An entry that is looked for is somewhere in the log. -/
theorem found {test : CEntry Unit → Bool} {log : List (CEntry Unit)} (h : log.any test = true) :
    ∃ newer z older, log = newer ++ z :: older ∧ test z = true := by
  obtain ⟨z, hz, ht⟩ := List.any_eq_true.1 h
  obtain ⟨newer, older, rfl⟩ := List.append_of_mem hz
  exact ⟨newer, z, older, rfl, ht⟩

end Example

section Guarantees

variable {o : SessionOwner} {c : CConfig C} {newer older : List (CEntry C)}
  {z : CEntry C}

theorem safe_at (h : (machine u).Reachable (.new o) c) (hlog : c.w.log = newer ++ z :: older) : Safe z older := by
  have hsafe := (reachable_inv h).1.base.safe
  rw [hlog] at hsafe
  exact hsafe.at

/-- **One turn at a time**: a generation is begun where none is held, and released where it is the one held; and where no
call is under way, what is held is recorded or transcribed, and it is held of the owner too. -/
theorem one_turn (h : (machine u).Reachable (.new o) c) :
    (∀ newer z older, c.w.log = newer ++ z :: older →
      (∀ g, effect z.act = some (.begun g) → (turn (effects older)).held = none) ∧
        ∀ g, effect z.act = some (.released g) → (turn (effects older)).held = some g) ∧
      (c.stack = [] → (turn (effects c.w.log)).held = c.w.st.generation ∧
        (c.w.st.generation.isSome ↔ c.w.st.phase = .capturing ∨ c.w.st.phase = .processing) ∧
        ∀ g, c.w.st.generation = some g → Owns c.w.st.owner g) := by
  obtain ⟨hinv, hfree⟩ := reachable_inv h
  refine ⟨fun newer z older hlog => ⟨(safe_at h hlog).begun, (safe_at h hlog).released⟩, fun hidle => ?_⟩
  cases hinv.live (hfree hidle) with
  | rested hr =>
    refine ⟨hr.linked.held, ?_, hinv.base.owns⟩
    rw [hr.generation]
    rcases hr.phase with hp | hp <;> rw [hp] <;> simp
  | capturing g hg =>
    refine ⟨hg.linked.held, ?_, hinv.base.owns⟩
    rw [hg.generation, hg.phase]
    simp
  | processing g hg =>
    refine ⟨hg.linked.held, ?_, hinv.base.owns⟩
    rw [hg.generation, hg.phase]
    simp

theorem one_turn_run : ∃ c : CConfig Unit, (machine Example.setup).Reachable (.new (.new "s")) c ∧ c.stack = [] ∧
    (turn (effects c.w.log)).held = c.w.st.generation := by
  obtain ⟨c, hc, hx⟩ := Example.ran
  simp only [Bool.and_eq_true, List.isEmpty_iff] at hx
  exact ⟨c, hc, hx.1.1.1, ((one_turn hc).2 hx.1.1.1).1⟩

/-- **What ends clean has ended**: a generation is released as cleaned up after its device was stopped, its job was done,
and the capture was idle, each of which was proven when it was last asked. -/
theorem clean_end (h : (machine u).Reachable (.new o) c) (hlog : c.w.log = newer ++ z :: older) {g : ℕ}
    (hz : z.act = .call (.release g true)) : (turn (effects older)).Clean :=
  (safe_at h hlog).clean g hz

theorem clean_end_run : ∃ (c : CConfig Unit) (newer : List (CEntry Unit)) (z : CEntry Unit) (older : List (CEntry Unit)),
    (machine Example.setup).Reachable (.new (.new "s")) c ∧ c.w.log = newer ++ z :: older ∧
      z.act = .call (.release 1 true) ∧ (turn (effects older)).Clean := by
  obtain ⟨c, hc, hx⟩ := Example.ran
  simp only [Bool.and_eq_true] at hx
  obtain ⟨newer, z, older, hlog, hz⟩ := Example.found hx.1.2
  have hact : z.act = .call (.release 1 true) := by
    unfold Example.cleans at hz
    split at hz
    · rename_i g clean hact
      rw [Bool.and_eq_true, decide_eq_true_eq] at hz
      rw [hact, hz.1, hz.2]
    · cases hz
  exact ⟨c, newer, z, older, hc, hlog, hact, clean_end hc hlog hact⟩

/-- **A fault is final**: nothing is begun after it, and no capture, device, job or router works. -/
theorem fault_is_final (h : (machine u).Reachable (.new o) c) (hlog : c.w.log = newer ++ z :: older)
    (hz : z.st.phase = .faulted) : c.w.st.phase = .faulted ∧ ∀ y ∈ newer, y.st.phase = .faulted ∧ y.act ≠ .call .begin ∧
      ∀ op, y.act = .call op → op.works = false ∧ ∀ text, op ≠ .handle text ∧ ∀ token, op ≠ .answer token text := by
  have hbase := (reachable_inv h).1.base
  refine ⟨?_, fun y hy => ?_⟩
  · by_contra hne
    refine hbase.calm hne z ?_ hz
    rw [hlog]
    exact List.mem_append_right _ List.mem_cons_self
  · obtain ⟨last, first, rfl⟩ := List.append_of_mem hy
    have hsafe : Safe y (first ++ z :: older) := safe_at h (by rw [hlog, List.append_assoc]; rfl)
    have hfault : y.st.phase = .faulted := by
      by_contra hne
      exact hsafe.calm hne z (List.mem_append_right _ List.mem_cons_self) hz
    refine ⟨hfault, fun hbegin => ?_, fun op hop => ⟨?_, fun text => ⟨fun ht => ?_, fun token ht => ?_⟩⟩⟩
    · have hidle := hsafe.begins hbegin
      rw [hfault] at hidle
      cases hidle
    · cases hw : op.works with
      | false => rfl
      | true => exact absurd hfault (hsafe.works op hop hw).1
    · subst ht
      have hrouting := (hsafe.handled text hop).1
      rw [hfault] at hrouting
      cases hrouting
    · subst ht
      have hrouting := (hsafe.answered token text hop).1
      rw [hfault] at hrouting
      cases hrouting

theorem fault_is_final_run : ∃ (c : CConfig Unit) (z : CEntry Unit), (machine Example.setup).Reachable (.new (.new "s")) c ∧
    z ∈ c.w.log ∧ z.st.phase = .faulted ∧ c.w.st.phase = .faulted := by
  obtain ⟨c, hc, hx⟩ := Example.ran
  simp only [Bool.and_eq_true] at hx
  obtain ⟨newer, z, older, hlog, hz⟩ := Example.found hx.2
  have hfault : z.st.phase = .faulted := of_decide_eq_true hz
  exact ⟨c, z, hc, hlog ▸ List.mem_append_right _ List.mem_cons_self, hfault, (fault_is_final hc hlog hfault).1⟩

/-- **The router is told once what was said**: the text of a transcript of the turn that is under way, whose device is
stopped and whose job is done, by an activation that is checked to stand right before. -/
theorem told_once (h : (machine u).Reachable (.new o) c) (hlog : c.w.log = newer ++ z :: older) {text : String}
    (hz : z.act = .call (.handle text) ∨ ∃ token, z.act = .call (.answer token text)) : Told text older := by
  rcases hz with hz | ⟨token, hz⟩
  · exact ((safe_at h hlog).handled text hz).2
  · exact ((safe_at h hlog).answered token text hz).2

theorem told_once_run : ∃ (c : CConfig Unit) (newer : List (CEntry Unit)) (z : CEntry Unit) (older : List (CEntry Unit)),
    (machine Example.setup).Reachable (.new (.new "s")) c ∧ c.w.log = newer ++ z :: older ∧
      z.act = .call (.handle "hi") ∧ Told "hi" older := by
  obtain ⟨c, hc, hx⟩ := Example.ran
  simp only [Bool.and_eq_true] at hx
  obtain ⟨newer, z, older, hlog, hz⟩ := Example.found hx.1.1.2
  have hact : z.act = .call (.handle "hi") := by
    unfold Example.tells at hz
    split at hz
    · rename_i text hact
      rw [hact, of_decide_eq_true hz]
    · cases hz
  exact ⟨c, newer, z, older, hc, hlog, hact, told_once hc hlog (.inl hact)⟩

/-- **What is observed of an activation is in order.** -/
theorem observed_in_order (h : (machine u).Reachable (.new o) c) (activation : Option ℕ) :
    (stage activation (effects c.w.log)).isSome :=
  (reachable_inv h).1.base.observed activation

theorem observed_in_order_run : ∃ c : CConfig Unit, (machine Example.setup).Reachable (.new (.new "s")) c ∧
    (stage (some 2) (effects c.w.log)).isSome := by
  obtain ⟨c, hc, -⟩ := Example.ran
  exact ⟨c, hc, observed_in_order hc (some 2)⟩

end Guarantees

end Coordinate

end Arhugula
