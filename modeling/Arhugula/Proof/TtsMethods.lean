import Arhugula.Proof.TtsSteps

/-!
# The methods of a speech output

`holds_obtain` and what follows it: each operation of `_run` leaves a call that accounts for what is due,
also where it fails. `output_kept`: every method keeps the contract.
-/

namespace Arhugula

namespace Tts

open Reentrant Session

variable {digest : Providers.Manifest → String} {b : Binding} {w w' w₁ w₂ : TWorld digest}
  {d d' s : TtsOutput} {log log' : List (TEntry digest)} {ctx : List (ℕ × Op)} {i : ℕ} {op : Op} {c c' : Call}
  {α : Type} {r : Except Exc α}

/-! ## Parts of an operation -/

/-- **What a part of an operation leaves**, also where it fails. -/
structure Ended (E : TWorld digest → Prop) (r : Except Exc α) (w : TWorld digest) : Prop extends Live w where
  interrupt : r = .error .interrupt → Disturbed w.log
  done : ∀ a, r = .ok a → E w

/-- What an operation leaves that does not fail. -/
def Settled (w : TWorld digest) : Prop := Disturbed w.log ∨ Early w.st

theorem Settled.of_phase (h : w.st.phase ≠ .synthesizing) : Settled w := .inr fun hp => absurd hp h

theorem Ended.error {E : TWorld digest → Prop} {e : Exc} (h : Live w) (he : e = .interrupt → Disturbed w.log) :
    Ended E (Except.error e : Except Exc α) w :=
  ⟨h, fun hr => (by cases hr; exact he rfl), fun a ha => (by cases ha)⟩

/-- A stretch that failed. -/
theorem Live.failed {β : Type} {E : TWorld digest → Prop} {e : Exc} (h : Live w) (hp : Passed w (Except.error e : Except Exc β) w') :
    Ended E (Except.error e : Except Exc α) w' :=
  .error (h.passed hp) fun he => hp.interrupt (by rw [he])

/-- A change of the call that leaves what it accounts for. -/
theorem Live.change (h : Live w) (hc : w.st.call = some c) {f : Call → Call} (hs : ∀ c, (f c).snapshot = c.snapshot)
    (he : ∀ c, (f c).epoch = c.epoch) (hsound : ∀ u fault, Sound u (some c) fault → Sound u (some (f c)) fault) :
    Live (w.put (w.st.change f)) := by
  refine ⟨h.toMid.change hs he, h.sound.imp_right fun hk => ?_⟩
  rw [hc] at hk
  show Sound (due w.log) (w.st.call.map f) w.st.fault
  rw [hc]
  exact hsound _ _ hk

/-- A write of the call, with the call that it leaves. -/
theorem Mid.changed (h : Mid w) (hc : w.st.call = some c) {f : Call → Call} (hs : ∀ c, (f c).snapshot = c.snapshot)
    (he : ∀ c, (f c).epoch = c.epoch) : Mid (w.put (w.st.change f)) ∧ (w.put (w.st.change f)).st.call = some (f c) := by
  refine ⟨h.change hs he, ?_⟩
  show w.st.call.map f = some (f c)
  rw [hc]
  rfl

/-- What a call accounts for rests on five of its fields. -/
theorem Sound.congr {u : Due} {fault : Bool} (h : Sound u (some c) fault) (hm : c'.mix = c.mix)
    (hp : c'.player = c.player) (hg : c'.gatewayOwned = c.gatewayOwned) (hu : c'.unknown = c.unknown)
    (hs : c'.synthesisClean = c.synthesisClean) : Sound u (some c') fault := by
  refine ⟨h.leases.trans ?_, h.players.trans ?_, h.accepted.trans hg.symm, h.canceled, ?_⟩
  · show c.mix.toList = c'.mix.toList
    rw [hm]
  · show c.player.toList = c'.player.toList
    rw [hp]
  · rcases h.clean with hclean | hfault | ⟨x, hx, hd⟩
    · exact .inl hclean
    · exact .inr (.inl hfault)
    · cases hx
      refine .inr (.inr ⟨c', rfl, ?_⟩)
      rw [hu, hs]
      exact hd

/-! ## Obtaining -/

/-- What a call obtains for its playback. -/
inductive Resource where
  | mix | player

/-- Its factory. -/
def Resource.factory : Resource → Op
  | .mix => .mixes
  | .player => .players

/-- The field of the call that keeps it. -/
def Resource.keep : Resource → Option ℕ → Call → Call
  | .mix, n, c => { c with mix := n }
  | .player, n, c => { c with player := n }

/-- What the call keeps of it. -/
def Resource.kept : Resource → Call → Option ℕ
  | .mix, c => c.mix
  | .player, c => c.player

@[simp] theorem Resource.keep_snapshot (x : Resource) (n : Option ℕ) : (x.keep n c).snapshot = c.snapshot := by
  cases x <;> rfl

@[simp] theorem Resource.keep_epoch (x : Resource) (n : Option ℕ) : (x.keep n c).epoch = c.epoch := by
  cases x <;> rfl

@[simp] theorem Resource.keep_unknown (x : Resource) (n : Option ℕ) : (x.keep n c).unknown = c.unknown := by
  cases x <;> rfl

/-- A handle that was given is due, and kept. -/
theorem Sound.obtain {u : Due} {fault : Bool} (h : Sound u (some c) fault) (x : Resource) (hn : x.kept c = none)
    (hu : c.unknown = true) (n : ℕ) (complete : Bool) :
    Sound (u.reply x.factory (.handle n complete : Answer digest)) (some (x.keep (some n) c)) fault := by
  cases x with
  | mix =>
    have hnone : u.leases = [] := by
      rw [h.leases]
      show c.mix.toList = []
      rw [show c.mix = none from hn]
      rfl
    refine ⟨?_, h.players, h.accepted, h.canceled, .inr (.inr ⟨_, rfl, .inl hu⟩)⟩
    show n :: u.leases = [n]
    rw [hnone]
  | player =>
    have hnone : u.players = [] := by
      rw [h.players]
      show c.player.toList = []
      rw [show c.player = none from hn]
      rfl
    refine ⟨h.leases, ?_, h.accepted, h.canceled, .inr (.inr ⟨_, rfl, .inl hu⟩)⟩
    show n :: u.players = [n]
    rw [hnone]

/-- Where no handle was given, none is kept, and the outcome stays unknown. -/
theorem Sound.missed {u : Due} {fault : Bool} (h : Sound u (some c) fault) (x : Resource) (hn : x.kept c = none)
    (hu : c.unknown = true) {a : Answer digest} (ha : ∀ n complete, a ≠ .handle n complete) :
    Sound (u.reply x.factory a) (some c) fault ∧ Sound (u.reply x.factory a) (some (x.keep none c)) fault := by
  have hreply : u.reply x.factory a = { u with clean := false } := by
    cases x with
    | mix =>
      cases a with
      | handle n complete => exact absurd rfl (ha n complete)
      | _ => rfl
    | player =>
      cases a with
      | handle n complete => exact absurd rfl (ha n complete)
      | _ => rfl
  have hkeep : x.keep none c = c := by
    cases x with
    | mix =>
      show ({ c with mix := none } : Call) = c
      rw [← show c.mix = none from hn]
    | player =>
      show ({ c with player := none } : Call) = c
      rw [← show c.player = none from hn]
  have hsound : Sound (u.reply x.factory a) (some c) fault := by
    rw [hreply]
    exact ⟨h.leases, h.players, h.accepted, h.canceled, .inr (.inr ⟨c, rfl, .inl hu⟩)⟩
  refine ⟨hsound, ?_⟩
  rw [hkeep]
  exact hsound

/-- A handle with the required methods leaves nothing unknown. -/
theorem Sound.obtained {u : Due} {fault : Bool} (h : Sound u (some c) fault) (x : Resource) (hn : x.kept c = none)
    (hu : c.unknown = false) (n : ℕ) :
    Sound (u.reply x.factory (.handle n true : Answer digest)) (some (x.keep (some n) c)) fault := by
  have hunknown : Sound u (some { c with unknown := true }) fault :=
    ⟨h.leases, h.players, h.accepted, h.canceled, .inr (.inr ⟨_, rfl, .inl rfl⟩)⟩
  have hgot : Sound (u.reply x.factory (.handle n true : Answer digest))
      (some (x.keep (some n) { c with unknown := true })) fault :=
    hunknown.obtain x (by cases x <;> exact hn) rfl n true
  have hclean : u.clean = true ∨ fault = true ∨ c.synthesisClean = false := by
    rcases h.clean with hclean | hfault | ⟨y, hy, hunk | hsyn⟩
    · exact .inl hclean
    · exact .inr (.inl hfault)
    · cases hy
      rw [hu] at hunk
      cases hunk
    · cases hy
      exact .inr (.inr hsyn)
  refine ⟨?_, ?_, ?_, ?_, ?_⟩
  · cases x <;> exact hgot.leases
  · cases x <;> exact hgot.players
  · cases x <;> exact hgot.accepted
  · exact hgot.canceled
  · rcases hclean with hclean | hfault | hsyn
    · refine .inl ?_
      cases x <;> (show (u.clean && true) = true; rw [hclean]; rfl)
    · exact .inr (.inl hfault)
    · exact .inr (.inr ⟨_, rfl, .inr (by cases x <;> exact hsyn)⟩)

/-- A call that holds nothing but the gateway's call. -/
def Call.Bare (c : Call) : Prop := c.mix = none ∧ c.player = none ∧ c.unknown = false

/-- The log of a body only grows. -/
theorem disturbed_holds {p : TM digest α} {Q : Except Exc α → TWorld digest → Prop}
    (h : Holds (outputContract digest b) ctx i p Q w) :
    Holds (outputContract digest b) ctx i p (fun r w' => Q r w' ∧ (Disturbed w.log → Disturbed w'.log)) w := by
  refine h.extends.mono fun r w' ⟨hq, _, l, hl, _⟩ => ⟨hq, ?_⟩
  rintro ⟨e, he, op, hact⟩
  exact ⟨e, by rw [hl]; exact List.mem_append_right l he, op, hact⟩

/-- **A handle from a factory.** It is kept whether or not it has the required methods. -/
theorem holds_obtain (x : Resource) (h : Live w) (hc : w.st.call = some c)
    (hn : Disturbed w.log ∨ x.kept c = none ∧ c.unknown = false) :
    Holds (outputContract digest b) ctx i (obtain x.factory x.keep)
      (Ended fun w => ∃ n, w.st.call = some (x.keep (some n) { c with unknown := false })) w := by
  -- what the call accounts for, while the outcome is unknown and where it is known again
  have hsound : Disturbed w.log ∨ (x.kept c = none ∧ c.unknown = false ∧ Sound (due w.log) (some c) w.st.fault ∧
      Sound (due w.log) (some { c with unknown := true }) w.st.fault) := by
    rcases h.sound with hd | hs
    · exact .inl hd
    refine hn.imp_right fun ⟨hkept, hunknown⟩ => ?_
    rw [hc] at hs
    exact ⟨hkept, hunknown, hs, hs.leases, hs.players, hs.accepted, hs.canceled, .inr (.inr ⟨_, rfl, .inl rfl⟩)⟩
  obtain ⟨hmid, hcall⟩ := h.toMid.changed hc (f := fun c => { c with unknown := true }) (fun _ => rfl) fun _ => rfl
  unfold obtain change
  rw [holds_bind, holds_write]
  dsimp only
  rw [holds_bind]
  refine (holds_asked hmid x.factory fun _ => by cases x <;> trivial).mono ?_
  rintro r w₁ ⟨a, hasked, hcame⟩
  have hcall₁ : w₁.st.call = some { c with unknown := true } := (congrArg Slot.call hasked.own :).trans hcall
  have hfault₁ : w₁.st.fault = w.st.fault := (congrArg Slot.fault hasked.own :)
  have hdue₁ : due w₁.log = (due w.log).reply x.factory a := by
    rw [hasked.due]
    cases x <;> rfl
  have hmono : Disturbed w.log → Disturbed w₁.log := fun hd => hasked.disturbed.2 (.inr hd)
  have hkeep : ∀ {n : Option ℕ}, (Disturbed w.log ∨ Sound ((due w.log).reply x.factory a)
      (some (x.keep n { c with unknown := true })) w.st.fault) → Live (w₁.put (w₁.st.change (x.keep n))) := by
    intro n hs
    obtain ⟨h₂, hc₂⟩ := hasked.toMid.changed hcall₁ (f := x.keep n) (by simp) (by simp)
    refine ⟨h₂, ?_⟩
    rw [hc₂]
    show Disturbed w₁.log ∨ Sound (due w₁.log) _ w₁.st.fault
    rw [hfault₁, hdue₁]
    exact hs.imp_left hmono
  have hkept : x.kept c = none → x.kept { c with unknown := true } = none := by
    intro hkept
    cases x <;> exact hkept
  have hmissed : (∀ n complete, a ≠ .handle n complete) → Live w₁ ∧ Live (w₁.put (w₁.st.change (x.keep none))) := by
    intro ha
    refine ⟨⟨hasked.toMid, ?_⟩, hkeep (hsound.imp_right fun hs => (hs.2.2.2.missed x (hkept hs.1) rfl ha).2)⟩
    rw [hcall₁, hfault₁, hdue₁]
    exact hsound.imp hmono fun hs => (hs.2.2.2.missed x (hkept hs.1) rfl ha).1
  cases hcame with
  | interrupt => exact .error (hmissed (by simp)).1 fun _ => hasked.disturbed.2 (.inl rfl)
  | exception ha =>
    have hne : ∀ n complete, a ≠ .handle n complete := by
      rintro n complete rfl
      rcases ha with ha | ⟨code, ha⟩ <;> cases ha
    exact .error (hmissed hne).1 fun he => (by cases he)
  | ok hquiet hg =>
    cases a with
    | handle n complete =>
      have hgot : Live (w₁.put (w₁.st.change (x.keep (some n)))) :=
        hkeep (hsound.imp_right fun hs => hs.2.2.2.obtain x (hkept hs.1) rfl n complete)
      dsimp only
      rw [holds_bind]
      cases complete with
      | false => exact .error hgot fun he => (by cases he)
      | true =>
        rw [if_pos rfl, holds_write]
        dsimp only
        rw [holds_bind, holds_write]
        obtain ⟨h₂, hc₂⟩ := hasked.toMid.changed hcall₁ (f := x.keep (some n)) (by simp) (by simp)
        obtain ⟨h₃, hc₃⟩ := h₂.changed hc₂ (f := fun c => { c with unknown := false }) (fun _ => rfl) fun _ => rfl
        have hback : { x.keep (some n) { c with unknown := true } with unknown := false } =
            x.keep (some n) { c with unknown := false } := by
          cases x <;> rfl
        rw [hback] at hc₃
        refine ⟨⟨h₃, ?_⟩, fun he => (by cases he), fun a ha => ⟨n, hc₃⟩⟩
        rw [hc₃]
        show Disturbed w₁.log ∨ Sound (due w₁.log) _ w₁.st.fault
        rw [hfault₁, hdue₁]
        refine hsound.imp hmono fun ⟨hnone, hunknown, hs, _⟩ => ?_
        have hsame : { c with unknown := false } = c := by
          rw [← hunknown]
        rw [hsame]
        exact hs.obtained x hnone hunknown n
    | raised interrupt => cases hquiet
    | gatewayError code => exact absurd rfl (hg code)
    | _ => exact .error (hmissed (by simp)).2 fun he => (by cases he)

/-! ## Playing -/

/-- A check, in a stretch that fails where it fails. -/
theorem Live.check {E : TWorld digest → Prop} (h : Live w) {f : Unit → TM digest α}
    (hok : ∀ w', Live w' → w'.st.toSlot = w.st.toSlot → (Disturbed w.log → Disturbed w'.log) →
      Holds (outputContract digest b) ctx i (f ()) (Ended E) w') :
    Holds (outputContract digest b) ctx i (check >>= f) (Ended E) w := by
  rw [holds_bind]
  refine (holds_check h.toMid).mono fun r w' ⟨hsampled, _⟩ => ?_
  cases r with
  | error e => exact h.failed hsampled.toPassed
  | ok v => exact hok w' (h.passed hsampled.toPassed) hsampled.own hsampled.disturbed

/-- A callback that obtains nothing and lets go of nothing, in a stretch that fails where it fails. -/
theorem Live.idle {E : TWorld digest → Prop} (h : Live w) (hop : op.idle = true) {f : Answer digest → TM digest α}
    (hok : ∀ a w', Live w' → w'.st.toSlot = w.st.toSlot → (Disturbed w.log → Disturbed w'.log) →
      Holds (outputContract digest b) ctx i (f a) (Ended E) w') :
    Holds (outputContract digest b) ctx i (ask op >>= f) (Ended E) w := by
  rw [holds_bind]
  refine (holds_idle h.toMid op hop).mono fun r w' hidled => ?_
  cases r with
  | error e => exact h.failed hidled.toPassed
  | ok a => exact hok a w' (h.passed hidled.toPassed) hidled.own hidled.disturbed

/-- What is obtained, in a stretch that fails where it fails. -/
theorem Live.obtain {E : TWorld digest → Prop} (x : Resource) (h : Live w) (hc : w.st.call = some c)
    (hn : Disturbed w.log ∨ x.kept c = none ∧ c.unknown = false) {f : ℕ → TM digest α}
    (hok : ∀ n k w', Live w' → w'.st.call = some (x.keep (some n) { c with unknown := false }) →
      (Disturbed w.log → Disturbed w'.log) → Holds (outputContract digest b) ctx i (f k) (Ended E) w') :
    Holds (outputContract digest b) ctx i (obtain x.factory x.keep >>= f) (Ended E) w := by
  rw [holds_bind]
  refine (disturbed_holds (holds_obtain x h hc hn)).mono fun r w' ⟨hended, hmono⟩ => ?_
  cases r with
  | error e => exact .error hended.toLive fun he => hended.interrupt (by rw [he])
  | ok k =>
    obtain ⟨n, hcall⟩ := hended.done k rfl
    exact hok n k w' hended.toLive hcall hmono

/-- **`_play`.** -/
theorem holds_play (h : Live w) (hc : w.st.call = some c) (hb : Disturbed w.log ∨ c.Bare) (pcm : Gateway.Bytes) :
    Holds (outputContract digest b) ctx i (play pcm) (Ended Settled) w := by
  unfold play
  refine h.obtain .mix hc (hb.imp_right fun hb => ⟨hb.1, hb.2.2⟩) fun n k w₁ h₁ hc₁ hd₁ => ?_
  refine h₁.check fun w₂ h₂ hown₂ hd₂ => ?_
  have hc₂ := (congrArg Slot.call hown₂ :).trans hc₁
  rw [holds_bind]
  refine holds_held hc₂ ?_
  refine h₂.idle rfl fun _ w₃ h₃ hown₃ hd₃ => ?_
  refine h₃.check fun w₄ h₄ hown₄ hd₄ => ?_
  have hc₄ := (congrArg Slot.call (hown₄.trans hown₃) :).trans hc₂
  have hplayer : Disturbed w₄.log ∨ c.player = none ∧ false = false :=
    hb.imp (fun hd => hd₄ (hd₃ (hd₂ (hd₁ hd)))) fun hb => ⟨hb.2.1, rfl⟩
  refine h₄.obtain .player hc₄ hplayer fun m k w₅ h₅ hc₅ _ => ?_
  refine h₅.check fun w₆ h₆ hown₆ _ => ?_
  refine h₆.idle rfl fun _ w₇ h₇ hown₇ _ => ?_
  refine h₇.check fun w₈ h₈ hown₈ _ => ?_
  have hc₈ := (congrArg Slot.call (hown₈.trans (hown₇.trans hown₆)) :).trans hc₅
  unfold change
  rw [holds_bind, holds_write]
  dsimp only
  have hcounted : Live (w₈.put (w₈.st.change fun c => { c with polls := 0 })) :=
    h₈.change hc₈ (fun _ => rfl) (fun _ => rfl) fun u fault hs => hs.congr rfl rfl rfl rfl rfl
  refine ⟨⟨hcounted.toMid.keep rfl rfl rfl rfl hcounted.busy id hcounted.born, hcounted.sound⟩,
    fun he => (by cases he), fun _ _ => .of_phase ?_⟩
  show Phase.playing ≠ .synthesizing
  simp

/-- **A result with audio** is played, or refused. -/
theorem holds_received (h : Live w) (hc : w.st.call = some c) (hb : Disturbed w.log ∨ c.Bare) (x : Gateway.Success) :
    Holds (outputContract digest b) ctx i (received x) (Ended Settled) w := by
  unfold received
  split
  · rename_i pcm _
    unfold change
    rw [holds_bind, holds_write]
    dsimp only
    have h₁ := h.change hc (f := fun c => { c with providerId := some x.providerId, modelVersion := some x.modelVersion })
      (fun _ => rfl) (fun _ => rfl) fun u fault hs => hs.congr rfl rfl rfl rfl rfl
    obtain ⟨-, hc₁⟩ := h.toMid.changed hc
      (f := fun c => { c with providerId := some x.providerId, modelVersion := some x.modelVersion }) (fun _ => rfl)
      fun _ => rfl
    rw [holds_bind]
    refine holds_held hc₁ ?_
    dsimp only
    split
    · exact .error h₁ fun he => (by cases he)
    · refine h₁.check fun w₂ h₂ hown₂ hd₂ => ?_
      exact holds_play h₂ ((congrArg Slot.call hown₂ :).trans hc₁) (hb.imp_left hd₂) pcm
  · exact .error h fun he => (by cases he)

/-! ## `_advance` -/

/-- **A result of the gateway.** What its call left is proven before the audio is looked at. -/
theorem holds_concluded (h : Mid w) (hc : w.st.call = some c)
    (hs : Disturbed w.log ∨ c.Bare ∧ c.synthesisClean = true ∧
      Sound (due w.log) (some { c with gatewayOwned := false }) w.st.fault) (t : Gateway.Terminal) :
    Holds (outputContract digest b) ctx i (concluded t) (Ended Settled) w := by
  obtain ⟨h₁, hc₁⟩ := h.changed hc (f := fun c => { c with gatewayOwned := false }) (fun _ => rfl) fun _ => rfl
  unfold concluded change
  rw [holds_bind, holds_write]
  dsimp only
  rw [holds_bind]
  refine (holds_asked h₁ .gatewayProven fun _ => trivial).mono ?_
  rintro r w₂ ⟨a, hasked, hcame⟩
  have hc₂ : w₂.st.call = some { c with gatewayOwned := false } := (congrArg Slot.call hasked.own :).trans hc₁
  have hfault₂ : w₂.st.fault = w.st.fault := (congrArg Slot.fault hasked.own :)
  have hdue₂ : due w₂.log = (due w.log).prove a.isTrue := hasked.due
  have hmono : Disturbed w.log → Disturbed w₂.log := fun hd => hasked.disturbed.2 (.inr hd)
  have hbare : Disturbed w₂.log ∨ c.Bare := hs.imp hmono And.left
  cases hcame with
  | interrupt => cases hasked.legal
  | exception ha =>
    rcases ha with rfl | ⟨code, rfl⟩
    · cases hasked.legal
    · cases hasked.legal
  | ok _ _ =>
    dsimp only
    rw [holds_bind, holds_write]
    dsimp only
    obtain ⟨h₃, hc₃⟩ := hasked.toMid.changed hc₂ (f := fun c => { c with synthesisClean := a.isTrue }) (fun _ => rfl)
      fun _ => rfl
    have hlive : Live (w₂.put (w₂.st.change fun c => { c with synthesisClean := a.isTrue })) := by
      refine ⟨h₃, ?_⟩
      rw [hc₃]
      show Disturbed w₂.log ∨ Sound (due w₂.log) _ w₂.st.fault
      rw [hdue₂, hfault₂]
      refine hs.imp hmono fun ⟨hb, hy, hs⟩ => ?_
      refine ⟨hs.leases, hs.players, hs.accepted, hs.canceled, ?_⟩
      cases hproven : a.isTrue with
      | false => exact .inr (.inr ⟨_, rfl, .inr rfl⟩)
      | true =>
        rcases hs.clean with hclean | hfault | ⟨x, hx, hunk | hsyn⟩
        · refine .inl ?_
          show ((due w.log).clean && true) = true
          rw [hclean]
          rfl
        · exact .inr (.inl hfault)
        · cases hx
          have hu := hb.2.2
          rw [show c.unknown = true from hunk] at hu
          cases hu
        · cases hx
          rw [show c.synthesisClean = false from hsyn] at hy
          cases hy
    cases t with
    | failed failures =>
      dsimp only
      rw [holds_bind, holds_write]
      dsimp only
      have hfailed := hlive.change hc₃ (f := fun c => { c with failures := failures }) (fun _ => rfl) (fun _ => rfl)
        fun u fault hs => hs.congr rfl rfl rfl rfl rfl
      rw [holds_bind]
      cases failures.getLast? with
      | none => exact .error hfailed fun he => (by cases he)
      | some last => exact .error hfailed fun he => (by cases he)
    | degraded x primary =>
      dsimp only
      rw [holds_bind, holds_write]
      dsimp only
      have hdegraded := hlive.change hc₃ (f := fun c => { c with failures := [primary], success := .degraded })
        (fun _ => rfl) (fun _ => rfl) fun u fault hs => hs.congr rfl rfl rfl rfl rfl
      obtain ⟨-, hc₄⟩ := h₃.changed hc₃ (f := fun c => { c with failures := [primary], success := .degraded })
        (fun _ => rfl) fun _ => rfl
      exact holds_received hdegraded hc₄ hbare x
    | success x => exact holds_received hlive hc₃ hbare x

/-- **`_advance`, while the gateway is asked.** -/
theorem holds_synthesize (h : Live w) (hc : w.st.call = some c) (he : Settled w) (hphase : w.st.phase = .synthesizing) :
    Holds (outputContract digest b) ctx i synthesize (Ended Settled) w := by
  have hbare : Disturbed w.log ∨ c.Bare ∧ c.synthesisClean = true := by
    refine he.imp_right fun he => ?_
    obtain ⟨hm, hp, hu, hy⟩ := he hphase c hc
    exact ⟨⟨hm, hp, hu⟩, hy⟩
  unfold synthesize
  rw [holds_bind]
  refine (holds_asked h.toMid .gatewayPoll fun _ => trivial).mono ?_
  rintro r w₁ ⟨a, hasked, hcame⟩
  have hmono : Disturbed w.log → Disturbed w₁.log := fun hd => hasked.disturbed.2 (.inr hd)
  have hc₁ : w₁.st.call = some c := (congrArg Slot.call hasked.own :).trans hc
  have hfault₁ : w₁.st.fault = w.st.fault := (congrArg Slot.fault hasked.own :)
  -- no cancellation is under way, so that only a result ends the gateway's call
  have hkept : (∀ t, a ≠ .result t) → Live w₁ := by
    intro ha
    refine ⟨hasked.toMid, ?_⟩
    rw [hc₁, hfault₁, ← hc]
    rcases h.sound with hd | hs
    · exact .inl (hmono hd)
    · have hdue₁ : due w₁.log = due w.log := by
        rw [hasked.due]
        show (due w.log).reply .gatewayPoll a = due w.log
        cases a with
        | result t => exact absurd rfl (ha t)
        | _ => exact if_neg (by rw [hs.canceled]; simp)
      rw [hdue₁]
      exact .inr hs
  have hwaiting : (∀ t, a ≠ .result t) → Holds (outputContract digest b) ctx i (do
      check
      let call ← held
      let p ← expect .exception call.snapshot.policy
      if p.limits.synthesisPolls ≤ call.polls then throw (.stop .limit)) (Ended Settled) w₁ := by
    intro ha
    refine (hkept ha).check fun w₂ h₂ hown₂ hd₂ => ?_
    have hown : w₂.st.toSlot = w.st.toSlot := hown₂.trans hasked.own
    rw [holds_bind]
    refine holds_held ((congrArg Slot.call hown :).trans hc) ?_
    dsimp only
    rw [holds_bind]
    cases c.snapshot.policy with
    | none => exact .error h₂ fun he => (by cases he)
    | some p =>
      show Holds (outputContract digest b) ctx i (if p.limits.synthesisPolls ≤ c.polls then throw (.stop .limit)
        else pure ()) (Ended Settled) w₂
      split
      · exact .error h₂ fun he => (by cases he)
      · refine ⟨h₂, fun he => (by cases he), fun _ _ => he.imp (fun hd => hd₂ (hmono hd)) fun he hp x hx => ?_⟩
        exact he hphase x ((congrArg Slot.call hown :).symm.trans hx)
  cases hcame with
  | interrupt => exact .error (hkept (by simp)) fun _ => hasked.disturbed.2 (.inl rfl)
  | exception ha =>
    have hne : ∀ t, a ≠ .result t := by
      rintro t rfl
      rcases ha with ha | ⟨code, ha⟩ <;> cases ha
    exact .error (hkept hne) fun he => (by cases he)
  | ok _ _ =>
    cases a with
    | result t =>
      refine holds_concluded hasked.toMid hc₁ ?_ t
      have hdue₁ : due w₁.log = (due w.log).drain true := hasked.due
      rw [hdue₁, hfault₁]
      rcases h.sound with hd | hs
      · exact .inl (hmono hd)
      rw [hc] at hs
      refine hbare.imp hmono fun ⟨hb, hy⟩ => ⟨hb, hy, hs.leases, hs.players, rfl, rfl, ?_⟩
      rcases hs.clean with hclean | hfault | ⟨x, hx, hd⟩
      · refine .inl ?_
        show ((due w.log).clean && true) = true
        rw [hclean]
        rfl
      · exact .inr (.inl hfault)
      · cases hx
        exact .inr (.inr ⟨_, rfl, hd⟩)
    | _ => exact hwaiting (by simp)

/-- **`_advance`, while the player plays.** -/
theorem holds_playback (h : Live w) (hc : w.st.call = some c) (hphase : w.st.phase ≠ .synthesizing) :
    Holds (outputContract digest b) ctx i playback (Ended Settled) w := by
  unfold playback
  rw [holds_bind]
  refine holds_held hc ?_
  dsimp only
  rw [holds_bind]
  cases c.player with
  | none => exact .error h fun he => (by cases he)
  | some player =>
    show Holds (outputContract digest b) ctx i (ask (.poll player) >>= _) (Ended Settled) w
    refine h.idle rfl fun a w₁ h₁ hown₁ _ => ?_
    refine h₁.check fun w₂ h₂ hown₂ _ => ?_
    have hown : w₂.st.toSlot = w.st.toSlot := hown₂.trans hown₁
    have hc₂ : w₂.st.call = some c := (congrArg Slot.call hown :).trans hc
    have hphase₂ : w₂.st.phase ≠ .synthesizing := by
      rw [show w₂.st.phase = w.st.phase from (congrArg Slot.phase hown :)]
      exact hphase
    rw [holds_bind]
    refine holds_held hc₂ ?_
    dsimp only
    rw [holds_bind]
    cases c.snapshot.policy with
    | none => exact .error h₂ fun he => (by cases he)
    | some p =>
      show Holds (outputContract digest b) ctx i (pure p) _ w₂
      rw [holds_pure]
      dsimp only
      split
      · exact (holds_retire h₂ hc₂ c.success).mono fun r w₃ ⟨h₃, hp₃, hi₃⟩ => ⟨h₃, hi₃, fun _ _ => .of_phase hp₃⟩
      · split
        · exact .error h₂ fun he => (by cases he)
        · exact ⟨h₂, fun he => (by cases he), fun _ _ => .of_phase hphase₂⟩
      · exact .error h₂ fun he => (by cases he)

/-- **`_advance`.** -/
theorem holds_advance (h : Live w) (he : Settled w) :
    Holds (outputContract digest b) ctx i advance (Ended Settled) w := by
  unfold advance
  rw [holds_bind, holds_read]
  dsimp only
  cases hc : w.st.call with
  | none =>
    rw [if_pos (by rfl)]
    exact ⟨h, fun he => (by cases he), fun _ _ => he⟩
  | some c =>
    rw [if_neg (by simp)]
    refine h.check fun w₁ h₁ hown₁ hd₁ => ?_
    have hc₁ : w₁.st.call = some c := (congrArg Slot.call hown₁ :).trans hc
    have h₂ := h₁.change hc₁ (f := fun c => { c with polls := c.polls + 1 }) (fun _ => rfl) (fun _ => rfl)
      fun u fault hs => hs.congr rfl rfl rfl rfl rfl
    obtain ⟨-, hc₂⟩ := h₁.toMid.changed hc₁ (f := fun c => { c with polls := c.polls + 1 }) (fun _ => rfl) fun _ => rfl
    have hphase₁ : w₁.st.phase = w.st.phase := (congrArg Slot.phase hown₁ :)
    unfold change
    rw [holds_bind, holds_write]
    dsimp only
    rw [holds_bind, holds_read]
    dsimp only
    have he₂ : Settled (w₁.put (w₁.st.change fun c => { c with polls := c.polls + 1 })) := by
      refine he.imp hd₁ fun he hp x hx => ?_
      rw [hc₂] at hx
      cases hx
      exact he (hphase₁.symm.trans hp) c hc
    cases hp : (w₁.put (w₁.st.change fun c => { c with polls := c.polls + 1 })).st.phase with
    | synthesizing => exact holds_synthesize h₂ hc₂ he₂ hp
    | playing => exact holds_playback h₂ hc₂ (by rw [hp]; simp)
    | _ => exact ⟨h₂, fun he => (by cases he), fun _ _ => he₂⟩

/-! ## `start` -/

theorem belongs_accepts {o : SessionOwner} {t : Conversation.TurnToken} (h : belongs o t = true) :
    o.accepts (some t.generation) = true := by
  unfold belongs at h
  simp only [Bool.and_eq_true] at h
  exact h.2

theorem Sound.new {u : Due} {fault : Bool} (h : Sound u none fault) (hm : c.mix = none) (hp : c.player = none)
    (hg : c.gatewayOwned = false) : Sound u (some c) fault := by
  refine ⟨h.leases.trans ?_, h.players.trans ?_, h.accepted.trans hg.symm, h.canceled, ?_⟩
  · show [] = c.mix.toList
    rw [hm]
    rfl
  · show [] = c.player.toList
    rw [hp]
    rfl
  · rcases h.clean with hclean | hfault | ⟨x, hx, -⟩
    · exact .inl hclean
    · exact .inr (.inl hfault)
    · cases hx

/-- **`start`, under `_run`.** -/
theorem holds_starting {u : Utterance} {k : TEntry digest} {before : List (TEntry digest)} (h : Live w)
    (hc : w.st.call = none) (hlog : w.log = k :: before) (hk : k.act = .invoke (.start (some u))) :
    Holds (outputContract digest b) ctx i (starting b u) (Ended Settled) w := by
  have hepoch : w.st.epoch = cancels before := by
    rw [h.count, hlog]
    simp only [cancels, hk]
  have hidle : ∀ {w' : TWorld digest}, w'.st.call = none → Settled w' :=
    fun hn => .inr fun _ x hx => by rw [hn] at hx; cases hx
  unfold starting
  rw [holds_bind, holds_read]
  dsimp only
  rw [holds_bind]
  refine ((holds_sample h.toMid).extends).mono fun r w₁ ⟨⟨hsampled, _⟩, _, l₁, hl₁, _⟩ => ?_
  cases r with
  | error e => exact h.failed hsampled.toPassed
  | ok snapshot =>
    dsimp only
    have h₁ := h.passed hsampled.toPassed
    have hc₁ : w₁.st.call = none := (congrArg Slot.call hsampled.own :).trans hc
    rw [holds_bind]
    refine ((holds_state h₁.toMid).extends).mono fun r w₂ ⟨⟨hstate, _, ⟨m, l, hlog₂, hst⟩, _⟩, _, l₂, hl₂, _⟩ => ?_
    cases r with
    | error e => exact h₁.failed hstate.toPassed
    | ok active =>
      dsimp only
      have h₂ := h₁.passed hstate.toPassed
      have hc₂ : w₂.st.call = none := (congrArg Slot.call hstate.own :).trans hc₁
      cases hadmit : admission b u snapshot active with
      | error code =>
        exact ⟨⟨h₂.toMid.keep rfl rfl rfl rfl h₂.busy id h₂.born, h₂.sound⟩, fun he => (by cases he),
          fun _ _ => hidle hc₂⟩
      | ok ready =>
        dsimp only
        rw [holds_bind, holds_read]
        dsimp only
        split
        · exact .error h₂ fun he => (by cases he)
        rename_i hbelongs
        have hborn : Born w₂.log (.new snapshot ready w.st.epoch) := by
          refine ⟨l₂ ++ l₁, k, before, u, ?_, hk, hepoch, (admission_spec hadmit).1, m, ?_, ?_⟩
          · rw [hl₂, hl₁, hlog, List.append_assoc]
          · rw [hlog₂]
            exact List.mem_cons_self
          · rw [hst]
            exact belongs_accepts (by simpa using hbelongs)
        have h₃ : Live (w₂.put (w₂.st.hold (some (.new snapshot ready w.st.epoch)))) := by
          refine ⟨h₂.toMid.keep rfl rfl rfl rfl h₂.busy (fun hn => (by cases hn)) fun c hc => ?_, ?_⟩
          · cases hc
            exact hborn
          · refine h₂.sound.imp_right fun hs => ?_
            rw [hc₂] at hs
            exact hs.new rfl rfl rfl
        rw [holds_bind, holds_write]
        dsimp only
        refine h₃.check fun w₄ h₄ hown₄ _ => ?_
        have hc₄ : w₄.st.call = some (.new snapshot ready w.st.epoch) := (congrArg Slot.call hown₄ :)
        rw [holds_bind]
        refine (holds_call h₄.toMid (.gatewayStart ready.request) fun _ => trivial).mono ?_
        rintro r w₅ ⟨a, rfl, hasked⟩
        dsimp only
        have hc₅ : w₅.st.call = some (.new snapshot ready w.st.epoch) := (congrArg Slot.call hasked.own :).trans hc₄
        have hfault₅ : w₅.st.fault = w₄.st.fault := (congrArg Slot.fault hasked.own :)
        have hmono : Disturbed w₄.log → Disturbed w₅.log := fun hd => hasked.disturbed.2 (.inr hd)
        -- a start that raises accepts nothing
        have hrefused : (a.raises = true ∨ ∃ code, a = .gatewayError code) → due w₅.log = due w₄.log := by
          intro ha
          rw [hasked.due]
          rcases ha with ha | ⟨code, rfl⟩
          · cases a with
            | raised interrupt => rfl
            | _ => cases ha
          · rfl
        have haccepted : a.raises = false → (∀ code, a ≠ .gatewayError code) →
            Holds (outputContract digest b) ctx i (do
              change fun c => { c with gatewayOwned := true }
              Prog.write fun d => d.present .synthesizing .started
              check
              pure true) (Ended Settled) w₅ := by
          intro hquiet hg
          have hdue₅ : due w₅.log = { due w₄.log with accepted := true } := by
            rw [hasked.due]
            cases a with
            | raised interrupt => cases hquiet
            | gatewayError code => exact absurd rfl (hg code)
            | _ => rfl
          obtain ⟨h₆, hc₆⟩ := hasked.toMid.changed hc₅ (f := fun c => { c with gatewayOwned := true }) (fun _ => rfl)
            fun _ => rfl
          unfold change
          rw [holds_bind, holds_write]
          dsimp only
          rw [holds_bind, holds_write]
          dsimp only
          have h₇ : Live ((w₅.put (w₅.st.change fun c => { c with gatewayOwned := true })).put
              ((w₅.st.change fun c => { c with gatewayOwned := true }).present .synthesizing .started)) := by
            refine ⟨h₆.keep rfl rfl rfl rfl h₆.busy id h₆.born, ?_⟩
            show Disturbed w₅.log ∨ Sound (due w₅.log)
              (w₅.put (w₅.st.change fun c => { c with gatewayOwned := true })).st.call w₅.st.fault
            rw [hc₆, hdue₅, hfault₅]
            rcases h₄.sound with hd | hs
            · exact .inl (hmono hd)
            rw [hc₄] at hs
            exact .inr ⟨hs.leases, hs.players, rfl, hs.canceled, by
              rcases hs.clean with hclean | hfault | ⟨x, hx, hd⟩
              · exact .inl hclean
              · exact .inr (.inl hfault)
              · cases hx
                exact .inr (.inr ⟨_, rfl, hd⟩)⟩
          refine h₇.check fun w₈ h₈ hown₈ _ => ⟨h₈, fun he => (by cases he), fun _ _ => .inr fun _ x hx => ?_⟩
          have hc₈ := (congrArg Slot.call hown₈ :).trans hc₆
          rw [hc₈] at hx
          cases hx
          exact ⟨rfl, rfl, rfl, rfl⟩
        have hraised : a.raises = true → Live w₅ := by
          intro ha
          refine ⟨hasked.toMid, ?_⟩
          rw [hc₅, hfault₅, hrefused (.inl ha), ← hc₄]
          exact h₄.sound.imp_left hmono
        cases a with
        | raised interrupt =>
          cases interrupt with
          | true => exact .error (hraised rfl) fun _ => hasked.disturbed.2 (.inl rfl)
          | false => exact .error (hraised rfl) fun he => (by cases he)
        | gatewayError code =>
          have hdue₅ := hrefused (.inr ⟨code, rfl⟩)
          have hdropped : Disturbed w₅.log ∨ Sound (due w₅.log) none w₅.st.fault := by
            rw [hdue₅, hfault₅]
            rcases h₄.sound with hd | hs
            · exact .inl (hmono hd)
            rw [hc₄] at hs
            refine .inr ⟨hs.leases, hs.players, hs.accepted, hs.canceled, ?_⟩
            rcases hs.clean with hclean | hfault | ⟨x, hx, hd⟩
            · exact .inl hclean
            · exact .inr (.inl hfault)
            · cases hx
              rcases hd with hd | hd <;> cases hd
          obtain ⟨l₅, hl₅⟩ := hasked.fresh
          have hlinked : Linked w₅.log ((w₅.st.hold none).tell (gatewayCode code)) := by
            rw [hl₅]
            refine ⟨id, .inl rfl, fun c hc => .inl hc, fun _ _ => ?_⟩
            rw [← hl₅]
            exact hdropped.imp_right fun hs => ⟨hs.leases, hs.players, hs.accepted⟩
          refine ⟨⟨hasked.toMid.put hlinked rfl hasked.busy fun c hc => (by cases hc), hdropped⟩,
            fun he => (by cases he), fun _ _ => hidle rfl⟩
        | _ => exact haccepted rfl (by simp)

/-! ## `_run` -/

/-- **What is known where nothing is under way.** -/
structure Idle (w : TWorld digest) : Prop extends Core w where
  linked : Linked w.log w.st
  busy : w.st.busy = false
  sound : Disturbed w.log ∨ Sound (due w.log) w.st.call w.st.fault
  settled : Settled w

/-- The lock, taken. -/
theorem Idle.occupy (h : Idle w) : Live (w.put (w.st.occupy true)) ∧ Settled (w.put (w.st.occupy true)) :=
  ⟨⟨⟨⟨h.owes, h.count, h.born⟩, h.linked.keep rfl rfl rfl id, rfl⟩, h.sound⟩, h.settled⟩

/-- The lock, let go of. -/
theorem Live.release (h : Live w) (he : Settled w) : Idle (w.put (w.st.occupy false)) :=
  ⟨⟨h.owes, h.count, h.born⟩, h.linked.keep rfl rfl rfl id, rfl, h.sound, he⟩

/-- **`_stop_or_notice`.** -/
theorem holds_stopOrNotice (h : Live w) (code : Code) :
    Holds (outputContract digest b) ctx i (stopOrNotice code) (fun _ w' => Live w' ∧ Settled w') w := by
  unfold stopOrNotice
  rw [holds_bind, holds_read]
  dsimp only
  cases hc : w.st.call with
  | none =>
    rw [if_neg (by simp)]
    refine ⟨⟨h.toMid.keep rfl rfl rfl rfl h.busy id h.born, h.sound⟩, .inr fun _ x hx => ?_⟩
    rw [show (w.put (w.st.tell code)).st.call = w.st.call from rfl, hc] at hx
    cases hx
  | some c =>
    rw [if_pos (by rfl)]
    exact (holds_retire h hc code).mono fun r w' ⟨h', hp', _⟩ => ⟨h', .of_phase hp'⟩

/-- **`_run`.** Whatever its operation does, the lock is let go of, and the call accounts for what is due. -/
theorem holds_run {operation : TM digest α} {refused : α} (h : Idle w)
    (hop : Live (w.put (w.st.occupy true)) → Settled (w.put (w.st.occupy true)) →
      Holds (outputContract digest b) ctx i operation (Ended Settled) (w.put (w.st.occupy true))) :
    Holds (outputContract digest b) ctx i (run operation refused) (fun _ w' => Idle w') w := by
  obtain ⟨hlive, hsettled⟩ := h.occupy
  have hstop : ∀ {w₁ : TWorld digest} (code : Code), Live w₁ → Holds (outputContract digest b) ctx i (do
      stopOrNotice code
      pure refused) (fun _ w' => Idle (w'.put (w'.st.occupy false))) w₁ := by
    intro w₁ code h₁
    rw [holds_bind]
    refine (holds_stopOrNotice h₁ code).mono fun r w₂ ⟨h₂, he₂⟩ => ?_
    cases r with
    | ok v => exact h₂.release he₂
    | error e => exact h₂.release he₂
  unfold run
  rw [holds_bind, holds_read]
  dsimp only
  rw [if_neg (by rw [h.busy]; simp), holds_bind, holds_write]
  dsimp only
  rw [holds_lastly, holds_catching]
  refine (hop hlive hsettled).mono fun r w₁ hended => ?_
  cases r with
  | ok v => exact hended.toLive.release (hended.done v rfl)
  | error e =>
    cases e with
    | interrupt => exact hended.toLive.release (.inl (hended.interrupt rfl))
    | stop code => exact hstop code hended.toLive
    | value => exact hstop .unavailable hended.toLive
    | exception => exact hstop .unavailable hended.toLive

/-! ## Methods -/

theorem disturbed_push {x : Act Op (Answer digest) Exc Method Value} (h : Disturbed w.log) :
    Disturbed (w.push i x).log := disturbed_cons h

/-- The end of a call that leaves nothing under way. -/
theorem Idle.ret (h : Idle w) (r : Except Exc Value) : TInv (w.push i (.ret r)) := by
  have hquiet : Quiet (⟨i, .ret r, w.st⟩ : TEntry digest) := .inr ⟨r, rfl⟩
  refine ⟨h.toCore.push h.linked (fun op hop => by cases hop) ⟨by simp, by simp⟩, rfl, fun _ => ?_, fun _ => ?_⟩
  · refine h.sound.imp disturbed_push fun hs => ?_
    rw [World.push_log, due_quiet hquiet]
    exact hs
  · exact h.settled.imp_left disturbed_push

/-- A call of what is no cancellation, where nothing is under way. -/
theorem TInv.enter (h : TInv w) (hb : w.st.busy = false) {m : Method} (hm : m ≠ .cancel ∧ m ≠ .invalidate) :
    Idle (w.enter m) := by
  have hquiet : Quiet (⟨w.next, .invoke m, w.st⟩ : TEntry digest) := .inl ⟨m, rfl⟩
  have hcore : Core (w.push w.next (.invoke m)) :=
    h.toCore.push h.level.linked (fun op hop => by cases hop) ⟨by simpa using hm.1, by simpa using hm.2⟩
  refine ⟨⟨hcore.owes, hcore.count, hcore.born⟩, Level.linked (d := w.st) rfl, hb, ?_, ?_⟩
  · refine (h.sound hb).imp disturbed_push fun hs => ?_
    rw [World.enter_log, due_quiet hquiet]
    exact hs
  · exact (h.early hb).imp_left disturbed_push

/-- A write of the fields that need no lock. -/
structure Outer (m : Method) (w : TWorld digest) (s : TtsOutput) : Prop where
  own : s.toSlot = w.st.toSlot
  owner : s.owner = w.st.owner ∨ m.clients = true
  epoch : s.epoch = cancels (w.enter m).log

/-- A call that writes what needs no lock, and then what it was called for. -/
theorem TInv.outer (h : TInv w) {m : Method} {s : TtsOutput} (hs : Outer m w s) : Core ((w.enter m).put s) ∧
    Linked (w.enter m).log s := by
  have hcall : s.call = w.st.call := (congrArg Slot.call hs.own :)
  have hterminal : s.terminal = w.st.terminal := (congrArg Slot.terminal hs.own :)
  have hfault : s.fault = w.st.fault := (congrArg Slot.fault hs.own :)
  refine ⟨⟨⟨⟨h.level.linked, fun op hop => by cases hop⟩, h.owes⟩, hs.epoch, fun c hc => ?_⟩, ?_⟩
  · exact (h.born c (hcall ▸ hc)).cons
  · refine ⟨fun hf => hfault.trans hf, ?_, fun c hc => .inl (hterminal ▸ hc), fun hn hd => absurd (hcall ▸ hd) hn⟩
    rcases hs.owner with ho | hm
    · exact .inl ho
    · exact .inr (.inl ⟨m, rfl, hm⟩)

theorem TInv.outer_idle (h : TInv w) {m : Method} {s : TtsOutput} (hs : Outer m w s) (hb : w.st.busy = false) :
    Idle ((w.enter m).put s) := by
  obtain ⟨hcore, hlinked⟩ := h.outer hs
  have hquiet : Quiet (⟨w.next, .invoke m, w.st⟩ : TEntry digest) := .inl ⟨m, rfl⟩
  have hcall : s.call = w.st.call := (congrArg Slot.call hs.own :)
  have hfault : s.fault = w.st.fault := (congrArg Slot.fault hs.own :)
  have hphase : s.phase = w.st.phase := (congrArg Slot.phase hs.own :)
  refine ⟨hcore, hlinked, (congrArg Slot.busy hs.own :).trans hb, ?_, ?_⟩
  · refine (h.sound hb).imp disturbed_push fun hk => ?_
    show Sound (due (w.enter m).log) s.call s.fault
    rw [World.enter_log, due_quiet hquiet, hcall, hfault]
    exact hk
  · refine (h.early hb).imp disturbed_push fun he hp x hx => ?_
    exact he (hphase.symm.trans hp) x (hcall.symm.trans hx)

/-- **What a method leaves**: the invariant, and what its contract says. -/
def Leaves (digest : Providers.Manifest → String) (b : Binding) (ctx : List (ℕ × Op)) (w : TWorld digest)
    (r : Except Exc Value) (w' : TWorld digest) : Prop :=
  (outputContract digest b).Inv (w'.push w.next (.ret r)) ∧
    (outputContract digest b).Rel ctx w (w'.push w.next (.ret r))

/-- Where nothing was under way, nothing is. -/
theorem Idle.leaves (h : Idle w') (hb : w.st.busy = false) (r : Except Exc Value) : Leaves digest b ctx w r w' :=
  ⟨h.ret r, fun _ => h.busy, fun hn => by rw [hb] at hn; cases hn⟩

/-- Where a call is under way, only what needs no lock was written. -/
theorem TInv.leaves (h : TInv w) {m : Method} {s : TtsOutput} (hs : Outer m w s) (hb : w.st.busy = true)
    (r : Except Exc Value) : Leaves digest b ctx w r ((w.enter m).put s) := by
  obtain ⟨hcore, hlinked⟩ := h.outer hs
  have hbusy : s.busy = true := (congrArg Slot.busy hs.own :).trans hb
  have hnot : (((w.enter m).put s).push w.next (.ret r)).st.busy ≠ false := by
    show s.busy ≠ false
    rw [hbusy]
    simp
  refine ⟨⟨hcore.push hlinked (fun op hop => by cases hop) ⟨by simp, by simp⟩, rfl, fun hn => absurd hn hnot,
    fun hn => absurd hn hnot⟩, fun hn => (by rw [hb] at hn; cases hn), fun _ => ⟨hs.own, ?_⟩⟩
  exact ((Quieter.refl w.log).cons (.inl ⟨m, rfl⟩)).cons (.inr ⟨r, rfl⟩)

/-- **`start`.** -/
theorem holds_start (h : TInv w) (u : Option Utterance) :
    Holds (outputContract digest b) ctx w.next (start b u) (fun _ w' =>
      (w.st.busy = true → w' = w.enter (.start u)) ∧ (w.st.busy = false → Idle w')) (w.enter (.start u)) := by
  have hidle : w.st.busy = false → Idle (w.enter (.start u)) := fun hb => h.enter hb ⟨by simp, by simp⟩
  unfold start
  cases u with
  | none => exact ⟨fun _ => rfl, hidle⟩
  | some u =>
    dsimp only
    rw [holds_bind, holds_read]
    dsimp only [id]
    split
    · exact ⟨fun _ => rfl, hidle⟩
    rename_i hfree
    simp only [Bool.or_eq_true, not_or, Bool.not_eq_true, Option.isSome_eq_false_iff] at hfree
    have hnone : w.st.call = none := Option.isNone_iff_eq_none.1 hfree.1.2
    cases hb : w.st.busy with
    | true =>
      unfold run
      rw [holds_bind, holds_read]
      dsimp only
      rw [World.enter_st, hb, if_pos rfl]
      exact ⟨fun _ => rfl, fun hn => by cases hn⟩
    | false =>
      refine (holds_run (hidle hb) fun hlive _ => ?_).mono fun r w' h' => ⟨fun hn => (by cases hn), fun _ => h'⟩
      exact holds_starting hlive hnone rfl rfl

/-- **`poll`.** -/
theorem holds_poll (h : TInv w) :
    Holds (outputContract digest b) ctx w.next poll (fun _ w' =>
      (w.st.busy = true → w' = w.enter .poll) ∧ (w.st.busy = false → Idle w')) (w.enter .poll) := by
  unfold poll
  rw [holds_bind, holds_read]
  dsimp only
  cases hb : w.st.busy with
  | true =>
    rw [World.enter_st, hb, if_pos rfl]
    exact ⟨fun _ => rfl, fun hn => by cases hn⟩
  | false =>
    rw [World.enter_st, hb, if_neg (by simp), holds_bind]
    refine (holds_run (h.enter hb ⟨by simp, by simp⟩) fun hlive hsettled => ?_).mono fun r w' h' => ?_
    · exact holds_advance hlive hsettled
    cases r with
    | error e => exact ⟨fun hn => (by cases hn), fun _ => h'⟩
    | ok v =>
      dsimp only
      rw [holds_bind, holds_read]
      dsimp only
      rw [holds_bind, holds_write]
      -- the terminal is taken, once
      have hlinked : Linked w'.log { w'.st with terminal := none } := by
        have hl := h'.linked
        cases hlog : w'.log with
        | nil =>
          rw [hlog] at hl
          exact ⟨hl.1, rfl⟩
        | cons m log =>
          rw [hlog] at hl
          exact ⟨hl.fault, hl.owner, fun c hc => (by cases hc), hl.dropped⟩
      exact ⟨fun hn => (by cases hn), fun _ => ⟨⟨h'.owes, h'.count, h'.born⟩, hlinked, h'.busy, h'.sound, h'.settled⟩⟩

/-- **`cancel`, under the lock.** It does nothing where a call is under way. -/
theorem holds_finish {Q : Except Exc Unit → TWorld digest → Prop} (hbusy : w.st.busy = true → Q (.ok ()) w)
    (hidle : w.st.busy = false → Idle w ∧ ∀ r w', Idle w' → Q r w') :
    Holds (outputContract digest b) ctx i finish Q w := by
  unfold finish
  rw [holds_bind, holds_read]
  dsimp only [id]
  cases hb : w.st.busy with
  | true =>
    rw [if_neg (by simp)]
    exact hbusy hb
  | false =>
    obtain ⟨hi, hq⟩ := hidle hb
    cases hc : w.st.call with
    | none =>
      rw [if_neg (by simp)]
      exact hq _ _ hi
    | some c =>
      rw [if_pos (by rfl)]
      refine (holds_run hi fun hlive _ => ?_).mono hq
      exact (holds_retire hlive hc .canceled).mono fun r w' ⟨h', hp', hi'⟩ => ⟨h', hi', fun _ _ => .of_phase hp'⟩

theorem holds_silent {p : TM digest Unit} {Q : Except Exc Value → TWorld digest → Prop}
    (h : Holds (outputContract digest b) ctx i p (fun _ w' => ∀ r', Q r' w') w) :
    Holds (outputContract digest b) ctx i (silent p) Q w := by
  unfold silent
  rw [holds_bind]
  refine h.mono fun r w' hq => ?_
  cases r with
  | ok v => exact hq _
  | error e => exact hq _

/-- A write of what needs no lock, and then the half of `cancel` under the lock. -/
theorem TInv.finished (h : TInv w) {m : Method} {s : TtsOutput} (hs : Outer m w s) :
    Holds (outputContract digest b) ctx w.next finish (fun _ w' => ∀ r', Leaves digest b ctx w r' w')
      ((w.enter m).put s) := by
  have hsame : s.busy = w.st.busy := (congrArg Slot.busy hs.own :)
  refine holds_finish (fun hb r' => ?_) fun hb => ⟨?_, fun r w' h' r' => ?_⟩
  · exact h.leaves hs (hsame.symm.trans hb) r'
  · exact h.outer_idle hs (hsame.symm.trans hb)
  · exact h'.leaves (hsame.symm.trans hb) r'

/-- A method that writes what needs no lock, and nothing else. -/
theorem TInv.written (h : TInv w) {m : Method} {f : TtsOutput → TtsOutput} (hs : Outer m w (f w.st)) :
    Holds (outputContract digest b) ctx w.next (silent (Prog.write f)) (Leaves digest b ctx w) (w.enter m) := by
  refine holds_silent ?_
  rw [holds_write]
  intro r'
  cases hb : w.st.busy with
  | true => exact h.leaves hs hb r'
  | false => exact (h.outer_idle hs hb).leaves hb r'

/-- The epoch, where no cancellation is called. -/
theorem TInv.passed (h : TInv w) {m : Method} (hm : m ≠ .cancel ∧ m ≠ .invalidate) :
    w.st.epoch = cancels (w.enter m).log := by
  rw [h.count]
  cases m with
  | cancel => exact absurd rfl hm.1
  | invalidate => exact absurd rfl hm.2
  | _ => rfl

/-- A client changes the owner only. -/
theorem client_owner (m : Method) (d : TtsOutput) : ∃ o, client m d = { d with owner := o } := by
  unfold client
  split
  · split
    · exact ⟨_, rfl⟩
    · exact ⟨d.owner, rfl⟩
  · split
    · exact ⟨_, rfl⟩
    · exact ⟨d.owner, rfl⟩
  · split
    · exact ⟨_, rfl⟩
    · exact ⟨d.owner, rfl⟩
  · exact ⟨d.owner, rfl⟩

/-- A call of the owner. -/
theorem client_outer (h : TInv w) {m : Method} (hm : m.clients = true) : Outer m w (client m w.st) := by
  obtain ⟨o, ho⟩ := client_owner m w.st
  rw [ho]
  refine ⟨rfl, .inr hm, h.passed ⟨?_, ?_⟩⟩
  · rintro rfl
    cases hm
  · rintro rfl
    cases hm

/-- A call that refuses where another one is under way. -/
theorem TInv.refused (h : TInv w) {m : Method} (hm : m ≠ .cancel ∧ m ≠ .invalidate) {r : Except Exc Value}
    (hw : (w.st.busy = true → w' = w.enter m) ∧ (w.st.busy = false → Idle w')) : Leaves digest b ctx w r w' := by
  cases hb : w.st.busy with
  | true =>
    rw [hw.1 hb]
    exact h.leaves ⟨rfl, .inl rfl, h.passed hm⟩ hb r
  | false => exact (hw.2 hb).leaves hb r

/-- **Every method keeps the contract.** -/
theorem output_kept (digest : Providers.Manifest → String) (b : Binding) : (outputContract digest b).Kept where
  crash w s h hc := by cases hc
  method ctx meth w _ _ _ h := by
    show Holds (outputContract digest b) ctx w.next (body b meth) (Leaves digest b ctx w) (w.enter meth)
    have hraised : ∀ {m : Method}, m = .cancel ∨ m = .invalidate → w.st.epoch + 1 = cancels (w.enter m).log := by
      intro m hm
      rw [h.count]
      rcases hm with rfl | rfl <;> rfl
    cases meth with
    | start u =>
      unfold body
      rw [holds_bind]
      refine (holds_start h u).mono fun r w' hw => ?_
      cases r with
      | ok v => exact h.refused ⟨by simp, by simp⟩ hw
      | error e => exact h.refused ⟨by simp, by simp⟩ hw
    | poll =>
      unfold body
      rw [holds_bind]
      refine (holds_poll h).mono fun r w' hw => ?_
      cases r with
      | ok v => exact h.refused ⟨by simp, by simp⟩ hw
      | error e => exact h.refused ⟨by simp, by simp⟩ hw
    | cancel =>
      refine holds_silent ?_
      unfold invalidate
      rw [holds_bind, holds_write]
      exact h.finished ⟨rfl, .inl rfl, hraised (.inl rfl)⟩
    | invalidate => exact h.written ⟨rfl, .inl rfl, hraised (.inr rfl)⟩
    | finish =>
      refine holds_silent ?_
      rw [holds_bind, holds_write]
      exact h.finished ⟨rfl, .inl rfl, h.passed ⟨by simp, by simp⟩⟩
    | ownerBegin mode => exact h.written (client_outer h rfl)
    | ownerCancel generation => exact h.written (client_outer h rfl)
    | ownerRelease generation cleaned => exact h.written (client_outer h rfl)

end Tts

end Arhugula
