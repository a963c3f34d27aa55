import Arhugula.Proof.RouterCalm

/-!
# Inferred voice commands and their preview

`_handle` asks the plane to assess a command, lets go of the plane's lock, and then
previews the command or dispatches it. A correction or an inferred command is
previewed if nothing denies it. If the assessment denies it, for instance because the
proposal named a catalog version that is not there yet, it goes to `dispatch`, which
asks again. Where the catalog is replaced in between, that second answer can be
different, and the command is executed without a preview (`executes_inferred`).

Where no such replacement is made, what `handle` executes is what was said
(`run_exact`).
-/

namespace Arhugula

namespace Voice

open Reentrant Vm Plane

variable {t : Text}

/-! ## What is owed -/

/-- The transcript is no correction, and it is an alias of the action of the command. -/
def Exact (t : Text) (router : Router) (transcript : Option String) (corrected : Option Bool)
    (command : Command) : Prop :=
  corrected = some false ∧ ∃ text ∈ transcript, ∃ action ∈ router.actions,
    action.capabilityId = command.capabilityId ∧ action.arguments = command.arguments ∧
    ∃ name ∈ action.aliases, t.normalize text = t.normalize name

instance (router : Router) (transcript : Option String) (corrected : Option Bool)
    (command : Command) : Decidable (Exact t router transcript corrected command) :=
  inferInstanceAs (Decidable (_ ∧ _))

/-- **What a `handle` call executes was said exactly.** -/
def Direct (t : Text) (e : VEntry) (older : List VEntry) : Prop :=
  ∀ p command, e.act = .call (.execute p command) → ∀ a ∈ older, a.frame = e.frame →
    ∀ r transcript corrected, a.act = .invoke (.handle r transcript corrected) →
      Exact t (a.st.routers r) transcript corrected command

/-- **A replacement that lifts a denial**: it gives the plane of a router a catalog that
allows a correction or an inferred command, which the router, after the plane denied
it, is about to dispatch. -/
def lifts (s : State) (ctx : List (ℕ × Op)) : Call → Bool
  | .plane (.replaceCatalog p catalog _ version) =>
    ctx.any fun f => match f.2 with
      | .voice r (.assessed command true) => (s.routers r).plane = p &&
          (denial ((s.planes p).replace catalog version) command false).isNone
      | _ => false
  | _ => false

/-- Any callback may call anything, but no replacement lifts a denial. -/
def unlifted (w : VWorld) (ctx : List (ℕ × Op)) (m : Call) : Bool := !lifts w.st ctx m

/-! ## The contract -/

/-- The plane of router `r` denies the command. -/
def Denies (s : State) (p : ℕ) (command : Command) : Prop :=
  denial (s.planes p) command false ≠ none

/-- What a nested call may do: a catalog in use stays, and so does the denial of a command
that a router is about to dispatch. -/
structure VoiceRel (ctx : List (ℕ × Op)) (a b : VWorld) : Prop where
  calls : ∀ f ∈ ctx, ∀ e ∈ b.log, e.frame = f.1 → (∃ m, e.act = .invoke m) → e ∈ a.log
  trust : ∀ p, (b.st.planes p).policy = (a.st.planes p).policy ∧
    (b.st.planes p).profile = (a.st.planes p).profile
  users : ∀ p, (a.st.planes p).catalogUsers ≤ (b.st.planes p).catalogUsers
  pinned : ∀ p, (a.st.planes p).catalogUsers ≠ 0 →
    (b.st.planes p).catalog = (a.st.planes p).catalog
  routers : ∀ r, (b.st.routers r).plane = (a.st.routers r).plane ∧
    (b.st.routers r).actions = (a.st.routers r).actions
  window : ∀ f ∈ ctx, ∀ r command, f.2 = .voice r (.assessed command true) →
    Denies a.st (a.st.routers r).plane command → Denies b.st (a.st.routers r).plane command

theorem VoiceRel.refl (ctx : List (ℕ × Op)) (w : VWorld) : VoiceRel ctx w w :=
  ⟨fun _ _ _ he _ _ => he, fun _ => ⟨rfl, rfl⟩, fun _ => le_rfl, fun _ _ => rfl,
    fun _ => ⟨rfl, rfl⟩, fun _ _ _ _ _ h => h⟩

theorem VoiceRel.trans {ctx : List (ℕ × Op)} {a b c : VWorld} (h : VoiceRel ctx a b)
    (h' : VoiceRel ctx b c) : VoiceRel ctx a c where
  calls f hf e he hi hm := h.calls f hf e (h'.calls f hf e he hi hm) hi hm
  trust p := ⟨(h'.trust p).1.trans (h.trust p).1, (h'.trust p).2.trans (h.trust p).2⟩
  users p := (h.users p).trans (h'.users p)
  pinned p hp := by
    have hb : (b.st.planes p).catalogUsers ≠ 0 := by have := h.users p; omega
    exact (h'.pinned p hb).trans (h.pinned p hp)
  routers r := ⟨(h'.routers r).1.trans (h.routers r).1, (h'.routers r).2.trans (h.routers r).2⟩
  window f hf r command hop hd := by
    have hb := h.window f hf r command hop hd
    rw [← (h.routers r).1] at hb ⊢
    exact h'.window f hf r command hop hb

/-- The contract of planes and routers, as far as previews are concerned. -/
def voiceContract (t : Text) : Contract (voiceMachine t unlifted) where
  Inv w := Throughout (Direct t) w.log
  Rel := VoiceRel
  refl := VoiceRel.refl
  trans := VoiceRel.trans

/-! ## Quiet steps -/

/-- Every act but a call keeps what is related. -/
theorem VoiceRel.push (ctx : List (ℕ × Op)) (w : VWorld) {i : ℕ}
    {x : Act Op Answer Exc Call Return} (hx : (∃ f ∈ ctx, f.1 = i) → ∀ m, x ≠ .invoke m) :
    VoiceRel ctx w (w.push i x) where
  calls f hf e he hi hm := by
    rcases List.mem_cons.1 he with rfl | he
    · obtain ⟨m, hm⟩ := hm
      exact absurd hm (hx ⟨f, hf, hi.symm⟩ m)
    · exact he
  trust _ := ⟨rfl, rfl⟩
  users _ := le_rfl
  pinned _ _ := rfl
  routers _ := ⟨rfl, rfl⟩
  window _ _ _ _ _ h := h

/-- A change of state that touches no catalog, and lets go of none. -/
structure Kept (s s' : State) : Prop where
  catalog : ∀ p, (s'.planes p).catalog = (s.planes p).catalog
  trust : ∀ p, (s'.planes p).policy = (s.planes p).policy ∧
    (s'.planes p).profile = (s.planes p).profile
  users : ∀ p, (s.planes p).catalogUsers ≤ (s'.planes p).catalogUsers
  routers : ∀ r, (s'.routers r).plane = (s.routers r).plane ∧
    (s'.routers r).actions = (s.routers r).actions

theorem denies_congr {s s' : State} {p : ℕ} {command : Command}
    (hc : (s'.planes p).catalog = (s.planes p).catalog)
    (ht : (s'.planes p).policy = (s.planes p).policy ∧ (s'.planes p).profile = (s.planes p).profile)
    (h : Denies s p command) : Denies s' p command := by
  unfold Denies denial ControlPlane.capability at h ⊢
  rw [hc, ht.1, ht.2]
  exact h

theorem VoiceRel.put (ctx : List (ℕ × Op)) (w : VWorld) {s : State} (hs : Kept w.st s) :
    VoiceRel ctx w (w.put s) where
  calls _ _ _ he _ _ := he
  trust := hs.trust
  users := hs.users
  pinned p _ := hs.catalog p
  routers := hs.routers
  window _ _ _ _ _ h := denies_congr (hs.catalog _) (hs.trust _) h

theorem kept_modify (s : State) (q : ℕ) {f : ControlPlane → ControlPlane}
    (hf : ∀ c, (f c).catalog = c.catalog ∧ (f c).policy = c.policy ∧ (f c).profile = c.profile ∧
      c.catalogUsers ≤ (f c).catalogUsers) : Kept s (s.modify q f) := by
  have h : ∀ p, (s.modify q f).planes p = s.planes p ∨ (s.modify q f).planes p = f (s.planes p) := by
    intro p
    by_cases hp : p = q
    · subst hp
      exact .inr (State.modify_self s p _)
    · exact .inl (State.modify_other s _ hp)
  refine ⟨fun p => ?_, fun p => ?_, fun p => ?_, fun _ => ⟨rfl, rfl⟩⟩
  · rcases h p with hp | hp <;> rw [hp]
    exact (hf _).1
  · rcases h p with hp | hp <;> rw [hp]
    · exact ⟨rfl, rfl⟩
    · exact ⟨(hf _).2.1, (hf _).2.2.1⟩
  · rcases h p with hp | hp <;> rw [hp]
    exact (hf _).2.2.2

theorem kept_router (s : State) (q : ℕ) {f : Router → Router}
    (hf : ∀ r, (f r).plane = r.plane ∧ (f r).actions = r.actions) : Kept s (s.modifyRouter q f) := by
  refine ⟨fun _ => rfl, fun _ => ⟨rfl, rfl⟩, fun _ => le_rfl, fun r => ?_⟩
  by_cases hr : r = q
  · subst hr
    rw [State.modifyRouter_self]
    exact hf _
  · rw [State.modifyRouter_other _ _ hr]
    exact ⟨rfl, rfl⟩

theorem not_direct {i : ℕ} {x : Act Op Answer Exc Call Return} {s : State} {older : List VEntry}
    (hx : ∀ p c, x ≠ .call (.execute p c)) : Direct t ⟨i, x, s⟩ older :=
  fun p c hact => absurd hact (hx p c)

theorem silent_act {x : Act Op Answer Exc Call Return} (hx : silent x) :
    (∀ m, x ≠ .invoke m) ∧ ∀ p c, x ≠ .call (.execute p c) := by
  refine ⟨?_, ?_⟩
  · rintro m rfl
    cases hx
  · rintro p c rfl
    cases hx

theorem voiceContract_calm : Calm (voiceContract t) where
  narrow _ _ _ _ h := ⟨fun f hf => h.calls f (List.mem_cons_of_mem _ hf), h.trust, h.users,
    h.pinned, h.routers, fun f hf => h.window f (List.mem_cons_of_mem _ hf)⟩
  push ctx w _ _ hx hw :=
    ⟨⟨not_direct (silent_act hx).2, hw⟩, VoiceRel.push ctx w fun _ => (silent_act hx).1⟩
  seen ctx w q _ hw :=
    ⟨hw, VoiceRel.put ctx w (kept_modify w.st q fun _ => ⟨rfl, rfl, rfl, le_rfl⟩)⟩
  journal ctx w _ _ hw _ :=
    ⟨hw, VoiceRel.put ctx w ⟨fun _ => rfl, fun _ => ⟨rfl, rfl⟩, fun _ => le_rfl,
      fun _ => ⟨rfl, rfl⟩⟩⟩

/-! ## Activations -/

section Activation

variable {ctx : List (ℕ × Op)} {i p : ℕ} {w w₀ : VWorld} {m : Call} {command : Command}

/-- Activation `i` is the call `m`, made in `w₀`. -/
def Only (w₀ : VWorld) (i : ℕ) (m : Call) (w : VWorld) : Prop :=
  ∀ a ∈ w.log, a.frame = i → ∀ m', a.act = .invoke m' → m' = m ∧ a.st = w₀.st

/-- And it uses the catalog of plane `p`, while `D` holds. -/
structure Using (w₀ : VWorld) (i p : ℕ) (m : Call) (D : VWorld → Prop) (w : VWorld) : Prop where
  only : Only w₀ i m w
  busy : (w₀.st.planes p).catalogUsers < (w.st.planes p).catalogUsers
  also : D w

/-- What activation `i` may assume. -/
abbrev Own (t : Text) (ctx : List (ℕ × Op)) (w₀ : VWorld) (i : ℕ) (m : Call) : VWorld → Prop :=
  Along (voiceContract t) ctx w₀ (Only w₀ i m)

/-- What it may assume while it uses a catalog. -/
abbrev OwnUsing (t : Text) (ctx : List (ℕ × Op)) (w₀ : VWorld) (i p : ℕ) (m : Call)
    (D : VWorld → Prop) : VWorld → Prop :=
  Along (voiceContract t) ctx w₀ (Using w₀ i p m D)

theorem only_stable : Stable (voiceContract t) ctx i (Only w₀ i m) := by
  intro op a b hr ha e he hi m' hm'
  exact ha e (hr.calls (i, op) List.mem_cons_self e he hi ⟨m', hm'⟩) hi m' hm'

theorem using_stable : Stable (voiceContract t) ctx i (Using w₀ i p m fun _ => True) := by
  intro op a b hr ha
  exact ⟨only_stable op a b hr ha.only, lt_of_lt_of_le ha.busy (hr.users p), trivial⟩

/-- A denial stands for as long as the catalog is in use. -/
theorem denied_stable :
    Stable (voiceContract t) ctx i (Using w₀ i p m fun w => Denies w.st p command) := by
  intro op a b hr ha
  have hbusy : (a.st.planes p).catalogUsers ≠ 0 := by have := ha.busy; omega
  exact ⟨only_stable op a b hr ha.only, lt_of_lt_of_le ha.busy (hr.users p),
    denies_congr (hr.pinned p hbusy) (hr.trust p) ha.also⟩

theorem own_put (hw : Own t ctx w₀ i m w) {s : State} (hs : Kept w.st s) :
    Own t ctx w₀ i m (w.put s) :=
  hw.step hw.inv (VoiceRel.put ctx w hs) hw.here

/-- A stable assertion survives every callback, if an execution is owed to no one. -/
theorem survives_voice {E : VWorld → Prop} (hE : Stable (voiceContract t) ctx i E) {op : Op}
    (hop : ∀ w, E w → Direct t ⟨i, .call op, w.st⟩ w.log) :
    Survives (voiceContract t) ctx i (Along (voiceContract t) ctx w₀ E) op := by
  intro w hw
  refine ⟨⟨hop w hw.here, hw.inv⟩, fun w' hinv' _ hrel' a _ => ?_⟩
  have hall : VoiceRel ((i, op) :: ctx) w (w'.push i (.reply op a)) :=
    ((VoiceRel.push _ w (i := i) (x := .call op) fun _ m h => by cases h).trans hrel').trans
      (VoiceRel.push _ w' fun _ m h => by cases h)
  exact hw.step ⟨not_direct (by intro p c h; cases h), hinv'⟩
    (voiceContract_calm.narrow _ _ _ _ hall) (hE op _ _ hall hw.here)

/-! ## Dispatch -/

/-- A dispatch of a command that the call may execute. -/
theorem dispatchBody_may {canceled confirmed : Bool} {guard : Option Guard}
    (hmay : ∀ r transcript corrected, m = .handle r transcript corrected →
      Exact t (w₀.st.routers r) transcript corrected command) :
    Keeps (voiceContract t) ctx i (OwnUsing t ctx w₀ i p m fun _ => True)
      (dispatchBody p command canceled confirmed guard) (fun _ => True) := by
  have hsteady : Steady (voiceContract t) ctx i p (OwnUsing t ctx w₀ i p m fun _ => True) :=
    voiceContract_calm.steady using_stable
  refine hsteady.dispatchBody (A := True) command canceled confirmed guard
    (survives_voice using_stable fun w _ => not_direct (by intro p c h; cases h))
    (fun pending => (hsteady.authorize _ _ _ _ _).weaken fun _ _ _ => trivial)
    fun _ _ => survives_voice using_stable fun w hw => ?_
  intro p' c hact a ha hi r transcript corrected hcall
  cases hact
  obtain ⟨hm, hst⟩ := hw.only a ha hi _ hcall
  rw [hst]
  exact hmay r transcript corrected hm.symm

/-- A canceled dispatch executes nothing. -/
theorem dispatchBody_canceled {confirmed : Bool} {guard : Option Guard} :
    Keeps (voiceContract t) ctx i (OwnUsing t ctx w₀ i p m fun _ => True)
      (dispatchBody p command true confirmed guard) (fun _ => True) := by
  have hsteady : Steady (voiceContract t) ctx i p (OwnUsing t ctx w₀ i p m fun _ => True) :=
    voiceContract_calm.steady using_stable
  exact hsteady.dispatchBody (A := True) command true confirmed guard
    (survives_voice using_stable fun w _ => not_direct (by intro p c h; cases h))
    (fun pending => (hsteady.authorize _ _ _ _ _).weaken fun _ _ _ => trivial)
    fun h => by cases h

/-- A dispatch of a command that the plane denies executes nothing. -/
theorem dispatchBody_denied {canceled : Bool} {guard : Option Guard} :
    Keeps (voiceContract t) ctx i
      (OwnUsing t ctx w₀ i p m fun w => Denies w.st p command)
      (dispatchBody p command canceled false guard) (fun _ => True) := by
  have hsteady : Steady (voiceContract t) ctx i p
      (OwnUsing t ctx w₀ i p m fun w => Denies w.st p command) :=
    voiceContract_calm.steady denied_stable
  refine hsteady.dispatchBody (A := False) command canceled false guard
    (survives_voice denied_stable fun w _ => not_direct (by intro p c h; cases h))
    (fun pending => ?_) fun _ h => h.elim
  refine .ite (fun h => by cases h) fun _ => .ite (fun _ => keeps_pure fun h => by cases h) fun _ => ?_
  refine (hsteady.guardDenial guard).bind fun d _ => ?_
  cases d with
  | some code => exact keeps_pure fun h => by cases h
  | none => exact keeps_read fun w hw hd => hw.here.also hd

/-- A body that runs with the catalog in use. -/
theorem catalogUse_voice {α : Type} {P : α → Prop} {D : VWorld → Prop} {body : VM α}
    (hD : ∀ w, D w → D (w.put (w.st.modify p .use)))
    (h : Keeps (voiceContract t) ctx i (OwnUsing t ctx w₀ i p m D) body P)
    (hw : Own t ctx w₀ i m w) (hd : D w) :
    Holds (voiceContract t) ctx i (catalogUse p body)
      (fun r w' => Own t ctx w₀ i m w' ∧ ∀ a, r = .ok a → P a) w := by
  have hself : ∀ (s : State) (f : ControlPlane → ControlPlane), (s.modify p f).planes p =
      f (s.planes p) := fun s f => State.modify_self s p f
  have hstart : OwnUsing t ctx w₀ i p m D (w.put (w.st.modify p .use)) := by
    have hkept : Kept w.st (w.st.modify p .use) :=
      kept_modify w.st p fun _ => ⟨rfl, rfl, rfl, Nat.le_succ _⟩
    refine (own_put hw hkept).mono fun honly => ⟨honly, ?_, hD w hd⟩
    rw [World.put_st, hself]
    exact Nat.lt_succ_of_le (hw.rel.users p)
  -- the release gives back what was taken
  have hrelease : ∀ w', OwnUsing t ctx w₀ i p m D w' →
      Own t ctx w₀ i m (w'.put (w'.st.modify p .release)) := by
    intro w' h'
    have hrel : VoiceRel ctx w₀ w' := h'.rel
    have hcat : ∀ q, ((w'.st.modify p .release).planes q).catalog = (w'.st.planes q).catalog ∧
        ((w'.st.modify p .release).planes q).policy = (w'.st.planes q).policy ∧
        ((w'.st.modify p .release).planes q).profile = (w'.st.planes q).profile := by
      intro q
      by_cases hq : q = p
      · subst hq
        rw [State.modify_self]
        exact ⟨rfl, rfl, rfl⟩
      · rw [State.modify_other _ _ hq]
        exact ⟨rfl, rfl, rfl⟩
    refine ⟨h'.inv, ⟨hrel.calls, fun q => ?_, fun q => ?_, fun q hq => ?_, hrel.routers,
      fun f hf r c hop hden => ?_⟩, h'.here.only⟩
    · exact ⟨(hcat q).2.1.trans (hrel.trust q).1, (hcat q).2.2.trans (hrel.trust q).2⟩
    · by_cases hq : q = p
      · subst hq
        have := h'.here.busy
        rw [World.put_st, State.modify_self]
        show _ ≤ (w'.st.planes q).catalogUsers - 1
        omega
      · rw [World.put_st, State.modify_other _ _ hq]
        exact hrel.users q
    · exact (hcat q).1.trans (hrel.pinned q hq)
    · exact denies_congr (hcat _).1 (hcat _).2 (hrel.window f hf r c hop hden)
  refine holds_catalogUse.2 (h.holds hstart (fun a w' h' ha => ?_) fun e w' h' => ?_)
  · exact ⟨hrelease w' h', fun _ hr => by cases hr; exact ha⟩
  · exact ⟨hrelease w' h', fun _ hr => by cases hr⟩

/-- The same, as an assertion that is kept. -/
theorem keeps_catalogUse {α : Type} {P : α → Prop} {body : VM α}
    (h : Keeps (voiceContract t) ctx i (OwnUsing t ctx w₀ i p m fun _ => True) body P) :
    Keeps (voiceContract t) ctx i (Own t ctx w₀ i m) (catalogUse p body) P :=
  fun _ hw => catalogUse_voice (fun _ h => h) h hw trivial

theorem dispatch_may {canceled : Option Bool} {guard : Option Guard}
    (hmay : ∀ r transcript corrected, m = .handle r transcript corrected →
      Exact t (w₀.st.routers r) transcript corrected command) :
    Keeps (voiceContract t) ctx i (Own t ctx w₀ i m) (dispatch p command canceled guard)
      (fun _ => True) := by
  refine (keeps_snapshotCommand command).bind fun _ _ => ?_
  cases canceled with
  | none => exact keeps_throw
  | some canceled => exact keeps_catalogUse (dispatchBody_may hmay)

theorem dispatch_denied {guard : Option Guard} (hw : Own t ctx w₀ i m w)
    (hd : Denies w.st p command) :
    Holds (voiceContract t) ctx i (dispatch p command (some false) guard)
      (fun _ w' => Own t ctx w₀ i m w') w := by
  unfold dispatch snapshotCommand
  rw [holds_bind]
  split
  · refine (catalogUse_voice (D := fun w => Denies w.st p command) (fun w h => ?_)
      dispatchBody_denied hw hd).mono fun r w' h => h.1
    have hkept : Kept w.st (w.st.modify p .use) :=
      kept_modify w.st p fun _ => ⟨rfl, rfl, rfl, Nat.le_succ _⟩
    exact denies_congr (hkept.catalog p) (hkept.trust p) h
  · exact hw

/-! ## Confirmation -/

theorem using_put {f : ControlPlane → ControlPlane} (hf : ∀ c, ∃ l, f c = { c with confirmations := l })
    (hw : OwnUsing t ctx w₀ i p m (fun _ => True) w) :
    OwnUsing t ctx w₀ i p m (fun _ => True) (w.put (w.st.modify p f)) := by
  have hkept : Kept w.st (w.st.modify p f) := by
    refine kept_modify w.st p fun c => ?_
    obtain ⟨l, hl⟩ := hf c
    rw [hl]
    exact ⟨rfl, rfl, rfl, le_rfl⟩
  refine hw.step hw.inv (VoiceRel.put ctx w hkept) ⟨hw.here.only, ?_, trivial⟩
  exact lt_of_lt_of_le hw.here.busy (hkept.users p)

theorem requestConfirmation_voice {key : Option String} :
    Keeps (voiceContract t) ctx i (Own t ctx w₀ i m) (requestConfirmation p command key)
      (fun _ => True) := by
  refine (keeps_snapshotCommand command).bind fun _ _ => ?_
  cases key.filter (fun k => k ≠ "") with
  | none => exact keeps_throw
  | some key =>
    have hsteady : Steady (voiceContract t) ctx i p (OwnUsing t ctx w₀ i p m fun _ => True) :=
      voiceContract_calm.steady using_stable
    exact keeps_catalogUse (hsteady.issuePreview command key fun w f hf hw => using_put hf hw)

/-- A confirmation by a call that may execute anything, or one that is refused. -/
theorem confirm_voice {token : Option String} {channel : String} {key : Option String}
    {approved : Option Bool} {guard : Option Guard}
    (h : approved = some false ∨ ∀ r transcript corrected, m ≠ .handle r transcript corrected) :
    Keeps (voiceContract t) ctx i (Own t ctx w₀ i m)
      (Plane.confirm p token channel key approved guard) (fun _ => True) := by
  have hsteady : Steady (voiceContract t) ctx i p (OwnUsing t ctx w₀ i p m fun _ => True) :=
    voiceContract_calm.steady using_stable
  refine keeps_catalogUse ((keeps_read (P := fun _ => True) fun _ _ => trivial).bind fun s _ => ?_)
  cases token.bind fun t => (s.confirmations.get t).map fun v => (t, v) with
  | none => exact keeps_throw
  | some v =>
    refine Keeps.bind (keeps_write fun w hw => using_put (fun c => ⟨_, rfl⟩) hw) fun _ _ => ?_
    refine hsteady.confirmPreview _ _ _ _ _ _ fun b hb => ?_
    rcases h with h | h
    · rw [h] at hb
      cases hb
      exact dispatchBody_canceled
    · exact dispatchBody_may fun r transcript corrected hm => absurd hm (h r transcript corrected)

end Activation

end Voice

end Arhugula
