import Arhugula.Proof.LoopState

/-!
# The calls of an operation

One triple for each function that the operations are made of. The assertion `At` is kept by every callback; a
save moves the journal that stands now.
-/

namespace Arhugula

namespace Loop

open Reentrant Durable Strings Lit ReviewBudget

variable {H : Type}

/-- Acts, and what the shelf was then. -/
abbrev Seen (H : Type) := List (LAct H × (Shelf H → Prop))

/-- **While an operation runs**: the journal that it read, the journal now, and what it saw. -/
structure At (meth : Method H) (J₀ J : Journal H) (fs : Seen H) (s : Shelf H) (t : List (LEntry H)) : Prop where
  runs : Runs t meth
  read : HasRead t J₀
  now : Opens s.journal J
  facts : ∀ f ∈ fs, Saw t f.1 f.2

/-- The operation did not read the journal yet. -/
structure Unread (meth : Method H) (t : List (LEntry H)) : Prop where
  runs : Runs t meth
  unread : ∀ e ∈ t, ∀ a, e.act ≠ .reply .journal a

/-! ## Seen stand -/

variable {h : Host H} {sha256 : Text → Text} {j₀ : JSlot H} {i : ℕ} {meth : Method H} {J₀ J J' : Journal H} {fs : Seen H}
  {s s' : Shelf H} {t t' : List (LEntry H)} {op : Op H} {a : Answer} {α β : Type} {x : LAct H} {q : Shelf H → Prop}

theorem opened_opened {f : Journal H} (hf : f.opened = some J) : J.opened = some J := by
  unfold Journal.opened at hf ⊢
  split at hf
  · rename_i hv
    cases hf
    rw [if_pos hv]
    rfl
  · cases hf

theorem opened_active {f : Journal H} (hf : f.opened = some J) : J.version = 2 ∧ J.reservations = some J.active := by
  unfold Journal.opened at hf
  split at hf
  · rename_i hv
    cases hf
    exact ⟨hv, rfl⟩
  · cases hf

/-- What is opened has the accounts of the file. -/
theorem opened_keeps {f : Journal H} (hf : f.opened = some J) : J = { f with reservations := some f.active } := by
  unfold Journal.opened at hf
  split at hf
  · exact (Option.some.inj hf).symm
  · cases hf

theorem opened_of (hv : J.version = 2) (hr : J.reservations = some J.active) : J.opened = some J := by
  unfold Journal.opened
  rw [if_pos hv, ← hr]

theorem Opens.unique {s : JSlot H} (hJ : Opens s J) (hJ' : Opens s J') : J = J' := by
  obtain ⟨f, rfl, hf⟩ := hJ
  obtain ⟨f', hs, hf'⟩ := hJ'
  cases hs
  rw [hf] at hf'
  exact Option.some.inj hf'

theorem Opens.opened {s : JSlot H} (hJ : Opens s J) : J.opened = some J := by
  obtain ⟨f, rfl, hf⟩ := hJ
  exact opened_opened hf

theorem Saw.mono {l : List (LEntry H)} (hx : Saw t x q) : Saw (l ++ t) x q := by
  obtain ⟨e, he, hrest⟩ := hx
  exact ⟨e, List.mem_append_right l he, hrest⟩

/-- **A change between two journals that are there**: one save, read again. -/
theorem step_saves {z z' : JSlot H} (hstep : Step h t z z') (hJ : Opens z J) (hJ' : Opens z' J') :
    ∃ meth K, Runs t meth ∧ Saves h t meth J K ∧ J' = { K with reservations := some K.active } := by
  cases hstep with
  | saved hopened hruns hsaves hreplaced =>
    obtain ⟨f, hf, hfile⟩ := hJ
    cases hf
    obtain rfl : _ = J := Option.some.inj (hopened.symm.trans hfile)
    obtain ⟨g, hg, hg'⟩ := hJ'
    cases hg
    exact ⟨_, _, hruns, hsaves, opened_keeps hg'⟩
  | created session model effort goal handoff =>
    obtain ⟨f, hf, -⟩ := hJ
    cases hf
  | lost =>
    obtain ⟨f, hf, -⟩ := hJ'
    cases hf

/-- A journal is there before it changes, or it is a new one. -/
theorem step_opens {z z' : JSlot H} (hstep : Step h t z z') (hJ' : Opens z' J') :
    (∃ J, Opens z J) ∨ z = .absent ∧ ∃ session model effort goal handoff, J' = initial session model effort handoff goal := by
  cases hstep with
  | saved hopened hruns hsaves hreplaced => exact .inl ⟨_, _, rfl, hopened⟩
  | created session model effort goal handoff =>
    obtain ⟨f, hf, hf'⟩ := hJ'
    cases hf
    exact .inr ⟨rfl, session, model, effort, goal, handoff, opened_keeps hf'⟩
  | lost =>
    obtain ⟨f, hf, -⟩ := hJ'
    cases hf

/-- A path that was changed is not absent. -/
theorem step_present {z z' : JSlot H} (hstep : Step h t z z') : z' ≠ .absent := by
  intro habsent
  cases hstep <;> cases habsent

/-- **What every save keeps holds of every journal that is shown.** -/
theorem step_keeps {P : Journal H → Prop} (hinitial : ∀ session model effort goal handoff, P (initial session model effort handoff goal))
    (hopened : ∀ K : Journal H, P K → P { K with reservations := some K.active })
    (hsaves : ∀ t meth J K, Runs t meth → Saves h t meth J K → P J → P K) {z z' : JSlot H} (hstep : Step h t z z')
    (hz : ∀ J, Opens z J → P J) : ∀ J, Opens z' J → P J := by
  intro K hK
  rcases step_opens hstep hK with ⟨J, hJ⟩ | ⟨-, session, model, effort, goal, handoff, rfl⟩
  · obtain ⟨meth, L, hruns, hsave, rfl⟩ := step_saves hstep hJ hK
    exact hopened L (hsaves t meth J L hruns hsave (hz J hJ))
  · exact hinitial session model effort goal handoff

/-- A callback is no invocation. -/
theorem Runs.ask (hr : Runs t meth) : Runs (⟨i, .reply op a, s'⟩ :: ⟨i, .call op, s⟩ :: t) meth where
  invoked := hr.invoked.mono (l := [_, _])
  only := by
    intro e he m hm
    rcases List.mem_cons.1 he with rfl | he
    · cases hm
    rcases List.mem_cons.1 he with rfl | he
    · cases hm
    · exact hr.only e he m hm

/-- **A callback keeps what stands.** -/
theorem At.ask (hat : At meth J₀ J fs s t) (hs : s'.journal = s.journal) (hop : op = .journal → J = J₀) (hq : q s') :
    At meth J₀ J ((.reply op a, q) :: fs) s' (⟨i, .reply op a, s'⟩ :: ⟨i, .call op, s⟩ :: t) where
  runs := hat.runs.ask
  read := by
    refine ⟨hat.read.read.mono (l := [_, _]), fun e he hact => ?_⟩
    rcases List.mem_cons.1 he with rfl | he
    · cases hact
      rw [hs]
      exact hop rfl ▸ hat.now
    rcases List.mem_cons.1 he with rfl | he
    · cases hact
    · exact hat.read.only e he hact
  now := hs ▸ hat.now
  facts := by
    intro f hf
    rcases List.mem_cons.1 hf with rfl | hf
    · exact ⟨_, List.mem_cons_self, rfl, hq⟩
    · exact (hat.facts f hf).mono (l := [_, _])

theorem At.saw (hat : At meth J₀ J fs s t) (hx : (x, q) ∈ fs) : Saw t x q := hat.facts (x, q) hx

/-- A fact that is not needed any more. -/
theorem At.drop {f : LAct H × (Shelf H → Prop)} (hat : At meth J₀ J (f :: fs) s t) : At meth J₀ J fs s t :=
  { hat with facts := fun g hg => hat.facts g (List.mem_cons_of_mem f hg) }

/-! ## Triples -/

variable [DecidableEq H]

/-- A triple of the loop. -/
abbrev LDoes (h : Host H) (sha256 : Text → Text) (j₀ : JSlot H) (i : ℕ) (F : Shelf H → List (LEntry H) → Prop) (p : LM H α)
    (P : α → Shelf H → List (LEntry H) → Prop) : Prop :=
  (journalLaw h).Does j₀ (loop h sha256) i F p P

theorem does_and {b : Prop} {F : Shelf H → List (LEntry H) → Prop} {p : LM H α} {P : α → Shelf H → List (LEntry H) → Prop}
    (hp : b → LDoes h sha256 j₀ i F p P) : LDoes h sha256 j₀ i (fun s t => b ∧ F s t) p P :=
  Law.does_of (fun hb => (hp hb).pre fun _ _ hF => hF.2) fun _ _ hF => hF.1

/-- One callback. -/
theorem at_ask (hop : op = .journal → J = J₀) :
    LDoes h sha256 j₀ i (At meth J₀ J fs) (Prog.ask op) fun a s t =>
      ∀ q : Shelf H → Prop, q s → At meth J₀ J ((.reply op a, q) :: fs) s t :=
  Law.does_ask fun _ _ _ _ hat hs _ hq => hat.ask hs hop hq

/-- A call that gives no value. -/
theorem at_call (hop : op = .journal → J = J₀) :
    LDoes h sha256 j₀ i (At meth J₀ J fs) (call op) fun _ s t =>
      ∀ q : Shelf H → Prop, q s → At meth J₀ J ((.reply op .done, q) :: fs) s t := by
  refine (at_ask hop).bind fun a => ?_
  cases a with
  | done => exact Law.does_pure fun s t hF => hF
  | _ => exact Law.does_throw

/-- A call that gives no value, and that nothing looks at again. -/
theorem at_call' (hop : op = .journal → J = J₀) :
    LDoes h sha256 j₀ i (At meth J₀ J fs) (call op) fun _ => At meth J₀ J fs :=
  (at_call hop).post fun _ _ _ hF => (hF (fun _ => True) trivial).drop

/-- A call that gives a value. -/
theorem at_fetch {value : Answer → Option α} (hop : op ≠ .journal) :
    LDoes h sha256 j₀ i (At meth J₀ J fs) (fetch op value) fun v s t =>
      ∃ a, value a = some v ∧ At meth J₀ J ((.reply op a, fun _ => True) :: fs) s t := by
  refine (at_ask fun he => absurd he hop).bind fun a => ?_
  cases hv : value a with
  | none => exact Law.does_throw
  | some v => exact Law.does_pure fun s t hF => ⟨a, hv, hF _ trivial⟩

/-- A value that nothing looks at again. -/
theorem at_fetch' {value : Answer → Option α} (hop : op ≠ .journal) :
    LDoes h sha256 j₀ i (At meth J₀ J fs) (fetch op value) fun _ => At meth J₀ J fs :=
  (at_fetch hop).post fun _ _ _ ⟨_, _, hat⟩ => hat.drop

/-- `self._read`, for the first time. -/
theorem at_readJournal : LDoes h sha256 j₀ i (fun _ t => Unread meth t) readJournal fun v => At meth v v [] := by
  unfold readJournal
  have hcall : LDoes h sha256 j₀ i (fun _ t => Unread meth t) (call .journal) fun _ s t =>
      ∀ J, Opens s.journal J → At meth J J [] s t := by
    unfold call
    refine Law.Does.bind (P := fun a s t => a = .done → ∀ J, Opens s.journal J → At meth J J [] s t)
      (Law.does_ask ?_) fun a => ?_
    · rintro s t s' a hun - rfl J hJ
      refine ⟨hun.runs.ask, ⟨⟨_, List.mem_cons_self, rfl, hJ⟩, fun e he hact => ?_⟩, hJ, by simp⟩
      rcases List.mem_cons.1 he with rfl | he
      · exact hJ
      rcases List.mem_cons.1 he with rfl | he
      · cases hact
      · exact absurd hact (hun.unread e he _)
    · cases a with
      | done => exact Law.does_pure fun s t hF => hF rfl
      | _ => exact Law.does_throw
  refine hcall.bind fun _ => ?_
  refine (Law.does_read (P := fun v s t => v = s.journal ∧ ∀ J, Opens s.journal J → At meth J J [] s t)
    fun s t hF => ⟨rfl, hF⟩).bind fun v => ?_
  cases v with
  | absent => exact Law.does_throw
  | uncertain => exact Law.does_throw
  | holding file =>
    dsimp only
    cases ho : file.value.opened with
    | none => exact Law.does_throw
    | some J => exact Law.does_pure fun s t hF => hF.2 J ⟨file, hF.1.symm, ho⟩

/-- `self._read`, again. -/
theorem at_reread : LDoes h sha256 j₀ i (At meth J₀ J₀ fs) readJournal fun v s t => v = J₀ ∧ At meth J₀ J₀ fs s t := by
  unfold readJournal
  refine (at_call' fun _ => rfl).bind fun _ => ?_
  refine (Law.does_read (P := fun v s t => v = s.journal ∧ At meth J₀ J₀ fs s t) fun s t hF => ⟨rfl, hF⟩).bind fun v => ?_
  cases v with
  | absent => exact Law.does_throw
  | uncertain => exact Law.does_throw
  | holding file =>
    dsimp only
    cases ho : file.value.opened with
    | none => exact Law.does_throw
    | some J => exact Law.does_pure fun s t hF => ⟨Opens.unique ⟨file, hF.1.symm, ho⟩ hF.2.now, hF.2⟩

/-- `self._control`. -/
theorem at_readControl : LDoes h sha256 j₀ i (At meth J₀ J fs) readControl fun v =>
    At meth J₀ J ((.reply .control .done, IsRouting v.1 v.2) :: fs) := by
  unfold readControl
  refine (at_call fun he => by cases he).bind fun _ => ?_
  refine (Law.does_read (P := fun v s t => v = s.control ∧ ∀ q : Shelf H → Prop, q s →
    At meth J₀ J ((.reply .control .done, q) :: fs) s t) fun s t hF => ⟨rfl, hF⟩).bind fun v => ?_
  cases v with
  | absent => exact Law.does_throw
  | uncertain => exact Law.does_throw
  | holding file =>
    dsimp only
    refine Law.does_ite (fun _ => Law.does_throw) fun _ => ?_
    cases hb : file.value.bufords with
    | nil => exact Law.does_throw
    | cons row rows =>
      cases rows with
      | nil => exact Law.does_pure fun s t hF => hF.2 _ ⟨file, hF.1.symm, rfl, hb⟩
      | cons _ _ => exact Law.does_throw

/-- `file_binding(self.control)`. -/
theorem at_bindControl : LDoes h sha256 j₀ i (At meth J₀ J fs) (bindControl h) fun b =>
    At meth J₀ J ((.reply .bindControl .done, fun s => ∃ f, s.control = .holding f ∧ h.control f = b) :: fs) := by
  unfold bindControl
  refine (at_call fun he => by cases he).bind fun _ => ?_
  refine (Law.does_read (P := fun v s t => v = s.control ∧ ∀ q : Shelf H → Prop, q s →
    At meth J₀ J ((.reply .bindControl .done, q) :: fs) s t) fun s t hF => ⟨rfl, hF⟩).bind fun v => ?_
  cases v with
  | absent => exact Law.does_throw
  | uncertain => exact Law.does_throw
  | holding file => exact Law.does_pure fun s t hF => hF.2 _ ⟨file, hF.1.symm, rfl⟩

/-- `file_binding(self.path)`. -/
theorem at_bindJournal : LDoes h sha256 j₀ i (At meth J₀ J fs) (bindJournal h) fun _ => At meth J₀ J fs := by
  unfold bindJournal
  refine (at_call' fun he => by cases he).bind fun _ => ?_
  refine (Law.does_read (P := fun _ => At meth J₀ J fs) fun s t hF => hF).bind fun v => ?_
  cases v with
  | holding file => exact Law.does_pure fun s t hF => hF
  | _ => exact Law.does_throw

/-- `self.lit.read`. -/
theorem at_readLit {ticket : Text} : LDoes h sha256 j₀ i (At meth J₀ J fs) (readLit ticket) fun v =>
    At meth J₀ J ((.reply (.export ticket) (.exported v.1 v.2), fun _ => True) :: fs) := by
  unfold readLit
  refine (at_fetch fun he => by cases he).bind fun v => Law.does_exists fun a => does_and fun ha => ?_
  refine Law.does_ite (fun _ => Law.does_throw) fun _ => Law.does_pure fun s t hF => ?_
  cases a with
  | exported data reads =>
    cases ha
    exact hF
  | _ => cases ha

/-- What a function that calls nothing gives. -/
theorem does_given {r : Except Exc α} {F : Shelf H → List (LEntry H) → Prop} :
    LDoes h sha256 j₀ i F (given r) fun v s t => r = .ok v ∧ F s t :=
  Law.does_ofExcept fun _ hr _ _ hF => ⟨hr, hF⟩

/-- **A save.** -/
theorem at_save (J' : Journal H) (hopened : J'.opened = some J') (hsaves : ∀ s t, At meth J₀ J fs s t → Saves h t meth J J') :
    LDoes h sha256 j₀ i (At meth J₀ J fs) (save J') fun _ => At meth J₀ J' fs := by
  unfold save
  refine (Law.does_save (fun s x => ⟨rfl, rfl⟩) ?_ fun t => Step.lost).post ?_
  · rintro s' t' ⟨s, t, a, hat, hs, hraised, rfl⟩
    have hdone : a = .done := by
      cases a with
      | done => rfl
      | _ => cases hraised
    subst hdone
    have hat' : At meth J₀ J ((.reply (.replace (published J')) .done, fun _ => True) :: fs) s'
        (⟨i, .reply (.replace (published J')) .done, s'⟩ :: ⟨i, .call (.replace (published J')), s⟩ :: t) :=
      hat.ask hs (fun he => by cases he) trivial
    obtain ⟨f, hf, ho⟩ := hat'.now
    show Step h _ s'.journal _
    rw [hf]
    exact .saved ho hat'.runs (hsaves _ _ hat'.drop) (hat'.facts _ List.mem_cons_self)
  · rintro _ s' t' ⟨hview, s, t, s₁, s₂, s₃, a, b, hat, hs, rfl⟩
    have hat₁ : At meth J₀ J ((.reply (.replace (published J')) a, fun _ => True) :: fs) s₁
        (⟨i, .reply (.replace (published J')) a, s₁⟩ :: ⟨i, .call (.replace (published J')), s⟩ :: t) :=
      hat.ask hs (fun he => by cases he) trivial
    refine ⟨hat₁.runs.ask, ⟨hat₁.read.read.mono (l := [_, _]), fun e he hact => ?_⟩, ⟨_, hview, hopened⟩, fun f hf => ?_⟩
    · rcases List.mem_cons.1 he with rfl | he
      · cases hact
      rcases List.mem_cons.1 he with rfl | he
      · cases hact
      · exact hat₁.read.only e he hact
    · exact (hat₁.drop.facts f hf).mono (l := [_, _])

/-- A save that changes neither the version nor, unless they are listed, the reservations. -/
theorem at_saves (hversion : J'.version = J.version)
    (hreservations : J'.reservations = J.reservations ∨ J'.reservations = some J'.active)
    (hsaves : ∀ s t, At meth J₀ J fs s t → Saves h t meth J J') :
    LDoes h sha256 j₀ i (At meth J₀ J fs) (save J') fun _ => At meth J₀ J' fs := by
  refine Law.does_of (fun hJ => ?_) fun s t hat => hat.now.opened
  obtain ⟨hv, hres⟩ := opened_active hJ
  refine at_save J' (opened_of (hversion.trans hv) ?_) hsaves
  rcases hreservations with hr | hr
  · unfold Journal.active
    rw [hr, hres]
    rfl
  · exact hr

end Loop

end Arhugula
