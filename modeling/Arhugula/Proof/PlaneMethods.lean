import Arhugula.Proof.PlaneDispatch

/-!
# Every method of a plane keeps the authorization contract

The methods, from their call to their return. `replace_catalog` and `assess` make no
callback. `request_confirmation` adds a token that no table has seen, and `confirm`
takes one out before anything else.
-/

namespace Arhugula

namespace Plane

open Reentrant Vm

variable {ctx : List (ℕ × Op)} {w w₀ : PWorld} {i p : ℕ} {command : Command}
  {confirmed : Bool} {guard : Option Guard}

/-! ## Taking hold of the catalog, and giving it back -/

@[simp] theorem modify_use_release (s : State) (p : ℕ) : (s.modify p .use).modify p .release = s := by
  have h : ((s.modify p .use).modify p .release).planes = s.planes := by
    funext q
    by_cases hq : q = p
    · subst hq
      rw [State.modify_self, State.modify_self]
      rfl
    · rw [State.modify_other _ _ hq, State.modify_other _ _ hq]
  cases s
  simp only [State.modify] at h ⊢
  rw [State.mk.injEq]
  exact ⟨h, rfl, rfl⟩

/-- A call that holds the catalog of `p`, and consumes no token. -/
theorem entering_use {s : State} {m : Method} (hm : ∀ q, m.authorizes q = decide (q = p))
    (hc : ∀ i token, ¬ Consumes token ⟨i, .invoke m, s⟩) : Entering s m (s.modify p .use) := by
  have h : ∀ q, q ≠ p → (s.modify p .use).planes q = s.planes q :=
    fun q hq => State.modify_other s _ hq
  have hp : (s.modify p .use).planes p = (s.planes p).use := State.modify_self s p _
  refine ⟨fun q => ?_, fun q => ?_, rfl, fun q => ?_, fun q x hx => ?_,
    fun i token hcon => absurd hcon (hc i token)⟩
  · by_cases hq : q = p
    · subst hq; rw [hp]; exact ⟨rfl, rfl⟩
    · rw [h q hq]; exact ⟨rfl, rfl⟩
  · by_cases hq : q = p
    · subst hq; rw [hp]; exact ⟨rfl, rfl⟩
    · rw [h q hq]; exact ⟨rfl, rfl⟩
  · by_cases hq : q = p
    · subst hq; rw [hp, hm]; simp [ControlPlane.use]
    · rw [h q hq, hm]; simp [hq]
  · by_cases hq : q = p
    · subst hq; rw [hp] at hx; exact hx
    · rw [h q hq] at hx; exact hx

/-- A call that holds no catalog. -/
theorem entering_free {s : State} {m : Method} (hm : ∀ q, m.authorizes q = false)
    (hc : ∀ i token, ¬ Consumes token ⟨i, .invoke m, s⟩) : Entering s m s :=
  ⟨fun _ => ⟨rfl, rfl⟩, fun _ => ⟨rfl, rfl⟩, rfl, fun q => by simp [hm], fun _ _ h => h,
    fun i token hcon => absurd hcon (hc i token)⟩

/-- What an activation has at its first callback. -/
theorem AuthInv.along (h : AuthInv w) (hlt : ∀ e ∈ w.log, e.frame < w.next)
    (hctx : ∀ f ∈ ctx, f.1 < w.next) {m : Method} {s : State} (hs : Entering w.st m s)
    {E : PWorld → Prop} (hE : E ((w.enter m).put s)) :
    Along authContract ctx w E ((w.enter m).put s) :=
  ⟨h.enter hlt hs, AuthRel.enter hctx hs, hE⟩

/-- The activation that just took hold of the catalog of `p`. -/
theorem holder_enter (hlt : ∀ e ∈ w.log, e.frame < w.next) {m : Method} {s : State}
    (hs : Entering w.st m s) (hm : ∀ q, m.authorizes q = decide (q = p)) :
    Holder w w.next p ((w.enter m).put s) := by
  refine ⟨fun q => ?_, (hs.terms p).1, (hs.terms p).2, (hs.trust p).1, (hs.trust p).2⟩
  rw [World.put_log, openOn_enter, hm]
  by_cases hq : q = p
  · simp [hq]
  · simp [hq, next_not_open hlt q]

/-- A new activation has executed nothing. -/
theorem runs_enter (hlt : ∀ e ∈ w.log, e.frame < w.next) (m : Method) :
    runs (w.enter m).log w.next = 0 := by
  unfold runs
  rw [List.countP_eq_zero]
  intro e he
  rcases List.mem_cons.1 he with rfl | he
  · simp [PEntry.executes]
  · have : e.frame ≠ w.next := by have := hlt e he; omega
    simp [this]

theorem length_filter_ne {l : List ℕ} (h : l.Nodup) (hi : i ∈ l) :
    (l.filter fun j => j ≠ i).length = l.length - 1 := by
  have he := List.length_erase_of_mem hi
  rw [h.erase_eq_filter] at he
  rw [← he]
  congr 1
  refine List.filter_congr fun j _ => ?_
  by_cases hj : j = i <;> simp [hj]

theorem filter_ne_self {l : List ℕ} (hi : i ∉ l) : (l.filter fun j => j ≠ i) = l := by
  rw [List.filter_eq_self]
  intro j hj
  have : j ≠ i := fun h => hi (h ▸ hj)
  simpa using this

theorem lawful_ret (hinv : AuthInv w) {r : Except Exc Value} {s : State}
    (hver : ∀ q, (w.st.planes q).catalogVersion ≤ (s.planes q).catalogVersion)
    (hpin : ∀ q, ∀ j ∈ openOn q w.log, (s.planes q).catalog = (w.st.planes q).catalog ∧
      (s.planes q).catalogVersion = (w.st.planes q).catalogVersion)
    (hrep : Replaced ⟨i, .ret r, s⟩ w.log)
    (hhon : ∀ res, r = .ok (.result res) → Honest w.log s.journal i res) :
    Lawful ⟨i, .ret r, s⟩ w.log := by
  refine ⟨fun _ _ hact => ?_, fun hx => ?_, fun token hc => ?_, hrep,
    fun q j hj b hb hf hcall => ?_, fun b hb q => Int.le_trans (hinv.rising b hb q) (hver q), fun res hact => ?_⟩
  · cases hact
  · cases hx
  · exact absurd hc (not_consumes (by intro m hm; cases hm) token)
  · have hheld := hinv.held q j hj b hb hf hcall
    exact ⟨(hpin q j hj).1.trans hheld.1, (hpin q j hj).2.trans hheld.2⟩
  · cases hact
    exact hhon res rfl

/-- An activation that holds the catalog of `p` gives it back and returns. -/
theorem Holder.leave {r : Except Exc Value} (hctx : ∀ f ∈ ctx, f.1 ≠ i)
    (h : Along authContract ctx w₀ (Holder w₀ i p) w) (hr : ∀ v, r ≠ .ok (.version v))
    (hhon : ∀ res, r = .ok (.result res) → Honest w.log w.st.journal i res) :
    AuthInv ((w.put (w.st.modify p .release)).push i (.ret r)) ∧
      AuthRel ctx w₀ ((w.put (w.st.modify p .release)).push i (.ret r)) := by
  have hother : ∀ q, q ≠ p → (w.st.modify p .release).planes q = w.st.planes q :=
    fun q hq => State.modify_other w.st _ hq
  have hself : (w.st.modify p .release).planes p = (w.st.planes p).release :=
    State.modify_self w.st p _
  have hterms : ∀ q, ((w.st.modify p .release).planes q).catalog = (w.st.planes q).catalog ∧
      ((w.st.modify p .release).planes q).catalogVersion = (w.st.planes q).catalogVersion ∧
      ((w.st.modify p .release).planes q).policy = (w.st.planes q).policy ∧
      ((w.st.modify p .release).planes q).profile = (w.st.planes q).profile ∧
      ((w.st.modify p .release).planes q).confirmations = (w.st.planes q).confirmations := by
    intro q
    by_cases hq : q = p
    · subst hq; rw [hself]; exact ⟨rfl, rfl, rfl, rfl, rfl⟩
    · rw [hother q hq]; exact ⟨rfl, rfl, rfl, rfl, rfl⟩
  have hver : ∀ q, (w.st.planes q).catalogVersion ≤
      ((w.st.modify p .release).planes q).catalogVersion := by
    intro q
    exact Int.le_of_eq (hterms q).2.1.symm
  have hleaving : Leaving w₀ w i p r (w.st.modify p .release) := by
    refine ⟨fun q => ⟨(hterms q).2.2.1, (hterms q).2.2.2.1⟩, rfl, fun q => ?_, hver,
      fun q _ _ => ⟨(hterms q).1, (hterms q).2.1⟩, fun q token v hv => ?_,
      lawful_ret h.inv hver (fun q _ _ => ⟨(hterms q).1, (hterms q).2.1⟩) (fun v hact => ?_) hhon⟩
    · by_cases hq : q = p
      · subst hq
        rw [hself, length_filter_ne (h.inv.nodup q) ((h.here.opened q).2 rfl), ← h.inv.users q]
        rfl
      · have hno : i ∉ openOn q w.log := fun hmem => hq ((h.here.opened q).1 hmem)
        rw [hother q hq, filter_ne_self hno, h.inv.users q]
    · rw [(hterms q).2.2.2.2] at hv
      exact .inl ⟨hv, (hterms q).1, (hterms q).2.1⟩
    · injection hact with hact
      exact absurd hact (hr v)
  exact ⟨AuthInv.leave h.inv hleaving, AuthRel.leave hctx h.rel hleaving⟩

/-- An activation that holds no catalog returns. -/
theorem free_leave {r : Except Exc Value} (hctx : ∀ f ∈ ctx, f.1 ≠ i)
    (h : Along authContract ctx w₀ (fun w => ∀ q, i ∉ openOn q w.log) w)
    (hr : ∀ v, r ≠ .ok (.version v)) (hhon : ∀ res, r ≠ .ok (.result res)) :
    AuthInv (w.push i (.ret r)) ∧ AuthRel ctx w₀ (w.push i (.ret r)) := by
  have hleaving : Leaving w₀ w i 0 r w.st := by
    refine ⟨fun _ => ⟨rfl, rfl⟩, rfl, fun q => ?_, fun _ => Int.le_refl _, fun _ _ _ => ⟨rfl, rfl⟩,
      fun q token v hv => .inl ⟨hv, rfl, rfl⟩,
      lawful_ret h.inv (fun _ => Int.le_refl _) (fun _ _ _ => ⟨rfl, rfl⟩) (fun v hact => ?_) fun res hres =>
        absurd hres (hhon res)⟩
    · rw [filter_ne_self (h.here q)]
      exact h.inv.users q
    · injection hact with hact
      exact absurd hact (hr v)
  exact ⟨AuthInv.leave h.inv hleaving, AuthRel.leave hctx h.rel hleaving⟩

/-- To hold no catalog is stable. -/
theorem free_stable : Stable authContract ctx i (fun w => ∀ q, i ∉ openOn q w.log) := by
  intro op a b hr ha q hq
  exact ha q ((hr.opened (i, op) List.mem_cons_self q).1 hq)

/-! ## `dispatch` -/

/-- The end of a dispatch, under its hold on the catalog. -/
theorem Returned.leave (hctx : ∀ f ∈ ctx, f.1 ≠ i) {r : Except Exc Result}
    (h : Returned ctx w₀ i p command r w) {r' : Except Exc Value}
    (hr : r' = r.map Value.result) :
    AuthInv ((w.put (w.st.modify p .release)).push i (.ret r')) ∧
      AuthRel ctx w₀ ((w.put (w.st.modify p .release)).push i (.ret r')) := by
  obtain ⟨halong, hout⟩ := h
  refine Holder.leave hctx (halong.mono Calling.toHolder) (fun v hv => ?_) fun res hres => ?_
  · subst hr
    cases r <;> cases hv
  · subst hr
    cases r with
    | error e => cases hres
    | ok res' =>
      cases hres
      exact (hout res rfl).honest halong.here.own

theorem dispatch_auth (hinv : AuthInv w) (hlt : ∀ e ∈ w.log, e.frame < w.next)
    (hctx : ∀ f ∈ ctx, f.1 < w.next) (canceled : Option Bool) :
    Holds authContract ctx w.next (body (.dispatch p command canceled guard))
      (fun r w' => AuthInv (w'.push w.next (.ret r)) ∧ AuthRel ctx w (w'.push w.next (.ret r)))
      (w.enter (.dispatch p command canceled guard)) := by
  set m : Method := .dispatch p command canceled guard
  have hne : ∀ f ∈ ctx, f.1 ≠ w.next := fun f hf => by have := hctx f hf; omega
  have hm : ∀ q, m.authorizes q = decide (q = p) := fun q => decide_eq_decide.2 eq_comm
  have hc : ∀ i token, ¬ Consumes token ⟨i, .invoke m, w.st⟩ := by
    rintro i token ⟨_, _, _, _, _, _, hact, -⟩
    simp [m] at hact
  have hent : Entering w.st m (w.st.modify p .use) := entering_use hm hc
  have hhold := hinv.along hlt hctx hent (holder_enter hlt hent hm)
  -- a call that is refused at once has not changed anything
  have hrefused : ∀ e, AuthInv ((w.enter m).push w.next (.ret (.error e))) ∧
      AuthRel ctx w ((w.enter m).push w.next (.ret (.error e))) := by
    intro e
    have := Holder.leave (r := .error e) hne hhold (fun v hv => by cases hv)
      fun res hres => by cases hres
    rwa [World.put_st, modify_use_release] at this
  refine holds_bind.2 (holds_bind.2 ?_)
  unfold snapshotCommand
  split
  · cases canceled with
    | none => exact hrefused _
    | some canceled =>
      refine holds_catalogUse.2 ?_
      have hstart : Along authContract ctx w (Unread w w.next p command false)
          ((w.enter m).put (w.st.modify p .use)) := by
        refine hhold.mono fun h => ⟨⟨⟨h, _, List.mem_cons_self, rfl, m, rfl, rfl⟩, ?_,
          fun hf => by cases hf⟩, fun b hb hi hact => ?_⟩
        · exact runs_enter hlt m
        · rcases List.mem_cons.1 hb with rfl | hb
          · cases hact
          · have := hlt b hb
            omega
      refine (dispatchBody_auth hne hstart).mono fun r w' h => ?_
      cases r with
      | ok res => exact h.leave hne rfl
      | error e => exact h.leave hne rfl
  · exact hrefused _

/-! ## `request_confirmation` -/

/-- The activation was called to request a confirmation of the command. -/
structure Asking (w₀ : PWorld) (i p : ℕ) (command : Command) (key : String) (w : PWorld) : Prop
    extends Holder w₀ i p w where
  own : ∃ a ∈ w.log, a.frame = i ∧ a.act = .invoke (.requestConfirmation p command (some key))

theorem asking_stable {key : String} : Stable authContract ctx i (Asking w₀ i p command key) := by
  intro op a b hr ha
  obtain ⟨e, he, hown⟩ := ha.own
  exact ⟨holder_stable op a b hr ha.toHolder, e, hr.log.mem he, hown⟩

theorem fresh_stable {token : String} : Stable authContract ctx i (Fresh w₀ token) := by
  intro op a b hr ha
  obtain ⟨htab, hcons⟩ := hr.idle token ha.given ha.untabled
  exact ⟨ha.given.mono hr.log, ha.new, htab, fun e he hc => ha.unspent e (hcons e he hc) hc⟩

/-- The token that `uuid4` gives is fresh. -/
theorem uuid4_auth {key : String} (hw : Along authContract ctx w₀ (Asking w₀ i p command key) w) :
    Holds authContract ctx i uuid4
      (fun r w' => Along authContract ctx w₀ (Asking w₀ i p command key) w' ∧
        ∀ token, r = .ok token → Fresh w₀ token w') w := by
  have hsteady : Steady authContract ctx i p
      (Along authContract ctx w₀ (Asking w₀ i p command key)) :=
    authContract_calm.steady asking_stable
  obtain ⟨hinv, hnext⟩ := hsteady.ask .uuid4 rfl w hw
  unfold uuid4
  rw [holds_bind, holds_ask]
  refine ⟨hinv, fun w₁ hinv₁ hgrow hrel a ha => ?_⟩
  have h₁ := hnext w₁ hinv₁ hgrow hrel a ha
  cases a with
  | text t =>
    have hnever : ¬ Given w₁.log t := by
      rintro ⟨e, he, hact⟩
      have hall : freshToken w₁ .uuid4 (.text t) = true := ha
      have := List.all_eq_true.1 hall e he
      rw [hact] at this
      simp at this
    have hinv' : AuthInv w₁ := hinv₁
    have hlog : w₀.log <:+ w₁.log := by
      have h1 : w₀.log <:+ w.log := AuthRel.log hw.rel
      have h2 : (w.push i (.call .uuid4)).log <:+ w₁.log := AuthRel.log hrel
      exact h1.trans ((List.suffix_cons _ _).trans h2)
    refine ⟨h₁, fun token htok => ?_⟩
    cases htok
    refine ⟨⟨_, List.mem_cons_self, rfl⟩, fun hg => hnever (hg.mono hlog), fun q v hv => ?_,
      fun e he hc => ?_⟩
    · exact hnever (hinv'.tokens q t v.1 v.2 hv).2.1
    · rcases List.mem_cons.1 he with rfl | he
      · exact not_consumes (by intro m hm; cases hm) t hc
      · exact hnever (hinv'.spent e he t hc).1
  | _ => exact ⟨h₁, fun _ htok => by cases htok⟩

/-- The preview is issued, and the activation returns it. -/
theorem Asking.issue {key : String} (preview : Confirmation) (hctx : ∀ f ∈ ctx, f.1 ≠ i)
    (hpreview : preview.command = command)
    (h : Along authContract ctx w₀ (fun w => Asking w₀ i p command key w ∧ Fresh w₀ preview.token w) w) :
    AuthInv ((w.put ((w.st.modify p (.issue preview key)).modify p .release)).push i
        (.ret (.ok (.confirmation preview)))) ∧
      AuthRel ctx w₀ ((w.put ((w.st.modify p (.issue preview key)).modify p .release)).push i
        (.ret (.ok (.confirmation preview)))) := by
  obtain ⟨hask, hfresh⟩ := h.here
  set s := (w.st.modify p (.issue preview key)).modify p .release
  have hother : ∀ q, q ≠ p → s.planes q = w.st.planes q := fun q hq => by
    rw [State.modify_other _ _ hq, State.modify_other _ _ hq]
  have hself : s.planes p = ((w.st.planes p).issue preview key).release := by
    rw [State.modify_self, State.modify_self]
  have hterms : ∀ q, (s.planes q).catalog = (w.st.planes q).catalog ∧
      (s.planes q).catalogVersion = (w.st.planes q).catalogVersion ∧
      (s.planes q).policy = (w.st.planes q).policy ∧
      (s.planes q).profile = (w.st.planes q).profile := by
    intro q
    by_cases hq : q = p
    · subst hq; rw [hself]; exact ⟨rfl, rfl, rfl, rfl⟩
    · rw [hother q hq]; exact ⟨rfl, rfl, rfl, rfl⟩
  have hver : ∀ q, (w.st.planes q).catalogVersion ≤ (s.planes q).catalogVersion := by
    intro q
    exact Int.le_of_eq (hterms q).2.1.symm
  have hleaving : Leaving w₀ w i p (.ok (.confirmation preview)) s := by
    refine ⟨fun q => ⟨(hterms q).2.2.1, (hterms q).2.2.2⟩, rfl, fun q => ?_, hver,
      fun q _ _ => ⟨(hterms q).1, (hterms q).2.1⟩, fun q token v hv => ?_,
      lawful_ret h.inv hver (fun q _ _ => ⟨(hterms q).1, (hterms q).2.1⟩)
        (fun v hact => by cases hact) fun res hres => by cases hres⟩
    · by_cases hq : q = p
      · subst hq
        rw [hself, length_filter_ne (h.inv.nodup q) ((hask.opened q).2 rfl), ← h.inv.users q]
        rfl
      · have hno : i ∉ openOn q w.log := fun hmem => hq ((hask.opened q).1 hmem)
        rw [hother q hq, filter_ne_self hno, h.inv.users q]
    · by_cases hq : q = p
      · subst hq
        rw [hself] at hv
        rcases List.mem_cons.1 hv with heq | hold
        · injection heq with htok hval
          subst hval
          exact .inr ⟨rfl, htok ▸ hfresh, preview, key, rfl, htok.symm, rfl,
            hpreview ▸ hask.own⟩
        · exact .inl ⟨(List.mem_filter.1 hold).1, (hterms q).1, (hterms q).2.1⟩
      · rw [hother q hq] at hv
        exact .inl ⟨hv, (hterms q).1, (hterms q).2.1⟩
  exact ⟨AuthInv.leave h.inv hleaving, AuthRel.leave hctx h.rel hleaving⟩

theorem requestConfirmation_auth (hinv : AuthInv w) (hlt : ∀ e ∈ w.log, e.frame < w.next)
    (hctx : ∀ f ∈ ctx, f.1 < w.next) (key : Option String) :
    Holds authContract ctx w.next (body (.requestConfirmation p command key))
      (fun r w' => AuthInv (w'.push w.next (.ret r)) ∧ AuthRel ctx w (w'.push w.next (.ret r)))
      (w.enter (.requestConfirmation p command key)) := by
  set m : Method := .requestConfirmation p command key with hmdef
  have hne : ∀ f ∈ ctx, f.1 ≠ w.next := fun f hf => by have := hctx f hf; omega
  have hm : ∀ q, m.authorizes q = decide (q = p) := fun q => decide_eq_decide.2 eq_comm
  have hc : ∀ i token, ¬ Consumes token ⟨i, .invoke m, w.st⟩ := by
    rintro i token ⟨_, _, _, _, _, _, hact, -⟩
    simp [m] at hact
  have hent : Entering w.st m (w.st.modify p .use) := entering_use hm hc
  have hhold := hinv.along hlt hctx hent (holder_enter hlt hent hm)
  have hraise : ∀ {E : PWorld → Prop} (e : Exc) (w' : PWorld), Along authContract ctx w E w' →
      (E w' → Holder w w.next p w') →
      AuthInv ((w'.put (w'.st.modify p .release)).push w.next (.ret (.error e))) ∧
        AuthRel ctx w ((w'.put (w'.st.modify p .release)).push w.next (.ret (.error e))) :=
    fun e w' h hE => Holder.leave hne (h.mono hE) (fun v hv => by cases hv)
      fun res hres => by cases hres
  have hrefused : ∀ e, AuthInv ((w.enter m).push w.next (.ret (.error e))) ∧
      AuthRel ctx w ((w.enter m).push w.next (.ret (.error e))) := by
    intro e
    have := hraise e _ hhold id
    rwa [World.put_st, modify_use_release] at this
  refine holds_bind.2 (holds_bind.2 ?_)
  unfold snapshotCommand
  split
  · dsimp only [holds_pure]
    cases hkey : key.filter (fun k => k ≠ "") with
    | none => exact hrefused _
    | some k =>
      have hk : key = some k := (Option.filter_eq_some_iff.1 hkey).1
      have hasking : Along authContract ctx w (Asking w w.next p command k)
          ((w.enter m).put (w.st.modify p .use)) :=
        hhold.mono fun h => ⟨h, _, List.mem_cons_self, rfl, by rw [hmdef, hk]⟩
      have hsteady : Steady authContract ctx w.next p
          (Along authContract ctx w (Asking w w.next p command k)) :=
        authContract_calm.steady asking_stable
      refine holds_catalogUse.2 ?_
      unfold issuePreview
      rw [holds_bind, holds_read]
      dsimp only
      split
      · exact hraise _ _ hasking Asking.toHolder
      refine hsteady.clock.seq hasking (fun now w₁ h₁ _ => ?_)
        fun e w₁ h₁ => hraise e w₁ h₁ Asking.toHolder
      have h₂ : Along authContract ctx w (Asking w w.next p command k)
          (w₁.put (w₁.st.modify p (.expire now))) :=
        h₁.step (AuthInv.put h₁.inv (alike_expire w₁.st p now))
          (AuthRel.put ctx w₁ (alike_expire w₁.st p now))
          (asking_stable .uuid4 w₁ _
            (AuthRel.put ((w.next, .uuid4) :: ctx) w₁ (alike_expire w₁.st p now)) h₁.here)
      rw [holds_bind, holds_write]
      dsimp only
      rw [holds_bind, holds_read]
      dsimp only
      split
      · exact hraise _ _ h₂ Asking.toHolder
      refine holds_bind.2 ((uuid4_auth h₂).mono fun r w₃ h => ?_)
      obtain ⟨h₃, hfresh⟩ := h
      cases r with
      | error e => exact hraise e w₃ h₃ Asking.toHolder
      | ok token =>
        have h₄ : Along authContract ctx w
            (fun w' => Asking w w.next p command k w' ∧ Fresh w token w') w₃ :=
          h₃.mono fun h => ⟨h, hfresh token rfl⟩
        have hstable : Stable authContract ctx w.next
            (fun w' => Asking w w.next p command k w' ∧ Fresh w token w') :=
          fun op a b hr h => ⟨asking_stable op a b hr h.1, fresh_stable op a b hr h.2⟩
        have hsteady₂ : Steady authContract ctx w.next p (Along authContract ctx w
            (fun w' => Asking w w.next p command k w' ∧ Fresh w token w')) :=
          authContract_calm.steady hstable
        refine (keeps_onException (hsteady₂.observeInteraction command .preview _)
          keeps_throw).seq h₄ (fun _ w₅ h₅ _ => ?_)
          fun e w₅ h₅ => hraise e w₅ h₅ fun h => h.1.toHolder
        exact Asking.issue ⟨token, command, now + 30000⟩ hne rfl h₅
  · exact hrefused _

/-! ## `confirm` -/

theorem blocked_auth (hw : Along authContract ctx w₀ (Unrun w₀ i p command confirmed) w) (code : Code) :
    Holds authContract ctx i (confirmationBlocked p command code) (Returned ctx w₀ i p command) w := by
  have hsteady : Steady authContract ctx i p
      (Along authContract ctx w₀ (Unrun w₀ i p command confirmed)) :=
    authContract_calm.steady unrun_stable
  exact (hsteady.confirmationBlocked command code).holds hw
    (fun res w₁ h₁ hres => .refused h₁ hres.1 (.inl hres.2))
    fun e w₁ h₁ => .raised h₁ Unrun.toCalling e

/-- The first reading of the clock is the check of the expiry. -/
theorem clock_first (hw : Along authContract ctx w₀ (Unread w₀ i p command false) w)
    (hfirst : ∀ a ∈ w.log, a.frame = i → ∀ x, a.act ≠ .reply (.clock p) x) :
    Holds authContract ctx i (clock p)
      (fun r w' => Along authContract ctx w₀ (Unread w₀ i p command false) w' ∧ w.log <:+ w'.log ∧
        ∀ t, r = .ok t → ∀ preview : Confirmation, t < preview.expiresAtMs →
          Checked w'.log i p preview) w := by
  have hsteady : Steady authContract ctx i p
      (Along authContract ctx w₀ (Unread w₀ i p command false)) :=
    authContract_calm.steady unread_stable
  obtain ⟨hinv, hnext⟩ := hsteady.ask (.clock p) rfl w hw
  unfold clock
  rw [holds_bind, holds_ask]
  refine ⟨hinv, fun w₁ hinv₁ hgrow hrel a ha => ?_⟩
  have h₁ := hnext w₁ hinv₁ hgrow hrel a ha
  obtain ⟨-, new, hnew, hframe⟩ := hgrow
  have hsuf : w.log <:+ (w₁.push i (.reply (.clock p) a)).log := by
    rw [World.push_log, hnew]
    exact (List.suffix_cons _ _).trans ((List.suffix_append _ _).trans (List.suffix_cons _ _))
  cases a with
  | time t =>
    refine ⟨h₁, hsuf, fun t' ht preview hlt => ?_⟩
    cases ht
    refine ⟨[], _, w₁.log, rfl, rfl, ⟨t, rfl, hlt⟩, fun b hb hi x hact => ?_⟩
    rw [hnew] at hb
    rcases List.mem_append.1 hb with hb | hb
    · have := hframe b hb
      omega
    · rcases List.mem_cons.1 hb with rfl | hb
      · cases hact
      · exact hfirst b hb hi x hact
  | _ => exact ⟨h₁, hsuf, fun _ ht => by cases ht⟩

/-- A call of `confirm` that takes its token out of the table. -/
theorem entering_confirm (hinv : AuthInv w) {token channel : String} {key : Option String}
    {approved : Option Bool} {v : Confirmation × String}
    (hget : (w.st.planes p).confirmations.get token = some v) :
    Entering w.st (.confirm p (some token) channel key approved guard)
      ((w.st.modify p .use).modify p (.take token)) := by
  set s := (w.st.modify p .use).modify p (.take token)
  have hother : ∀ q, q ≠ p → s.planes q = w.st.planes q := fun q hq => by
    rw [State.modify_other _ _ hq, State.modify_other _ _ hq]
  have hself : s.planes p = (w.st.planes p).use.take token := by
    rw [State.modify_self, State.modify_self]
  have htables : ∀ q x, x ∈ (s.planes q).confirmations → x ∈ (w.st.planes q).confirmations := by
    intro q x hx
    by_cases hq : q = p
    · subst hq; rw [hself] at hx; exact (List.mem_filter.1 hx).1
    · rw [hother q hq] at hx; exact hx
  refine ⟨fun q => ?_, fun q => ?_, rfl, fun q => ?_, htables, fun j token' hcon q u hu => ?_⟩
  · by_cases hq : q = p
    · subst hq; rw [hself]; exact ⟨rfl, rfl⟩
    · rw [hother q hq]; exact ⟨rfl, rfl⟩
  · by_cases hq : q = p
    · subst hq; rw [hself]; exact ⟨rfl, rfl⟩
    · rw [hother q hq]; exact ⟨rfl, rfl⟩
  · by_cases hq : q = p
    · subst hq; rw [hself]; simp [ControlPlane.use, ControlPlane.take, Method.authorizes]
    · rw [hother q hq]; simp [Method.authorizes, Ne.symm hq]
  · obtain ⟨_, _, _, _, _, _, hact, -⟩ := hcon
    cases hact
    -- another plane cannot hold it, and this one no longer does
    have hqp : q = p := hinv.apart q p token u v (htables q _ hu) (Mapping.get_mem hget)
    subst hqp
    rw [hself] at hu
    have := (List.mem_filter.1 hu).2
    simp at this

theorem confirmPreview_auth (hctx : ∀ f ∈ ctx, f.1 ≠ i) {preview : Confirmation}
    {originalKey channel token : String} {key : Option String} {approved : Option Bool}
    (htoken : preview.token = token)
    (hcon : ∃ a ∈ w.log, a.frame = i ∧
      a.act = .invoke (.confirm p (some token) channel key approved guard) ∧
      (a.st.planes p).confirmations.get token = some (preview, originalKey))
    (hissued : Issued w.log p preview originalKey (w₀.st.planes p).catalog
      (w₀.st.planes p).catalogVersion)
    (hfirst : ∀ a ∈ w.log, a.frame = i → ∀ x, a.act ≠ .reply (.clock p) x)
    (hw : Along authContract ctx w₀ (Unread w₀ i p preview.command false) w) :
    Holds authContract ctx i (confirmPreview p preview originalKey channel key approved guard)
      (Returned ctx w₀ i p preview.command) w := by
  unfold confirmPreview
  dsimp only
  split
  · rename_i approved hchannel
    split
    · exact blocked_auth (hw.mono Unread.toUnrun) _
    rename_i hkey
    rw [ne_eq, not_not] at hkey
    refine holds_bind.2 ((clock_first hw hfirst).mono fun r w₁ h => ?_)
    obtain ⟨h₁, hsuf, hchecked⟩ := h
    cases r with
    | error e => exact .raised h₁ (fun h => h.toCalling) e
    | ok now =>
      dsimp only
      split
      · exact blocked_auth (h₁.mono Unread.toUnrun) _
      rename_i hnow
      -- from here on the approval of this call is established
      have h₂ : Along authContract ctx w₀ (Unread w₀ i p preview.command approved) w₁ := by
        refine h₁.mono fun h => ⟨⟨h.toCalling, h.unrun, fun happ => ?_⟩, h.unread⟩
        obtain ⟨a, ha, hfr, hact, hget⟩ := hcon
        refine ⟨token, channel, originalKey, guard, preview, by simpa using hchannel, rfl, htoken,
          ⟨a, hsuf.mem ha, hfr, ?_, hget⟩, hissued.mono hsuf, hchecked now rfl preview (by omega)⟩
        rw [hact, hkey, happ]
      have hsteady : Steady authContract ctx i p
          (Along authContract ctx w₀ (Unread w₀ i p preview.command approved)) :=
        authContract_calm.steady unread_stable
      refine (hsteady.guardDenial guard).seq h₂ (fun d w₃ h₃ _ => ?_)
        fun e w₃ h₃ => .raised h₃ (fun h => h.toCalling) e
      cases d with
      | some code => exact blocked_auth (h₃.mono Unread.toUnrun) code
      | none =>
        refine (keeps_onException (P := fun _ => True) ((hsteady.observeInteraction _ _ _).bind
          fun _ _ => keeps_pure trivial) (keeps_pure trivial)).seq h₃ (fun observed w₄ h₄ _ => ?_)
          fun e w₄ h₄ => .raised h₄ (fun h => h.toCalling) e
        split
        · exact dispatchBody_auth hctx h₄
        · exact blocked_auth (h₄.mono Unread.toUnrun) _
  · exact blocked_auth (hw.mono Unread.toUnrun) _

theorem confirm_auth (hinv : AuthInv w) (hlt : ∀ e ∈ w.log, e.frame < w.next)
    (hctx : ∀ f ∈ ctx, f.1 < w.next) (token : Option String) (channel : String)
    (key : Option String) (approved : Option Bool) :
    Holds authContract ctx w.next (body (.confirm p token channel key approved guard))
      (fun r w' => AuthInv (w'.push w.next (.ret r)) ∧ AuthRel ctx w (w'.push w.next (.ret r)))
      (w.enter (.confirm p token channel key approved guard)) := by
  set m : Method := .confirm p token channel key approved guard with hmdef
  have hne : ∀ f ∈ ctx, f.1 ≠ w.next := fun f hf => by have := hctx f hf; omega
  have hm : ∀ q, m.authorizes q = decide (q = p) := fun q => decide_eq_decide.2 eq_comm
  refine holds_bind.2 (holds_catalogUse.2 ?_)
  rw [holds_bind, holds_read]
  dsimp only
  have hsame : (((w.enter m).put ((w.enter m).st.modify p .use)).st.planes p).confirmations =
      (w.st.planes p).confirmations := by
    rw [World.put_st, State.modify_self]; rfl
  rw [hsame]
  cases htok : token.bind fun t => ((w.st.planes p).confirmations.get t).map fun v => (t, v) with
  | none =>
    -- nothing is consumed
    have hc : ∀ i token, ¬ Consumes token ⟨i, .invoke m, w.st⟩ := by
      rintro i t ⟨_, _, _, _, _, v, hact, hv⟩
      simp only [hmdef, Act.invoke.injEq, Method.confirm.injEq] at hact
      obtain ⟨rfl, rfl, -⟩ := hact
      simp only [Option.bind_some, Option.map_eq_none_iff] at htok
      rw [htok] at hv
      cases hv
    have hent : Entering w.st m (w.st.modify p .use) := entering_use hm hc
    exact Holder.leave hne (hinv.along hlt hctx hent (holder_enter hlt hent hm))
      (fun v hv => by cases hv) fun res hres => by cases hres
  | some v =>
    obtain ⟨t, preview, originalKey⟩ := v
    have htoken : token = some t ∧
        (w.st.planes p).confirmations.get t = some (preview, originalKey) := by
      cases token with
      | none => cases htok
      | some tok =>
        simp only [Option.bind_some, Option.map_eq_some_iff, Prod.mk.injEq] at htok
        obtain ⟨v, hv, rfl, rfl⟩ := htok
        exact ⟨rfl, hv⟩
    obtain ⟨rfl, hget⟩ := htoken
    have hent : Entering w.st m ((w.st.modify p .use).modify p (.take t)) :=
      entering_confirm hinv hget
    have hstart : Along authContract ctx w (Unread w w.next p preview.command false)
        ((w.enter m).put ((w.st.modify p .use).modify p (.take t))) := by
      refine (hinv.along hlt hctx hent (holder_enter hlt hent hm)).mono fun h =>
        ⟨⟨⟨h, _, List.mem_cons_self, rfl, m, rfl, ?_⟩, runs_enter hlt m, fun hf => by cases hf⟩,
          fun b hb hi hact => ?_⟩
      · simp [hmdef, target, hget]
      · rcases List.mem_cons.1 hb with rfl | hb
        · cases hact
        · have := hlt b hb
          omega
    obtain ⟨htok', -, hissued⟩ := hinv.tokens p t preview originalKey (Mapping.get_mem hget)
    dsimp only
    rw [holds_bind, holds_write]
    dsimp only
    refine (confirmPreview_auth hne htok' ⟨_, List.mem_cons_self, rfl, rfl, hget⟩
      (hissued.mono (List.suffix_cons _ _)) (fun a ha hi x hact => ?_) hstart).mono
      fun r w' h => ?_
    · rcases List.mem_cons.1 ha with rfl | ha
      · cases hact
      · have := hlt a ha
        omega
    · cases r with
      | ok res => exact h.leave hne rfl
      | error e => exact h.leave hne rfl

/-! ## The other methods -/

theorem replaceCatalog_auth (hinv : AuthInv w) (hlt : ∀ e ∈ w.log, e.frame < w.next)
    (hctx : ∀ f ∈ ctx, f.1 < w.next) (catalog : List Capability) (expected new : ℤ) :
    Holds authContract ctx w.next (body (.replaceCatalog p catalog expected new))
      (fun r w' => AuthInv (w'.push w.next (.ret r)) ∧ AuthRel ctx w (w'.push w.next (.ret r)))
      (w.enter (.replaceCatalog p catalog expected new)) := by
  set m : Method := .replaceCatalog p catalog expected new with hmdef
  have hne : ∀ f ∈ ctx, f.1 ≠ w.next := fun f hf => by have := hctx f hf; omega
  have hc : ∀ i token, ¬ Consumes token ⟨i, .invoke m, w.st⟩ := by
    rintro i token ⟨_, _, _, _, _, _, hact, -⟩
    simp [m] at hact
  have hent : Entering w.st m w.st := entering_free (fun _ => rfl) hc
  have hstart : Along authContract ctx w (fun w' => ∀ q, w.next ∉ openOn q w'.log) (w.enter m) :=
    hinv.along hlt hctx hent (fun q => next_not_open hlt q)
  have hraise : ∀ e, AuthInv ((w.enter m).push w.next (.ret (.error e))) ∧
      AuthRel ctx w ((w.enter m).push w.next (.ret (.error e))) :=
    fun e => free_leave hne hstart (fun v hv => by cases hv) fun res hres => by cases hres
  refine holds_bind.2 ?_
  unfold replaceCatalog
  split
  · exact hraise _
  split
  · exact hraise _
  rename_i replacement revision hsnapshot
  split
  · exact hraise _
  rw [holds_bind, holds_read]
  dsimp only
  split
  · exact hraise _
  rename_i hidle
  split
  · exact hraise _
  rename_i hstale
  rw [holds_bind, holds_write]
  -- no activation holds the catalog, so no one can notice
  have hnone : openOn p w.log = [] := by
    have := hinv.users p
    rw [World.enter_st, ne_eq, not_not] at hidle
    rw [hidle] at this
    exact List.length_eq_zero_iff.1 this.symm
  have hnew : (w.st.planes p).catalogVersion < new := by
    rw [World.enter_st, Bool.or_eq_true, not_or] at hstale
    simpa using hstale.2
  set s := (w.enter m).st.modify p (.replace replacement new)
  have hother : ∀ q, q ≠ p → s.planes q = w.st.planes q := fun q hq => State.modify_other _ _ hq
  have hself : s.planes p = (w.st.planes p).replace replacement new := State.modify_self _ _ _
  have hver : ∀ q, (w.st.planes q).catalogVersion ≤ (s.planes q).catalogVersion := by
    intro q
    by_cases hq : q = p
    · subst hq; rw [hself]; exact Int.le_of_lt hnew
    · exact Int.le_of_eq (congrArg ControlPlane.catalogVersion (hother q hq).symm)
  have hpin : ∀ q, ∀ j ∈ openOn q (w.enter m).log, (s.planes q).catalog = (w.st.planes q).catalog ∧
      (s.planes q).catalogVersion = (w.st.planes q).catalogVersion := by
    intro q j hj
    have hopen : openOn q (w.enter m).log = openOn q w.log := rfl
    by_cases hq : q = p
    · subst hq
      rw [hopen, hnone] at hj
      cases hj
    · rw [hother q hq]; exact ⟨rfl, rfl⟩
  have hleaving : Leaving w (w.enter m) w.next p (.ok (.version new)) s := by
    refine ⟨fun q => ?_, rfl, fun q => ?_, hver, hpin, fun q token v hv => .inl ?_,
      lawful_ret hstart.inv hver hpin (fun v hact => ?_) fun res hres => by cases hres⟩
    · by_cases hq : q = p
      · subst hq; rw [hself]; exact ⟨rfl, rfl⟩
      · rw [hother q hq]; exact ⟨rfl, rfl⟩
    · have hopen : openOn q (w.enter m).log = openOn q w.log := rfl
      rw [hopen, filter_ne_self (next_not_open hlt q)]
      by_cases hq : q = p
      · subst hq; rw [hself]; exact hinv.users q
      · rw [hother q hq]; exact hinv.users q
    · by_cases hq : q = p
      · subst hq
        rw [hself] at hv
        cases hv
      · rw [hother q hq] at hv ⊢
        exact ⟨hv, rfl, rfl⟩
    · cases hact
      refine ⟨_, List.mem_cons_self, p, catalog, expected, rfl, rfl, fun a ha => ?_,
        by show (s.planes p).catalogVersion = new; rw [hself]; rfl, hnone⟩
      rcases List.mem_cons.1 ha with rfl | ha
      · exact hnew
      · exact Int.lt_of_le_of_lt (hinv.rising a ha p) hnew
  exact ⟨AuthInv.leave hstart.inv hleaving, AuthRel.leave hne hstart.rel hleaving⟩

/-- **Every method keeps the contract.** -/
theorem authContract_kept : authContract.Kept where
  method ctx m w _ hlt hctx hinv := by
    have hfree : (∀ q, m.authorizes q = false) → (∀ i token, ¬ Consumes token ⟨i, .invoke m, w.st⟩) →
        Keeps authContract ctx w.next
          (Along authContract ctx w (fun w' => ∀ q, w.next ∉ openOn q w'.log)) (body m)
          (fun v => (∀ n, v ≠ .version n) ∧ ∀ res, v ≠ .result res) →
        Holds authContract ctx w.next (body m)
          (fun r w' => AuthInv (w'.push w.next (.ret r)) ∧ AuthRel ctx w (w'.push w.next (.ret r)))
          (w.enter m) := by
      intro hm hc hkeeps
      have hne : ∀ f ∈ ctx, f.1 ≠ w.next := fun f hf => by have := hctx f hf; omega
      have hstart : Along authContract ctx w (fun w' => ∀ q, w.next ∉ openOn q w'.log) (w.enter m) :=
        AuthInv.along hinv hlt hctx (entering_free hm hc) fun q => by
          show w.next ∉ openOn q (w.enter m).log
          rw [openOn_enter, hm]
          exact next_not_open hlt q
      refine hkeeps.holds hstart (fun v w' h hv => free_leave hne h (fun n hn => ?_) fun res hres => ?_)
        fun e w' h => free_leave hne h (fun n hn => by cases hn) fun res hres => by cases hres
      · cases hn; exact hv.1 n rfl
      · cases hres; exact hv.2 res rfl
    cases m with
    | dispatch p command canceled guard => exact dispatch_auth hinv hlt hctx canceled
    | requestConfirmation p command key => exact requestConfirmation_auth hinv hlt hctx key
    | confirm p token channel key approved guard =>
      exact confirm_auth hinv hlt hctx token channel key approved
    | replaceCatalog p catalog expected new =>
      exact replaceCatalog_auth hinv hlt hctx catalog expected new
    | assess p command =>
      refine hfree (fun _ => rfl) (fun i token hcon => ?_) ((keeps_assess command).map fun _ _ => ?_)
      · obtain ⟨_, _, _, _, _, _, hact, -⟩ := hcon
        cases hact
      · exact ⟨fun n hn => (nomatch hn), fun res hres => (nomatch hres)⟩
    | observeInteraction p command phase details =>
      have hsteady : Steady authContract ctx w.next p
          (Along authContract ctx w (fun w' => ∀ q, w.next ∉ openOn q w'.log)) :=
        authContract_calm.steady free_stable
      refine hfree (fun _ => rfl) (fun i token hcon => ?_)
        ((hsteady.observeInteraction command phase details).map fun _ _ => ?_)
      · obtain ⟨_, _, _, _, _, _, hact, -⟩ := hcon
        cases hact
      · exact ⟨fun n hn => (nomatch hn), fun res hres => (nomatch hres)⟩
  crash w s _ hs := by cases hs

end Plane

end Arhugula
