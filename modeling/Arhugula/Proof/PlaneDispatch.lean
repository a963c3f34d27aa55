import Arhugula.Proof.PlaneStages

/-!
# `_dispatch` keeps the authorization contract

Each part of `_dispatch`, from the assertion of its stage to the next. The one act
that is not quiet is the call of the executor (`execute_auth`): there the checks made
earlier must still be true, and they are, because the activation holds the catalog.
-/

namespace Arhugula

namespace Plane

open Reentrant Vm

variable {ctx : List (ℕ × Op)} {w w₀ : PWorld} {i p : ℕ} {command : Command}
  {confirmed pending : Bool} {guard : Option Guard} {start : ℤ}

/-- How a dispatch ends. -/
def Returned (ctx : List (ℕ × Op)) (w₀ : PWorld) (i p : ℕ) (command : Command)
    (r : Except Exc Result) (w : PWorld) : Prop :=
  Along authContract ctx w₀ (Calling w₀ i p command) w ∧
    ∀ res, r = .ok res → Outcome w.log w.st.journal i command res

/-- It may end at any time by raising. -/
theorem Returned.raised {E : PWorld → Prop} (h : Along authContract ctx w₀ E w)
    (hE : E w → Calling w₀ i p command w) (e : Exc) : Returned ctx w₀ i p command (.error e) w :=
  ⟨h.mono hE, fun _ hr => by cases hr⟩

/-- Before the execution it may end with a refusal or a cancellation. -/
theorem Returned.refused (h : Along authContract ctx w₀ (Unrun w₀ i p command confirmed) w)
    {res : Result} (hid : res.commandId = command.commandId)
    (hs : res.status = .blocked ∨ res.status = .canceled) :
    Returned ctx w₀ i p command (.ok res) w :=
  ⟨h.mono Unrun.toCalling, fun _ hr => by cases hr; exact ⟨hid, .inl ⟨h.here.unrun, hs⟩⟩⟩

/-- A refusal or a cancellation, recorded or not. -/
theorem refuse_auth (h : Along authContract ctx w₀ (Unrun w₀ i p command confirmed) w)
    (status : Status) (hs : status = .blocked ∨ status = .canceled) (err : Option Error) :
    Holds authContract ctx i
      (do let res ← result p command status [] err
          finish p command start false res) (Returned ctx w₀ i p command) w := by
  have hsteady : Steady authContract ctx i p
      (Along authContract ctx w₀ (Unrun w₀ i p command confirmed)) :=
    authContract_calm.steady unrun_stable
  refine (hsteady.result command status [] err).seq h (fun res w₁ h₁ hres => ?_)
    fun e w₁ h₁ => .raised h₁ Unrun.toCalling e
  refine (hsteady.finish command start false res).holds h₁ (fun r w₂ h₂ hr => ?_)
    fun e w₂ h₂ => .raised h₂ Unrun.toCalling e
  rcases hr with rfl | ⟨hid, hst⟩
  · exact .refused h₂ hres.1 (hres.2 ▸ hs)
  · exact .refused h₂ hid (by rw [hst]; exact hres.2 ▸ hs)

/-! ## The history -/

theorem Unrun.push (h : Unrun w₀ i p command confirmed w) {x : Act Op Answer Exc Method Value}
    (hm : ∀ m, x ≠ .invoke m) (hr : ∀ r, x ≠ .ret r) (hx : ∀ p c, x ≠ .call (.execute p c)) :
    Unrun w₀ i p command confirmed (w.push i x) := by
  obtain ⟨e, he, hown⟩ := h.own
  refine ⟨⟨⟨fun q => ?_, h.catalog, h.version, h.policy, h.profile⟩,
    e, List.mem_cons_of_mem _ he, hown⟩, ?_, fun hc => ?_⟩
  · rw [openOn_push hm hr]
    exact h.opened q
  · rw [runs_push fun _ => hx]
    exact h.unrun
  · obtain ⟨token, happ⟩ := h.approval hc
    exact ⟨token, happ.mono (List.suffix_cons _ _)⟩

/-- The history is read once; `pending` is what it showed. -/
theorem readHistory_auth (hctx : ∀ f ∈ ctx, f.1 ≠ i)
    (hw : Along authContract ctx w₀ (Unread w₀ i p command confirmed) w) :
    Holds authContract ctx i (readHistory p command)
      (fun r w' => match r with
        | .ok pending =>
          Along authContract ctx w₀ (Briefed w₀ i p command confirmed pending) w'
        | .error _ => Along authContract ctx w₀ (Unrun w₀ i p command confirmed) w') w := by
  have hm : ∀ m, Act.call .read ≠ (Act.invoke m : Act Op Answer Exc Method Value) := by
    intro m h; cases h
  have hr : ∀ r, Act.call .read ≠ (Act.ret r : Act Op Answer Exc Method Value) := by
    intro r h; cases h
  have hx : ∀ p c, Act.call .read ≠ (Act.call (.execute p c) : Act Op Answer Exc Method Value) := by
    intro p c h; cases h
  have hinv : AuthInv (w.push i (.call .read)) :=
    AuthInv.push hw.inv hm hr (lawful_silent hw.inv hm hr hx)
  unfold readHistory readJournal
  rw [holds_bind, holds_bind, holds_ask]
  refine ⟨hinv, fun w₁ hinv₁ _ hrel a _ => ?_⟩
  -- nested calls first, then the answer
  have hrel₁ : AuthRel ((i, .read) :: ctx) w w₁ :=
    AuthRel.trans (AuthRel.push _ w hm hr fun _ _ _ => ⟨hx, by intro h; cases h⟩) hrel
  have h₁ : Unread w₀ i p command confirmed w₁ := unread_stable .read w w₁ hrel₁ hw.here
  have hm' : ∀ m, Act.reply .read a ≠ (Act.invoke m : Act Op Answer Exc Method Value) := by
    intro m h; cases h
  have hr' : ∀ r, Act.reply .read a ≠ (Act.ret r : Act Op Answer Exc Method Value) := by
    intro r h; cases h
  have hx' : ∀ p c, Act.reply .read a ≠ (Act.call (.execute p c) : Act Op Answer Exc Method Value) := by
    intro p c h; cases h
  have hinv₂ : AuthInv (w₁.push i (.reply .read a)) :=
    AuthInv.push hinv₁ hm' hr' (lawful_silent hinv₁ hm' hr' hx')
  have hrel₂ : AuthRel ctx w₀ (w₁.push i (.reply .read a)) :=
    (AuthRel.trans hw.rel (authContract_calm.narrow _ _ _ _ hrel₁)).trans
      (AuthRel.push ctx w₁ hm' hr' fun f hf hi => absurd hi (hctx f hf))
  have h₂ : Along authContract ctx w₀ (Unrun w₀ i p command confirmed) (w₁.push i (.reply .read a)) :=
    ⟨hinv₂, hrel₂, h₁.toUnrun.push hm' hr' hx'⟩
  cases a with
  | done =>
    have hbriefed : Along authContract ctx w₀
        (Briefed w₀ i p command confirmed (previewed w₁.st.journal command.commandId))
        (w₁.push i (.reply .read .done)) := by
      refine h₂.mono fun h => ⟨h, fun b hb hi hact => ?_⟩
      rcases List.mem_cons.1 hb with rfl | hb
      · rfl
      · exact absurd hact (h₁.unread b hb hi)
    have hsteady : Steady authContract ctx i p (Along authContract ctx w₀
        (Briefed w₀ i p command confirmed (previewed w₁.st.journal command.commandId))) :=
      authContract_calm.steady briefed_stable
    exact hsteady.seen _ (executed w₁.st.journal) hbriefed
  | _ => exact h₂

/-! ## The execution -/

theorem runs_pos {log : List PEntry} {b : PEntry} (hb : b ∈ log) (hi : b.frame = i)
    (hx : b.executes = true) : runs log i ≠ 0 := by
  unfold runs
  have : 0 < log.countP fun e => e.frame = i && PEntry.executes e :=
    List.countP_pos_iff.2 ⟨b, hb, by simp [hi, hx]⟩
  omega

/-- One entry consumes a token. -/
theorem consumer_unique {log : List PEntry} (h : Throughout Lawful log) {token : String}
    {a b : PEntry} (ha : a ∈ log) (hb : b ∈ log) (hca : Consumes token a) (hcb : Consumes token b) :
    a = b := by
  induction log with
  | nil => cases ha
  | cons e log ih =>
    rcases List.mem_cons.1 ha with rfl | ha'
    · rcases List.mem_cons.1 hb with rfl | hb'
      · rfl
      · exact absurd hcb (h.1.first token hca b hb')
    · rcases List.mem_cons.1 hb with rfl | hb'
      · exact absurd hca (h.1.first token hcb a ha')
      · exact ih h.2 ha' hb'

/-- **The call of the executor is lawful.** -/
theorem lawful_execute (hinv : AuthInv w) (h : Briefed w₀ i p command confirmed pending w)
    (hden : denial (w₀.st.planes p) command confirmed = none)
    (hpend : pending = true → confirmed = true) :
    Lawful ⟨i, .call (.execute p command), w.st⟩ w.log := by
  have hnow : denial (w.st.planes p) command confirmed = none := by
    rw [denial_congr h.catalog h.policy h.profile]
    exact hden
  obtain ⟨hready, hneed⟩ := denial_none hnow
  refine ⟨fun q c hact => ?_, fun _ token hconsume b hb hexec => ?_, fun token hc => ?_,
    fun v hact => ?_, hinv.held, fun b hb q => hinv.rising b hb q, fun r hact => ?_⟩
  · cases hact
    refine ⟨hready, fun hwhy => ?_⟩
    -- either the catalog or policy asks for confirmation, or the history that was read does
    have hconf : confirmed = true := by
      rcases hwhy with hwhy | ⟨b, hb, hi, hact, hprev⟩
      · exact hneed hwhy
      · have := h.reads b hb hi hact
        exact hpend (this ▸ hprev)
    obtain ⟨token, happ⟩ := h.approval hconf
    refine ⟨token, ?_, ?_⟩
    · show Approval w.log i p command (w.st.planes p).catalog (w.st.planes p).catalogVersion token
      rw [h.catalog, h.version]
      exact happ
    · obtain ⟨channel, key, g, preview, -, -, -, ⟨a, ha, -, hact, hget⟩, -⟩ := happ
      exact (hinv.spent a ha token ⟨p, channel, some key, some true, g, _, hact, hget⟩).2
  · rintro ⟨a', ha', hfa', hca'⟩
    obtain ⟨a, ha, hfa, hca⟩ := hconsume
    have heq : a = a' := consumer_unique hinv.lawful ha ha' hca hca'
    have hbi : b.frame = i := by rw [← hfa', ← heq]; exact hfa
    exact runs_pos hb hbi hexec h.unrun
  · exact absurd hc (not_consumes (by intro m hm; cases hm) token)
  · cases hact
  · cases hact

theorem ofOutcome_status {text : String} {status : Status} (h : Status.ofOutcome text = some status) :
    status ≠ .blocked ∧ (status = .canceled → text = "canceled") := by
  unfold Status.ofOutcome at h
  split at h <;> cases h <;> simp

/-- **The execution**, and the result that is made of its outcome. -/
theorem execute_auth (hctx : ∀ f ∈ ctx, f.1 ≠ i)
    (hden : denial (w₀.st.planes p) command confirmed = none)
    (hpend : pending = true → confirmed = true)
    (hw : Along authContract ctx w₀ (Intending w₀ i p command confirmed pending) w) :
    Holds authContract ctx i (execute p command)
      (fun r w' => ∃ answer, Along authContract ctx w₀ (Acted w₀ i p command answer) w' ∧
        ∀ res, r = .ok res → res.commandId = command.commandId ∧ (res.status = .uncertain ∨
          res.status ≠ .blocked ∧ (res.status = .canceled →
            ∃ o, answer = .outcome o ∧ o.status = "canceled"))) w := by
  have hm : ∀ m, Act.call (.execute p command) ≠ (Act.invoke m : Act Op Answer Exc Method Value) := by
    intro m h; cases h
  have hr : ∀ r, Act.call (.execute p command) ≠ (Act.ret r : Act Op Answer Exc Method Value) := by
    intro r h; cases h
  have hinv : AuthInv (w.push i (.call (.execute p command))) :=
    AuthInv.push hw.inv hm hr (lawful_execute hw.inv hw.here.toBriefed hden hpend)
  have hrel : AuthRel ctx w₀ (w.push i (.call (.execute p command))) :=
    AuthRel.trans hw.rel (AuthRel.push ctx w hm hr fun f hf hi => absurd hi (hctx f hf))
  unfold execute onException
  rw [holds_catching, holds_bind, holds_ask]
  refine ⟨hinv, fun w₁ hinv₁ _ hrel₁ a _ => ?_⟩
  have hm' : ∀ m, Act.reply (.execute p command) a ≠
      (Act.invoke m : Act Op Answer Exc Method Value) := by
    intro m h; cases h
  have hr' : ∀ r, Act.reply (.execute p command) a ≠
      (Act.ret r : Act Op Answer Exc Method Value) := by
    intro r h; cases h
  have hx' : ∀ p' c, Act.reply (.execute p command) a ≠
      (Act.call (.execute p' c) : Act Op Answer Exc Method Value) := by
    intro p' c h; cases h
  have hinv₂ : AuthInv (w₁.push i (.reply (.execute p command) a)) :=
    AuthInv.push hinv₁ hm' hr' (lawful_silent hinv₁ hm' hr' hx')
  have hall : AuthRel ((i, .execute p command) :: ctx) (w.push i (.call (.execute p command)))
      (w₁.push i (.reply (.execute p command) a)) :=
    AuthRel.trans hrel₁ (AuthRel.push _ w₁ hm' hr' fun _ _ _ => ⟨hx', by intro h; cases h⟩)
  -- the call itself counts, nested calls count for others
  have hcalling : Calling w₀ i p command (w.push i (.call (.execute p command))) := by
    obtain ⟨e, he, hown⟩ := hw.here.own
    refine ⟨⟨fun q => ?_, hw.here.catalog, hw.here.version, hw.here.policy, hw.here.profile⟩,
      e, List.mem_cons_of_mem _ he, hown⟩
    rw [openOn_push hm hr]
    exact hw.here.opened q
  have hacted : Acted w₀ i p command a (w₁.push i (.reply (.execute p command) a)) := by
    refine ⟨calling_stable (.execute p command) _ _ hall hcalling, ?_,
      hw.here.started.mono hall.journal, _, List.mem_cons_self, rfl, rfl⟩
    rw [hall.runs _ List.mem_cons_self, runs_execute, hw.here.unrun]
  have h₂ : Along authContract ctx w₀ (Acted w₀ i p command a)
      (w₁.push i (.reply (.execute p command) a)) :=
    ⟨hinv₂, hrel.trans (authContract_calm.narrow _ _ _ _ hall), hacted⟩
  have hsteady : Steady authContract ctx i p
      (Along authContract ctx w₀ (Acted w₀ i p command a)) :=
    authContract_calm.steady acted_stable
  -- a valid outcome gives its own result, anything else an uncertain one
  refine Keeps.holds (P := fun res : Result => res.commandId = command.commandId ∧
      (res.status = .uncertain ∨ res.status ≠ .blocked ∧ (res.status = .canceled →
        ∃ o, a = .outcome o ∧ o.status = "canceled"))) ?_ h₂
    (fun res w' h hres => ⟨a, h, fun _ hr => by cases hr; exact hres⟩) fun e w' h => ?_
  · cases a with
    | outcome o =>
      dsimp only
      split
      · exact keeps_throw
      · rename_i status output hstatus hout
        obtain ⟨hnb, hcan⟩ := ofOutcome_status hstatus
        exact (hsteady.result command status output o.error).weaken fun res hres =>
          ⟨hres.1, .inr ⟨hres.2 ▸ hnb, fun hs => ⟨o, rfl, hcan (hres.2 ▸ hs)⟩⟩⟩
      · exact hsteady.identifiers.bind fun _ _ => keeps_throw
    | _ => exact keeps_throw
  · dsimp only
    split
    · exact (hsteady.result command _ _ _).holds h
        (fun res w' h hres => ⟨a, h, fun _ hr => by cases hr; exact ⟨hres.1, .inl hres.2⟩⟩)
        fun e w' h => ⟨a, h, fun _ hr => by cases hr⟩
    · exact ⟨a, h, fun _ hr => by cases hr⟩

/-- After the execution, only a stored completion lets the result stand. -/
theorem finish_auth {answer : Answer} {res : Result} (hid : res.commandId = command.commandId)
    (hres : res.status = .uncertain ∨ res.status ≠ .blocked ∧ (res.status = .canceled →
      ∃ o, answer = .outcome o ∧ o.status = "canceled"))
    (hw : Along authContract ctx w₀ (Acted w₀ i p command answer) w) :
    Holds authContract ctx i (finish p command start true res) (Returned ctx w₀ i p command) w := by
  have hsteady : Steady authContract ctx i p
      (Along authContract ctx w₀ (Acted w₀ i p command answer)) :=
    authContract_calm.steady acted_stable
  have hlost : ∀ w₁, Along authContract ctx w₀ (Acted w₀ i p command answer) w₁ →
      Holds authContract ctx i (result p command .uncertain []
        (some (error .journalUnavailable "Cannot persist completion; reconcile before retry")))
        (Returned ctx w₀ i p command) w₁ := by
    intro w₁ h₁
    refine (hsteady.result command _ _ _).holds h₁ (fun r w₂ h₂ hr => ?_)
      fun e w₂ h₂ => .raised h₂ Acted.toCalling e
    exact ⟨h₂.mono Acted.toCalling, fun _ heq => by
      cases heq; exact ⟨hr.1, .inr ⟨h₂.here.ran, .inl hr.2⟩⟩⟩
  have hraise : ∀ e w₁, Along authContract ctx w₀ (Acted w₀ i p command answer) w₁ →
      Holds authContract ctx i
        (if Exc.isException e then result p command .uncertain []
          (some (error .journalUnavailable "Cannot persist completion; reconcile before retry"))
        else .fail e) (Returned ctx w₀ i p command) w₁ := by
    intro e w₁ h₁
    split
    · exact hlost w₁ h₁
    · exact .raised h₁ Acted.toCalling e
  unfold finish onException
  rw [holds_catching]
  refine (hsteady.event command (some res) start).seq hw (fun ev w₁ h₁ hev => ?_)
    fun e w₁ h₁ => hraise e w₁ h₁
  rw [holds_bind]
  refine (authContract_calm.append_stored acted_stable (.event ev) h₁).mono fun x w₂ h => ?_
  obtain ⟨h₂, hstored⟩ := h
  cases x with
  | error e => exact hraise e w₂ h₂
  | ok _ =>
    obtain ⟨hmem, b, hb, hi, hact, hsome⟩ := hstored rfl
    refine ⟨h₂.mono Acted.toCalling, fun _ heq => ?_⟩
    cases heq
    refine ⟨hid, .inr ⟨h₂.here.ran, hres.imp_right fun h => ⟨h.1, fun hs => ?_, ?_, ?_, ?_⟩⟩⟩
    · obtain ⟨o, rfl, ho⟩ := h.2 hs
      obtain ⟨b', hb', hi', hact'⟩ := h₂.here.answered
      exact ⟨b', hb', hi', p, command, o, hact', ho⟩
    · exact ⟨b, hb, hi, ev, hact, hev.1.trans hid.symm, hev.2.2, hev.2.1, hsome⟩
    · exact hid ▸ h₂.here.started
    · exact ⟨ev, hmem, hev.1.trans hid.symm, hev.2.2, hev.2.1⟩

/-! ## The whole of `_dispatch` -/

theorem actuate_auth (hctx : ∀ f ∈ ctx, f.1 ≠ i)
    (hden : denial (w₀.st.planes p) command confirmed = none)
    (hpend : pending = true → confirmed = true)
    (hw : Along authContract ctx w₀ (Intending w₀ i p command confirmed pending) w) :
    Holds authContract ctx i (actuate p command start guard) (Returned ctx w₀ i p command) w := by
  have hsteady : Steady authContract ctx i p
      (Along authContract ctx w₀ (Intending w₀ i p command confirmed pending)) :=
    authContract_calm.steady intending_stable
  unfold actuate
  refine (hsteady.guardDenial guard).seq hw (fun d w₁ h₁ _ => ?_)
    fun e w₁ h₁ => .raised h₁ (fun h => h.toCalling) e
  cases d with
  | some code => exact refuse_auth (h₁.mono fun h => h.toUnrun) .blocked (.inl rfl) _
  | none =>
    refine holds_bind.2 ((execute_auth hctx hden hpend h₁).mono fun r w₂ h₂ => ?_)
    obtain ⟨answer, hacted, hres⟩ := h₂
    cases r with
    | ok res =>
      obtain ⟨hid, hstatus⟩ := hres res rfl
      exact finish_auth hid hstatus hacted
    | error e => exact .raised hacted Acted.toCalling e

theorem intend_auth (hctx : ∀ f ∈ ctx, f.1 ≠ i)
    (hden : denial (w₀.st.planes p) command confirmed = none)
    (hpend : pending = true → confirmed = true)
    (hw : Along authContract ctx w₀ (Briefed w₀ i p command confirmed pending) w) :
    Holds authContract ctx i (intend p command start guard) (Returned ctx w₀ i p command) w := by
  have hsteady : Steady authContract ctx i p
      (Along authContract ctx w₀ (Briefed w₀ i p command confirmed pending)) :=
    authContract_calm.steady briefed_stable
  -- where the intent is not recorded, nothing is executed
  have hblocked : ∀ w₁, Along authContract ctx w₀ (Briefed w₀ i p command confirmed pending) w₁ →
      Holds authContract ctx i (result p command .blocked []
        (some (error .journalUnavailable "Cannot persist execution intent")))
        (Returned ctx w₀ i p command) w₁ := by
    intro w₁ h₁
    refine (hsteady.result command .blocked _ _).holds h₁ (fun res w₂ h₂ hres => ?_)
      fun e w₂ h₂ => .raised h₂ (fun h => h.toCalling) e
    exact .refused (h₂.mono Briefed.toUnrun) hres.1 (.inl hres.2)
  unfold intend onException
  rw [holds_bind, holds_catching]
  refine (hsteady.event command none start).seq hw (fun ev w₁ h₁ hev => ?_) fun e w₁ h₁ => ?_
  · rw [holds_bind]
    refine (authContract_calm.append_stored briefed_stable (.event ev) h₁).mono fun x w₂ h => ?_
    obtain ⟨h₂, hstored⟩ := h
    cases x with
    | error e =>
      dsimp only
      split
      · exact hblocked w₂ h₂
      · exact .raised h₂ (fun h => h.toCalling) e
    | ok _ =>
      obtain ⟨hmem, -⟩ := hstored rfl
      have h₃ : Along authContract ctx w₀ (Intending w₀ i p command confirmed pending) w₂ :=
        h₂.mono fun h => ⟨h, ev, hmem, hev.1, hev.2.2, hev.2.1⟩
      exact actuate_auth hctx hden hpend h₃
  · dsimp only
    split
    · exact hblocked w₁ h₁
    · exact .raised h₁ (fun h => h.toCalling) e

/-- No denial: not a duplicate, no preview without approval, and the plane allows it. -/
theorem authorize_auth {duplicate : Bool} :
    Keeps authContract ctx i (Along authContract ctx w₀ (Briefed w₀ i p command confirmed pending))
      (authorize p command duplicate pending confirmed guard)
      (fun d => d = none → (pending = true → confirmed = true) ∧
        denial (w₀.st.planes p) command confirmed = none) := by
  have hsteady : Steady authContract ctx i p
      (Along authContract ctx w₀ (Briefed w₀ i p command confirmed pending)) :=
    authContract_calm.steady briefed_stable
  refine .ite (fun _ => keeps_pure fun h => by cases h) fun _ => ?_
  refine .ite (fun _ => keeps_pure fun h => by cases h) fun hpend => ?_
  refine (hsteady.guardDenial guard).bind fun d _ => ?_
  cases d with
  | some code => exact keeps_pure fun h => by cases h
  | none =>
    refine keeps_read fun w hw hd => ⟨fun hp => ?_, ?_⟩
    · simpa [hp] using hpend
    · rw [← hd]
      exact (denial_congr hw.here.catalog hw.here.policy hw.here.profile command confirmed).symm

/-- **`_dispatch` keeps the contract**, and its result is honest. -/
theorem dispatchBody_auth (hctx : ∀ f ∈ ctx, f.1 ≠ i) {canceled : Bool}
    (hw : Along authContract ctx w₀ (Unread w₀ i p command confirmed) w) :
    Holds authContract ctx i (dispatchBody p command canceled confirmed guard)
      (Returned ctx w₀ i p command) w := by
  have hunrun : Steady authContract ctx i p
      (Along authContract ctx w₀ (Unrun w₀ i p command confirmed)) :=
    authContract_calm.steady unrun_stable
  unfold dispatchBody onException
  rw [holds_bind, holds_catching]
  refine holds_bind.2 ((readHistory_auth hctx hw).mono fun r w₁ h₁ => ?_)
  cases r with
  | error e =>
    dsimp only
    split
    · refine (hunrun.result command .blocked _ _).holds h₁ (fun res w₂ h₂ hres => ?_)
        fun e w₂ h₂ => .raised h₂ Unrun.toCalling e
      exact .refused h₂ hres.1 (.inl hres.2)
    · exact .raised h₁ Unrun.toCalling e
  | ok pending =>
    have hbriefed : Steady authContract ctx i p
        (Along authContract ctx w₀ (Briefed w₀ i p command confirmed pending)) :=
      authContract_calm.steady briefed_stable
    dsimp only [Function.comp, holds_pure]
    refine hbriefed.clock.seq h₁ (fun start w₂ h₂ _ => ?_)
      fun e w₂ h₂ => .raised h₂ (fun h => h.toCalling) e
    rw [holds_bind, holds_read]
    dsimp only
    refine (hbriefed.addSeen _).seq h₂ (fun _ w₃ h₃ _ => ?_)
      fun e w₃ h₃ => .raised h₃ (fun h => h.toCalling) e
    refine authorize_auth.seq h₃ (fun d w₄ h₄ hd => ?_)
      fun e w₄ h₄ => .raised h₄ (fun h => h.toCalling) e
    split
    · exact refuse_auth (h₄.mono Briefed.toUnrun) .canceled (.inr rfl) _
    · cases d with
      | some code => exact refuse_auth (h₄.mono Briefed.toUnrun) .blocked (.inl rfl) _
      | none =>
        obtain ⟨hpend, hden⟩ := hd rfl
        exact intend_auth hctx hden hpend h₄

end Plane

end Arhugula
