import Arhugula.Proof.LoopRules

/-!
# Every operation keeps the law of the journal

One triple for each operation: what it saves is one of `Saves`, and `begin`, `check` and `transition` owe what
they found. `loop_kept` is the conclusion.
-/

namespace Arhugula

namespace Loop

open Reentrant Durable Strings Lit ReviewBudget

variable {H : Type} {h : Host H} {sha256 : Text → Text} {j₀ : JSlot H} {i : ℕ} {meth : Method H}
  {J₀ J J' : Journal H} {fs : Seen H} {s : Shelf H} {t : List (LEntry H)} {v : Value} {α : Type}

/-! ## Around an operation -/

theorem Runs.unique {m m' : Method H} (hm : Runs t m) (hm' : Runs t m') : m = m' := by
  obtain ⟨e, he, hact, -⟩ := hm.invoked
  exact hm'.only e he m hact

/-- The operations that owe nothing to what they return. -/
def Method.isFree : Method H → Bool
  | .begin _ | .check .. | .transition .. => false
  | _ => true

theorem owes_free (hr : Runs t meth) (hm : meth.isFree = true) : Owes h t v where
  issued b r hb := by
    rw [hr.unique hb] at hm
    cases hm
  checked admission operation tickets hb := by
    rw [hr.unique hb] at hm
    cases hm
  moved admission operation ticket hb := by
    rw [hr.unique hb] at hm
    cases hm

theorem unread_invoked {x : List (LEntry H)} (hx : ∃ s, x = [⟨i, .invoke meth, s⟩]) : Unread meth x := by
  obtain ⟨s, rfl⟩ := hx
  refine ⟨⟨⟨_, List.mem_cons_self, rfl, trivial⟩, fun e he m hm => ?_⟩, fun e he a hact => ?_⟩
  · rw [List.mem_singleton.1 he] at hm
    cases hm
    rfl
  · rw [List.mem_singleton.1 he] at hact
    cases hact

/-- The lease leaves the operation to read its journal. -/
theorem Unread.locked {s s' : Shelf H} {a : Answer} (hun : Unread meth t) :
    Unread meth (⟨i, .reply .lock a, s'⟩ :: ⟨i, .call .lock, s⟩ :: t) := by
  refine ⟨hun.runs.ask, fun e he b hact => ?_⟩
  rcases List.mem_cons.1 he with rfl | he
  · cases hact
  rcases List.mem_cons.1 he with rfl | he
  · cases hact
  · exact hun.unread e he b hact

/-- The grant that an operation stands on, with what it saw of LIT and of the routing. -/
def Standing (h : Host H) (J : Journal H) (admission : Text) (operation : String) (tickets : List Text)
    (v : Grant H × Export × Reads) (b : Binding) : Prop :=
  clear J admission operation tickets = .ok v.1 ∧ fingerprint h.digest v.2.1 v.1.ticket J.goalTicket = v.1.fingerprint ∧
    b.sha256 = v.1.control

/-- What it saw. -/
def standing (h : Host H) (v : Grant H × Export × Reads) (b : Binding) : Seen H :=
  [(.reply .bindControl .done, fun s => ∃ f, s.control = .holding f ∧ h.control f = b),
    (.reply (.export v.1.ticket) (.exported v.2.1 v.2.2), fun _ => True)]

theorem At.stands {admission : Text} {operation : String} {tickets : List Text} {v : Grant H × Export × Reads}
    {b : Binding} (more : Seen H) (hv : Standing h J admission operation tickets v b)
    (hat : At meth J₀ J' (more ++ standing h v b) s t) : Stands h t J admission operation tickets v.1 v.2.1 where
  clear := hv.1
  exported := ⟨v.2.2, hat.saw (by simp [standing])⟩
  fingerprint := hv.2.1
  bound := ⟨b, hat.saw (by simp [standing]), hv.2.2⟩

/-- What `check` and `transition` owe is owed to their own arguments. -/
theorem owes_cleared {admission : Text} {operation : String} {tickets : List Text} (hr : Runs t meth)
    (hm : meth = .check admission operation tickets ∨ ∃ ticket, tickets = [ticket] ∧ meth = .transition admission operation ticket)
    (hc : Cleared h t admission operation tickets) : Owes h t v where
  issued b r hb := by
    cases hr.unique hb
    rcases hm with hm | ⟨_, _, hm⟩ <;> cases hm
  checked admission' operation' tickets' hb := by
    cases hr.unique hb
    rcases hm with hm | ⟨_, _, hm⟩ <;> cases hm
    exact hc
  moved admission' operation' ticket' hb := by
    cases hr.unique hb
    rcases hm with hm | ⟨_, rfl, hm⟩ <;> cases hm
    exact hc

variable [DecidableEq H]

/-- **An operation under the lease.** -/
theorem outside_lease {p : LM H α} {F : List (LEntry H) → Prop} {P : α → List (LEntry H) → Prop}
    (hF : ∀ t, F t → Unread meth t) (hp : LDoes h sha256 j₀ i (fun _ t => Unread meth t) p fun a _ t => P a t) :
    (journalLaw h).Outside j₀ (loop h sha256) i F (lease p) P := by
  refine Law.outside_during (fun ⟨v, hv⟩ => by cases hv) (hp.pre ?_)
  rintro s t ⟨s₁, s₂, a, t₀, ht₀, rfl⟩
  exact (hF t₀ ht₀).locked

/-! ## Admission -/

theorem at_startupBudget {transcript : Text} (hm : (∃ b, meth = .begin b) ∨ meth = .finishStartup) :
    LDoes h sha256 j₀ i (At meth J J fs) (startupBudget J transcript) fun _ => At meth J J fs := by
  unfold startupBudget
  refine (at_ask fun he => by cases he).bind fun a => ?_
  have hat : ∀ s t, (∀ q : Shelf H → Prop, q s → At meth J J ((.reply (.budget transcript J.sessionId) a, q) :: fs) s t) →
      At meth J J fs s t := fun s t hF => (hF (fun _ => True) trivial).drop
  cases a with
  | report r => exact Law.does_pure hat
  | rejected r =>
    refine ((at_saves ?_ ?_ fun s t _ => ?_).pre hat).bind fun _ => Law.does_throw
    · rfl
    · exact .inl rfl
    · exact .rejected r hm
  | _ => exact Law.does_throw

/-- The startup of the epoch was measured. -/
def IsStarted (J : Journal H) : Prop :=
  J.startupRequired = some true → ∃ r, J.startupReceipt.join = some r ∧ r.epoch = J.epoch

theorem at_startup {b : Begin} {transcript : Text} :
    LDoes h sha256 j₀ i (At (.begin b) J J fs) (startup J transcript) fun J' s t =>
      ∃ r, (J' = { J with startupWorkflowAdmission := r } ∧ IsStarted J) ∧ At (.begin b) J J fs s t := by
  unfold startup
  refine Law.does_ite (fun hno => ?_) fun hyes => ?_
  · exact Law.does_pure fun s t hat => ⟨J.startupWorkflowAdmission, ⟨rfl, fun hy => absurd hy hno⟩, hat⟩
  · cases hreceipt : J.startupReceipt.join with
    | none => exact Law.does_throw
    | some receipt =>
      refine Law.does_ite (fun _ => Law.does_throw) fun hepoch => ?_
      refine (at_startupBudget (.inl ⟨b, rfl⟩)).bind fun report => Law.does_pure fun s t hat => ?_
      exact ⟨some report, ⟨rfl, fun _ => ⟨receipt, hreceipt, not_not.1 hepoch⟩⟩, hat⟩

/-- The issuer changes nothing. -/
theorem at_issuer {c : Clearance} {session transcript : Text} :
    LDoes h sha256 j₀ i (At meth J₀ J fs) (c.issuer session transcript) fun _ => At meth J₀ J fs := by
  unfold Clearance.issuer
  cases c with
  | implementation => exact Law.does_pure fun s t hat => hat
  | preparation p =>
    refine (at_fetch' fun he => by cases he).bind fun a => Law.does_ite (fun _ => Law.does_throw) fun _ => ?_
    exact (at_call' fun he => by cases he).bind fun _ => Law.does_pure fun s t hat => hat

/-- `begin`, once nothing holds it back. -/
theorem at_issue {b : Begin} {r : Option Json} {control : Control} {lead : Row} {data : Export} {reads : Reads}
    {transcript : Text}
    (hadmits : ∀ reservation, b.clearance.admits h data b.ticket (openDependencies data b.ticket) = .ok () →
      recordedWriter J b.ticket = .ok reservation → (data.issues.find? (·.id = b.ticket)).any Issue.isActive = true →
      Admits h b J control lead data reservation) :
    LDoes h sha256 j₀ i
      (At (.begin b) J J [(.reply (.export b.ticket) (.exported data reads), fun _ => True),
        (.reply .control .done, IsRouting control lead)])
      (b.issue h { J with startupWorkflowAdmission := r } data reads transcript) fun v _ t => Owes h t (.began v) := by
  unfold Begin.issue
  refine does_given.bind fun _ => does_and fun hcleared => at_issuer.bind fun issuer => ?_
  refine does_given.bind fun reservation => does_and fun hwriter => Law.does_ite (fun _ => Law.does_throw) fun hactive => ?_
  have hadm := hadmits reservation hcleared hwriter (by simpa using hactive)
  refine (at_fetch' fun he => by cases he).bind fun id => at_bindControl.bind fun binding => ?_
  refine (at_saves ?_ ?_ fun s t hat => ?_).bind fun _ => Law.does_pure fun s t hat => ?_
  · rfl
  · exact .inl rfl
  · exact .begun r control lead data reads binding id issuer reservation hat.read (hat.saw (by simp))
      (hat.saw (by simp)) (hat.saw (by simp)) hadm
  · refine ⟨fun b' r' hb' hr' => ?_, fun _ _ _ hc => ?_, fun _ _ _ hc => ?_⟩
    · cases hat.runs.unique hb'
      cases hr'
      exact ⟨J, control, lead, data, reads, reservation, hat.read, hat.saw (by simp), hat.saw (by simp), hadm, rfl⟩
    · cases hat.runs.unique hc
    · cases hat.runs.unique hc

/-- **`begin`.** -/
theorem does_begin {b : Begin} :
    (journalLaw h).Outside j₀ (loop h sha256) i (fun t => Unread (.begin b) t) (begin h b) fun v t => Owes h t (.began v) := by
  unfold begin
  refine outside_lease (fun t ht => ht) (at_readJournal.bind fun J => at_readControl.bind fun c => ?_)
  obtain ⟨control, lead⟩ := c
  refine at_readLit.bind fun d => ?_
  obtain ⟨data, reads⟩ := d
  dsimp only
  refine Law.does_ite (fun _ => Law.does_throw) fun hawaiting => ?_
  refine at_startup.bind fun J' => Law.does_exists fun r => does_and fun hstart => ?_
  obtain ⟨rfl, hstarted⟩ := hstart
  refine Law.does_ite (fun _ => Law.does_throw) fun hmaintenance => ?_
  refine Law.does_ite (fun _ => Law.does_throw) fun hreconciled => ?_
  refine Law.does_ite (fun _ => Law.does_throw) fun hpaused => ?_
  refine Law.does_ite (fun _ => Law.does_throw) fun hlead => ?_
  refine Law.does_ite (fun _ => ?_) fun hdue => ?_
  · -- a reset is due, or there is no headroom: the latter is recorded
    refine Law.does_ite (fun _ => ?_) fun _ => Law.does_throw
    refine (at_saves ?_ ?_ fun s t _ => ?_).bind fun _ => Law.does_throw
    · rfl
    · exact .inl rfl
    · exact .exhausted r
  refine Law.does_ite (fun _ => Law.does_throw) fun hfree => ?_
  refine Law.does_ite (fun _ => Law.does_throw) fun hunit => ?_
  refine at_issue fun reservation hcleared hwriter hactive => ?_
  simp only [Bool.or_eq_true, not_or, Bool.not_eq_true, Bool.not_eq_eq_eq_not, Bool.not_true,
    Bool.not_eq_false, Bool.and_eq_true, not_and, not_not] at hawaiting hmaintenance hreconciled hpaused hlead hdue hunit
  exact {
    awaiting := hawaiting
    started := hstarted
    maintenance := hmaintenance
    reconciled := hreconciled
    unpaused := fun hp => hpaused (by simpa using hp)
    lead := hlead
    due := hdue.1
    headroom := hdue.2
    free := hfree
    unit := hunit
    cleared := hcleared
    writer := hwriter
    active := hactive }

theorem at_current {admission : Text} {operation : String} {tickets : List Text} :
    LDoes h sha256 j₀ i (At meth J J []) (current h J admission operation tickets) fun v s t =>
      ∃ b, Standing h J admission operation tickets v b ∧ At meth J J (standing h v b) s t := by
  unfold current
  refine does_given.bind fun grant => does_and fun hclear => at_readLit.bind fun d => ?_
  obtain ⟨data, reads⟩ := d
  refine Law.does_ite (fun _ => Law.does_throw) fun hfingerprint => at_bindControl.bind fun b => ?_
  refine Law.does_ite (fun _ => Law.does_throw) fun hcontrol => Law.does_pure fun s t hat => ?_
  exact ⟨b, ⟨hclear, not_not.1 hfingerprint, not_not.1 hcontrol⟩, hat⟩

/-- **`check`.** -/
theorem does_check {admission : Text} {operation : String} {tickets : List Text} :
    (journalLaw h).Outside j₀ (loop h sha256) i (fun t => Unread (.check admission operation tickets) t)
      (check h admission operation tickets) fun v t => Owes h t (.checked v) := by
  unfold check
  refine outside_lease (fun t ht => ht) (at_readJournal.bind fun J => at_current.bind fun v => Law.does_exists fun b =>
    does_and fun hv => Law.does_pure fun s t hat => ?_)
  exact owes_cleared hat.runs (.inl rfl) ⟨J, v.1, v.2.1, hat.read, At.stands [] hv hat⟩

/-- **`transition`.** -/
theorem does_transition {admission : Text} {operation : String} {ticket : Text} :
    (journalLaw h).Outside j₀ (loop h sha256) i (fun t => Unread (.transition admission operation ticket) t)
      (transition h admission operation ticket) fun _ t => Owes h t .none := by
  unfold transition
  refine outside_lease (fun t ht => ht) (at_readJournal.bind fun J => at_current.bind fun v => Law.does_exists fun b =>
    does_and fun hv => ?_)
  refine (at_call' fun he => by cases he).bind fun _ => at_readLit.bind fun d => ?_
  obtain ⟨after, reads⟩ := d
  refine Law.does_ite (fun _ => Law.does_throw) fun hbeside => ?_
  refine (at_saves ?_ ?_ fun s t hat => ?_).post fun _ s t hat => ?_
  · rfl
  · exact .inl rfl
  · exact .moved v.1 v.2.1 after reads hat.read (At.stands [_] hv hat) (hat.saw (by simp)) (not_not.1 hbeside)
  · exact owes_cleared hat.runs (.inr ⟨ticket, rfl, rfl⟩) ⟨J, v.1, v.2.1, hat.read,
      At.stands [_] hv hat⟩

/-! ## The operations that owe nothing to what they return -/

/-- An operation that did not read a journal, or that needs nothing of it any more. -/
def Running (meth : Method H) (q : JSlot H → Prop) (s : Shelf H) (t : List (LEntry H)) : Prop := Runs t meth ∧ q s.journal

variable {q : JSlot H → Prop}

theorem running_ask {op : Op H} :
    LDoes h sha256 j₀ i (Running meth q) (Prog.ask op) fun _ => Running meth q := by
  refine Law.does_ask fun s t s' a hr hs => ⟨hr.1.ask, ?_⟩
  have hj : s'.journal = s.journal := hs
  rw [hj]
  exact hr.2

theorem running_call {op : Op H} : LDoes h sha256 j₀ i (Running meth q) (call op) fun _ => Running meth q := by
  refine running_ask.bind fun a => ?_
  cases a with
  | done => exact Law.does_pure fun s t hr => hr
  | _ => exact Law.does_throw

theorem running_fetch {op : Op H} {value : Answer → Option α} :
    LDoes h sha256 j₀ i (Running meth q) (fetch op value) fun _ => Running meth q := by
  refine running_ask.bind fun a => ?_
  cases value a with
  | none => exact Law.does_throw
  | some v => exact Law.does_pure fun s t hr => hr

theorem running_readJournal : LDoes h sha256 j₀ i (Running meth q) readJournal fun _ => Running meth q := by
  refine running_call.bind fun _ => (Law.does_read (P := fun _ => Running meth q) fun s t hr => hr).bind fun v => ?_
  cases v with
  | holding file =>
    dsimp only
    cases file.value.opened with
    | none => exact Law.does_throw
    | some J => exact Law.does_pure fun s t hr => hr
  | _ => exact Law.does_throw

theorem running_readControl : LDoes h sha256 j₀ i (Running meth q) readControl fun _ => Running meth q := by
  refine running_call.bind fun _ => (Law.does_read (P := fun _ => Running meth q) fun s t hr => hr).bind fun v => ?_
  cases v with
  | holding file =>
    dsimp only
    refine Law.does_ite (fun _ => Law.does_throw) fun _ => ?_
    split
    · exact Law.does_pure fun s t hr => hr
    · exact Law.does_throw
  | _ => exact Law.does_throw

/-- The rest of an operation, once it saved what it had to save. -/
theorem runs_status : LDoes h sha256 j₀ i (fun _ t => Runs t meth) status fun _ _ t => Runs t meth := by
  refine Law.Does.weaken (F := Running meth fun _ => True) (P := fun _ => Running meth fun _ => True) ?_
    (fun s t hr => ⟨hr, trivial⟩) fun _ s t hr => hr.1
  exact running_readJournal.bind fun J => running_readControl.bind fun _ => Law.does_pure fun s t hr => hr

/-- **`initialize`**: the path is absent. -/
theorem does_initializeJournal {session model effort handoff goal : Text} :
    (journalLaw h).Outside j₀ (loop h sha256) i (fun t => Unread (.initializeJournal session model effort handoff goal) t)
      (initializeJournal session model effort handoff goal) fun _ t => Owes h t .none := by
  unfold initializeJournal
  refine outside_lease (fun t ht => ht) ?_
  refine Law.Does.pre (F := Running (.initializeJournal session model effort handoff goal) fun _ => True) ?_
    fun s t hun => ⟨hun.runs, trivial⟩
  refine running_call.bind fun _ => (Law.does_read (P := fun v s t => v = s.journal ∧
    Running (.initializeJournal session model effort handoff goal) (fun _ => True) s t) fun s t hr => ⟨rfl, hr⟩).bind fun v => ?_
  refine Law.does_ite (fun _ => Law.does_throw) fun habsent => ?_
  refine Law.Does.pre (F := Running (.initializeJournal session model effort handoff goal) (· = .absent)) ?_
    fun s t hr => ⟨hr.2.1, hr.1.symm.trans (not_not.1 habsent)⟩
  refine running_readControl.bind fun c => Law.does_ite (fun _ => Law.does_throw) fun _ => running_fetch.bind fun binding => ?_
  unfold save
  refine (Law.does_save (fun s x => ⟨rfl, rfl⟩) ?_ fun t => Step.lost).post ?_
  · rintro s' t' ⟨s, t, a, hr, hs, -, rfl⟩
    have hj : s'.journal = .absent := hs.trans hr.2
    show Step h _ s'.journal _
    rw [hj]
    exact .created session model effort goal binding
  · rintro _ s' t' ⟨-, s, t, s₁, s₂, s₃, a, b, hr, -, rfl⟩
    exact owes_free hr.1.ask.ask rfl

/-- **`request_reset`.** -/
theorem does_requestReset {evidence : Json} :
    (journalLaw h).Outside j₀ (loop h sha256) i (fun t => Unread (.requestReset evidence) t) (requestReset evidence)
      fun v t => Owes h t (.requests v) := by
  unfold requestReset
  refine outside_lease (fun t ht => ht) (at_readJournal.bind fun J => ?_)
  refine (at_saves ?_ ?_ fun s t _ => ?_).bind fun _ => Law.does_pure fun s t hat => ?_
  · rfl
  · exact .inl rfl
  · exact .requested _
  · exact owes_free hat.runs rfl

/-- **`finish_startup`.** -/
theorem does_finishStartup :
    (journalLaw h).Outside j₀ (loop h sha256) i (fun t => Unread .finishStartup t) (finishStartup h)
      fun v t => Owes h t (.startup v) := by
  unfold finishStartup
  refine outside_lease (fun t ht => ht) (at_readJournal.bind fun J => at_readControl.bind fun c => ?_)
  obtain ⟨control, row⟩ := c
  refine Law.does_ite (fun _ => Law.does_throw) fun _ => ?_
  refine (at_startupBudget (.inr rfl)).bind fun report => at_bindControl.bind fun routing => ?_
  refine (at_saves ?_ ?_ fun s t _ => ?_).bind fun _ => Law.does_pure fun s t hat => ?_
  · rfl
  · exact .inl rfl
  · exact .measured _
  · exact owes_free hat.runs rfl

theorem at_completion {ticket evidence : Text} {closeout : Option Text} {reads : Reads} :
    LDoes h sha256 j₀ i (At meth J J fs) (completion J ticket evidence closeout reads) fun _ => At meth J J fs := by
  unfold completion
  refine (at_fetch' fun he => by cases he).bind fun evidence => (at_fetch' fun he => by cases he).bind fun profile => ?_
  refine Law.does_ite (fun _ => ?_) fun _ => Law.does_ite (fun _ => Law.does_throw) fun _ =>
    Law.does_ite (fun _ => Law.does_throw) fun _ => Law.does_pure fun s t hat => hat
  cases closeout with
  | none => exact Law.does_throw
  | some path =>
    refine (at_fetch' fun he => by cases he).bind fun parsed => Law.does_ite (fun _ => Law.does_throw) fun _ => ?_
    exact (at_fetch' fun he => by cases he).bind fun bound => Law.does_pure fun s t hat => hat

/-- **`complete`.** -/
theorem does_complete {ticket evidence : Text} {closeout : Option Text} :
    (journalLaw h).Outside j₀ (loop h sha256) i (fun t => Unread (.complete ticket evidence closeout) t)
      (complete ticket evidence closeout) fun v t => Owes h t (.completed v) := by
  unfold complete
  refine outside_lease (fun t ht => ht) (at_readJournal.bind fun J => at_readLit.bind fun d => ?_)
  obtain ⟨data, reads⟩ := d
  refine Law.does_ite (fun _ => Law.does_throw) fun _ => Law.does_ite (fun _ => Law.does_throw) fun _ => ?_
  refine Law.does_ite (fun _ => Law.does_pure fun s t hat => owes_free hat.runs rfl) fun hnew => ?_
  refine Law.does_ite (fun _ => Law.does_throw) fun _ => Law.does_ite (fun _ => Law.does_throw) fun _ => ?_
  refine at_completion.bind fun record => Law.does_ite (fun _ => Law.does_throw) fun _ => ?_
  refine (at_saves ?_ ?_ fun s t _ => ?_).bind fun _ => Law.does_pure fun s t hat => ?_
  · rfl
  · exact .inr rfl
  · exact .completed record (by simpa using hnew)
  · exact owes_free hat.runs rfl

theorem at_landing {product : Text} {facts : Facts} :
    LDoes h sha256 j₀ i (At meth J J fs) (landing product facts) fun _ => At meth J J fs := by
  unfold landing
  cases facts.terminal with
  | none => exact Law.does_pure fun s t hat => hat
  | some terminal =>
    refine Law.does_ite (fun _ => Law.does_pure fun s t hat => hat) fun _ => ?_
    refine (at_fetch' fun he => by cases he).bind fun d => ?_
    exact Law.does_ite (fun _ => Law.does_pure fun s t hat => hat) fun _ => Law.does_pure fun s t hat => hat

/-- **`review`.** -/
theorem does_review {ticket product arc : Text} {impacts : List Impact} {unit : Option Text} :
    (journalLaw h).Outside j₀ (loop h sha256) i (fun t => Unread (.review ticket product arc impacts unit) t)
      (review ticket product arc impacts unit) fun v t => Owes h t (.reviewed v) := by
  unfold review
  refine outside_lease (fun t ht => ht) (at_readJournal.bind fun J => at_readLit.bind fun d => ?_)
  obtain ⟨data, reads⟩ := d
  refine (at_fetch' fun he => by cases he).bind fun facts => ?_
  refine Law.does_ite (fun _ => Law.does_throw) fun harc => at_landing.bind fun code => ?_
  obtain ⟨code, transfer⟩ := code
  refine (at_fetch' fun he => by cases he).bind fun next => ?_
  cases he : evaluate facts.reducer arc code.headSha
      (((J.reviews.find (unitKey ticket unit)).map fun r => r.evaluation.observed).getD []) impacts next with
  | error text => exact Law.does_throw
  | ok evaluation =>
    refine (at_saves ?_ ?_ fun s t _ => ?_).bind fun _ => ?_
    · rfl
    · exact .inl rfl
    · exact .reviewed _ facts.reducer code.headSha next (not_not.1 harc) rfl he
    · have hrest : ∀ {J'} {result : Review}, LDoes h sha256 j₀ i (At (.review ticket product arc impacts unit) J J' [])
          (call (.comment ticket (unitKey ticket unit) result) >>= fun _ => pure result)
          fun v _ t => Owes h t (.reviewed v) :=
        (at_call' fun he => by cases he).bind fun _ => Law.does_pure fun s t hat => owes_free hat.runs rfl
      refine Law.does_ite (fun _ => ?_) fun _ => hrest.pre fun s t hat => hat.drop
      exact (at_call' fun he => by cases he).bind fun _ => hrest.pre fun s t hat => hat.drop

/-- **`reserve`.** -/
theorem does_reserve {record : Json} :
    (journalLaw h).Outside j₀ (loop h sha256) i (fun t => Unread (.reserve record) t) (reserve h record)
      fun v t => Owes h t (.reserved v) := by
  unfold reserve
  have hgiven : (journalLaw h).Outside j₀ (loop h sha256) i (fun t => Unread (.reserve record) t)
      (Prog.ofExcept (parseReservation h record)) fun candidate t => parseReservation h record = .ok candidate ∧
        Unread (.reserve record) t := Law.outside_ofExcept fun candidate hc t ht => ⟨hc, ht⟩
  refine hgiven.bind fun candidate => ?_
  intro ctx w₀ w hw
  have hparse := hw.holds.1
  refine outside_lease (fun t ht => ht.2) ?_ ctx w₀ w hw
  refine at_readJournal.bind fun J => does_given.bind fun active => does_and fun hactive => ?_
  refine Law.does_ite (fun _ => Law.does_throw) fun hfree => ?_
  refine (at_saves ?_ ?_ fun s t _ => ?_).bind fun _ => Law.does_pure fun s t hat => ?_
  · rfl
  · exact .inr rfl
  · exact .reserved candidate active hparse hactive (not_not.1 hfree)
  · exact owes_free hat.runs rfl

/-- **`release`.** -/
theorem does_release {key : Text} :
    (journalLaw h).Outside j₀ (loop h sha256) i (fun t => Unread (.release key) t) (release key)
      fun _ t => Owes h t .none := by
  unfold release
  refine outside_lease (fun t ht => ht) (at_readJournal.bind fun J => Law.does_ite (fun _ => Law.does_throw) fun _ => ?_)
  refine Law.does_ite (fun _ => Law.does_throw) fun _ => (at_saves ?_ ?_ fun s t _ => ?_).post fun _ s t hat => ?_
  · rfl
  · exact .inr rfl
  · exact .released
  · exact owes_free hat.runs rfl

/-- **`prepare_clear`.** -/
theorem does_prepareClear {p : Prepare} :
    (journalLaw h).Outside j₀ (loop h sha256) i (fun t => Unread (.prepareClear p) t) (prepareClear p)
      fun v t => Owes h t (.sealed v) := by
  unfold prepareClear
  refine outside_lease (fun t ht => ht) (at_readJournal.bind fun J => (at_call' fun he => by cases he).bind fun _ => ?_)
  refine (at_fetch' fun he => by cases he).bind fun handoff => Law.does_ite (fun _ => Law.does_throw) fun _ => ?_
  refine at_readLit.bind fun d => at_readControl.bind fun c => (at_fetch' fun he => by cases he).bind fun provenance => ?_
  refine (at_fetch' fun he => by cases he).bind fun manifest => ?_
  refine (at_saves ?_ ?_ fun s t _ => ?_).bind fun _ => Law.does_pure fun s t hat => ?_
  · rfl
  · exact .inl rfl
  · exact .sealed manifest
  · exact owes_free hat.runs rfl

/-- The package that is read is the one that is sealed. -/
theorem at_clearPackage {reset : Option Reset} :
    LDoes h sha256 j₀ i (At meth J₀ J fs) (clearPackage reset) fun v s t =>
      reset = some v.1 ∧ At meth J₀ J ((.reply (.package v.1) (.frontier v.2), fun _ => True) :: fs) s t := by
  unfold clearPackage
  cases reset with
  | none => exact Law.does_throw
  | some reset =>
    refine (at_fetch fun he => by cases he).bind fun frontier => Law.does_exists fun a => does_and fun ha => ?_
    refine Law.does_pure fun s t hat => ⟨rfl, ?_⟩
    cases a with
    | frontier f =>
      cases ha
      exact hat
    | _ => cases ha

theorem at_readyClear {transcript : Text} :
    LDoes h sha256 j₀ i (At meth J₀ J₀ fs) (readyClear transcript) fun _ => At meth J₀ J₀ fs := by
  unfold readyClear status
  refine Law.Does.bind (P := fun _ => At meth J₀ J₀ fs) ?_ fun state => ?_
  · exact at_reread.bind fun v => does_and fun _ => at_readControl.bind fun c => Law.does_pure fun s t hat => hat.drop
  refine (at_fetch' fun he => by cases he).bind fun actual => Law.does_ite (fun _ => Law.does_throw) fun _ => ?_
  exact at_clearPackage.bind fun v => does_and fun _ => Law.does_pure fun s t hat => hat.drop

theorem at_isLate {deadline : Option ℚ} :
    LDoes h sha256 j₀ i (At meth J₀ J fs) (isLate deadline) fun _ => At meth J₀ J fs := by
  unfold isLate
  cases deadline with
  | none => exact Law.does_pure fun s t hat => hat
  | some d => exact (at_fetch' fun he => by cases he).bind fun now => Law.does_pure fun s t hat => hat

theorem at_bootstrapEvidence {transcript : Text} {began : ℚ} {deadline : Option ℚ} :
    LDoes h sha256 j₀ i (At meth J J []) (bootstrapEvidence h J transcript began deadline) fun v s t =>
      (J.reset = some v.1.reset ∧ (J.pendingBootstrap = none ∨ J.pendingBootstrap = some v.1.session)) ∧
        At meth J J [(.reply (.package v.1.reset) (.frontier v.1.frontier), fun _ => True)] s t := by
  unfold bootstrapEvidence
  refine at_clearPackage.bind fun v => does_and fun hreset => ?_
  obtain ⟨reset, frontier⟩ := v
  refine (at_fetch' fun he => by cases he).bind fun actual => Law.does_ite (fun _ => Law.does_throw) fun _ => ?_
  cases actual.sessionId with
  | none => exact Law.does_throw
  | some session =>
    refine Law.does_ite (fun _ => Law.does_throw) fun _ => (at_fetch' fun he => by cases he).bind fun v => ?_
    obtain ⟨expected, frontierSha⟩ := v
    refine at_readControl.bind fun c => ?_
    obtain ⟨control, lead⟩ := c
    refine Law.does_ite (fun _ => Law.does_throw) fun _ => Law.does_ite (fun _ => Law.does_throw) fun hpending => ?_
    have hold : J.pendingBootstrap = none ∨ J.pendingBootstrap = some session := by
      cases hp : J.pendingBootstrap with
      | none => exact .inl rfl
      | some other =>
        rw [hp] at hpending
        exact .inr (congrArg some (by simpa using hpending))
    -- a manual bootstrap asks whether the old lane is idle; both go on alike
    refine Law.does_ite (fun _ => at_readControl.bind fun c => (at_readyClear.pre fun s t hat => hat.drop).bind fun _ => ?_)
      fun _ => ?_
    all_goals
      refine at_readLit.bind fun d => (at_fetch' fun he => by cases he).bind fun now => at_isLate.bind fun late => ?_
      refine Law.does_ite (fun _ => Law.does_throw) fun _ => at_readControl.bind fun c => ?_
      refine Law.does_ite (fun _ => Law.does_throw) fun _ => Law.does_ite (fun _ => Law.does_throw) fun _ => ?_
      exact Law.does_pure fun s t hat => ⟨⟨hreset, hold⟩, hat.drop.drop.drop⟩

/-- A save of the routing. -/
theorem at_saveControl {control : Written Control} :
    LDoes h sha256 j₀ i (At meth J₀ J fs) (controlSaver.save control) fun _ => At meth J₀ J fs := by
  refine (Law.does_save_beside fun s x => ⟨rfl, rfl⟩).post ?_
  rintro _ s' t' ⟨s, t, s₁, s₂, a, b, hat, hs, rfl⟩
  refine ⟨hat.runs.ask.ask, ⟨hat.read.read.mono (l := [_, _, _, _]), fun e he hact => ?_⟩, ?_, fun f hf => ?_⟩
  · simp only [List.mem_cons] at he
    rcases he with rfl | rfl | rfl | rfl | he
    · cases hact
    · cases hact
    · cases hact
    · cases hact
    · exact hat.read.only e he hact
  · have hj : s'.journal = s.journal := hs
    rw [hj]
    exact hat.now
  · exact (hat.facts f hf).mono (l := [_, _, _, _])

omit [DecidableEq H] in
/-- What the intent leaves. -/
theorem intended_keeps (session : Text) : (intended J session).version = J.version ∧
    (intended J session).reservations = J.reservations ∧ (intended J session).reset = J.reset ∧
    (intended J session).pendingBootstrap = some session := by
  unfold intended
  cases J.nativeReceipt with
  | none => exact ⟨rfl, rfl, rfl, rfl⟩
  | some accepted => exact ⟨rfl, rfl, rfl, rfl⟩

/-- **`bootstrap`.** -/
theorem does_bootstrap {transcript : Text} {deadline : Option ℚ} :
    (journalLaw h).Outside j₀ (loop h sha256) i (fun t => Unread (.bootstrap transcript deadline) t)
      (bootstrap h sha256 transcript deadline) fun _ t => Owes h t .none := by
  unfold bootstrap
  have hclock : (journalLaw h).Outside j₀ (loop h sha256) i (fun t => Unread (.bootstrap transcript deadline) t) clock
      fun _ t => Unread (.bootstrap transcript deadline) t := by
    unfold clock fetch
    have hask : (journalLaw h).Outside j₀ (loop h sha256) i (fun t => Unread (.bootstrap transcript deadline) t)
        (Prog.ask .clock) fun _ t => Unread (.bootstrap transcript deadline) t := by
      refine Law.outside_ask (fun ⟨v, hv⟩ => by cases hv) fun s t s' a hun => ⟨hun.runs.ask, fun e he b hact => ?_⟩
      simp only [List.mem_cons] at he
      rcases he with rfl | rfl | he
      · cases hact
      · cases hact
      · exact hun.unread e he b hact
    refine hask.bind fun a => ?_
    cases a with
    | time x => exact Law.outside_pure fun t ht => ht
    | _ => exact Law.outside_throw
  refine hclock.bind fun began => outside_lease (fun t ht => ht) ?_
  refine at_readJournal.bind fun J => at_bootstrapEvidence.bind fun v => does_and fun hv => ?_
  obtain ⟨fresh, control, buford⟩ := v
  obtain ⟨hreset, hpending⟩ := hv
  obtain ⟨hversion, hres, hkeeps, hsession⟩ := intended_keeps (J := J) fresh.session
  refine (at_saves hversion (.inl hres) fun s t _ => ?_).bind fun _ => at_saveControl.bind fun _ => ?_
  · exact .intended fresh.session (by rw [hreset]; rfl) hpending
  refine (at_fetch' fun he => by cases he).bind fun now => ?_
  refine (at_saves ?_ ?_ fun s t hat => ?_).bind fun _ => (runs_status.pre fun s t hat => hat.runs).bind fun _ =>
    Law.does_pure fun s t hr => owes_free hr rfl
  · unfold booted
    split <;> rfl
  · unfold booted
    split <;> exact .inl rfl
  · exact .booted fresh.session _ fresh.reset fresh.frontier (hkeeps.trans hreset) hsession (hat.saw (by simp))

/-- **`acknowledge_native_reset`.** -/
theorem does_acknowledge {receipt : Text} {deadline : Option ℚ} :
    (journalLaw h).Outside j₀ (loop h sha256) i (fun t => Unread (.acknowledge receipt deadline) t)
      (acknowledge receipt deadline) fun _ t => Owes h t .none := by
  unfold acknowledge
  refine outside_lease (fun t ht => ht) (at_readJournal.bind fun J => (at_fetch' fun he => by cases he).bind fun proof => ?_)
  split
  · exact Law.does_throw
  · rename_i session hpending
    refine Law.does_ite (fun _ => Law.does_throw) fun hacceptable => at_isLate.bind fun late => ?_
    refine Law.does_ite (fun _ => Law.does_throw) fun _ => (at_fetch' fun he => by cases he).bind fun bound => ?_
    simp only [isAcceptable, Bool.not_eq_true', Bool.not_eq_false, Bool.and_eq_true, decide_eq_true_eq] at hacceptable
    obtain ⟨⟨-, hepoch⟩, hreset⟩ := hacceptable
    refine (at_saves ?_ ?_ fun s t _ => ?_).bind fun _ => (at_fetch' fun he => by cases he).bind fun acceptedAt => ?_
    · rfl
    · exact .inl rfl
    · exact .receipted bound
    refine Law.does_ite (fun _ => Law.does_throw) fun _ => ?_
    rw [hepoch]
    refine (at_saves ?_ ?_ fun s t _ => ?_).post fun _ s t hat => ?_
    · rfl
    · exact .inl rfl
    · refine .acknowledged session bound _ hpending ?_
      cases hr : J.reset with
      | none =>
        rw [hr] at hreset
        cases hreset
      | some r => rfl
    · exact owes_free hat.runs rfl

/-- The journal is the failed one, or that with the intent, unless the recovery was made. -/
theorem at_recoverable {tr : RecoveryTransfer H} :
    LDoes h sha256 j₀ i (At meth J J fs) (recoverable h tr J) fun _ s t =>
      (tr.isApplied J = false → (J.pendingMaintenance.join = none ∧ J = tr.failed) ∨
        (J.pendingMaintenance.join ≠ none ∧ J = { tr.failed with pendingMaintenance := some (some tr.binding) })) ∧
        At meth J J fs s t := by
  unfold recoverable
  refine Law.does_ite (fun _ => Law.does_throw) fun _ => Law.does_ite (fun happlied => ?_) fun _ => ?_
  · refine Law.does_ite (fun _ => Law.does_throw) fun _ => Law.does_pure fun s t hat => ⟨fun hno => ?_, hat⟩
    rw [happlied] at hno
    cases hno
  refine Law.does_ite (fun hnone => ?_) fun hsome => ?_
  · refine Law.does_ite (fun _ => Law.does_throw) fun hsame => at_bindJournal.bind fun b => ?_
    refine Law.does_ite (fun _ => Law.does_throw) fun _ => Law.does_pure fun s t hat => ⟨fun _ => ?_, hat⟩
    exact .inl ⟨hnone, not_not.1 hsame⟩
  · refine Law.does_ite (fun _ => Law.does_throw) fun hsame => Law.does_pure fun s t hat => ⟨fun _ => ?_, hat⟩
    exact .inr ⟨hsome, not_not.1 hsame⟩

/-- The routing and the journal of a recovery. -/
theorem at_recovered {tr : RecoveryTransfer H} {expected : Control}
    (hJ : J = { tr.failed with pendingMaintenance := some (some tr.binding) }) :
    LDoes h sha256 j₀ i (At (.recoverMaintenance tr) J₀ J fs) (do
      controlSaver.save (published expected)
      save tr.recovered
      let _ ← status
      pure ()) fun _ _ t => Runs t (.recoverMaintenance tr) := by
  refine at_saveControl.bind fun _ => (at_saves ?_ ?_ fun s t _ => ?_).bind fun _ => ?_
  · rw [hJ]
    rfl
  · rw [hJ]
    exact .inl rfl
  · exact .recovered hJ
  · exact (runs_status.pre fun s t hat => hat.runs).bind fun _ => Law.does_pure fun s t hr => hr

/-- **`recover_maintenance`.** -/
theorem does_recoverMaintenance {tr : RecoveryTransfer H} :
    (journalLaw h).Outside j₀ (loop h sha256) i (fun t => Unread (.recoverMaintenance tr) t)
      (recoverMaintenance h tr) fun _ t => Owes h t .none := by
  unfold recoverMaintenance
  refine outside_lease (fun t ht => ht) ?_
  refine Law.Does.post (P := fun _ _ t => Runs t (.recoverMaintenance tr)) ?_ fun _ s t hr => owes_free hr rfl
  refine at_readJournal.bind fun J => at_readControl.bind fun c => at_recoverable.bind fun _ => does_and fun hfound => ?_
  refine (at_fetch' fun he => by cases he).bind fun frozen => ?_
  cases frozen.bufords with
  | nil => exact Law.does_throw
  | cons buford _ =>
    refine Law.does_ite (fun _ => Law.does_throw) fun _ => Law.does_ite (fun _ => Law.does_throw) fun _ => ?_
    refine (at_fetch' fun he => by cases he).bind fun actual => Law.does_ite (fun _ => Law.does_throw) fun _ => ?_
    refine Law.does_ite (fun _ => Law.does_ite (fun _ => Law.does_throw) fun _ => ?_) fun happlied => ?_
    · exact (runs_status.pre fun s t hat => hat.runs).bind fun _ => Law.does_pure fun s t hr => hr
    refine at_readLit.bind fun d => Law.does_ite (fun hnone => ?_) fun hsome => ?_
    · obtain ⟨-, hJ⟩ | ⟨hsome, -⟩ := hfound (eq_false_of_ne_true happlied)
      · refine (at_saves ?_ ?_ fun s t _ => ?_).bind fun _ => at_recovered (congrArg (fun K : Journal H =>
          { K with pendingMaintenance := some (some tr.binding) }) hJ)
        · rfl
        · exact .inl rfl
        · exact .recovering hnone
      · exact absurd hnone hsome
    · obtain ⟨hnone, -⟩ | ⟨-, hJ⟩ := hfound (eq_false_of_ne_true happlied)
      · exact absurd hnone hsome
      · exact at_recovered hJ

/-- **Every operation keeps the law of the journal.** -/
theorem loop_kept : (journalLaw h).Kept j₀ (loop h sha256) where
  method := by
    intro meth i s
    have hunread : ∀ t : List (LEntry H), t = [⟨i, .invoke meth, s⟩] → Unread meth t := fun t ht => unread_invoked ⟨s, ht⟩
    cases meth with
    | initializeJournal _ _ _ _ _ => exact (does_initializeJournal.weaken hunread fun _ _ ho => ho).map fun _ _ ho => ho
    | begin _ => exact (does_begin.weaken hunread fun _ _ ho => ho).map fun _ _ ho => ho
    | requestReset _ => exact (does_requestReset.weaken hunread fun _ _ ho => ho).map fun _ _ ho => ho
    | finishStartup => exact (does_finishStartup.weaken hunread fun _ _ ho => ho).map fun _ _ ho => ho
    | check _ _ _ => exact (does_check.weaken hunread fun _ _ ho => ho).map fun _ _ ho => ho
    | transition _ _ _ => exact (does_transition.weaken hunread fun _ _ ho => ho).map fun _ _ ho => ho
    | complete _ _ _ => exact (does_complete.weaken hunread fun _ _ ho => ho).map fun _ _ ho => ho
    | review _ _ _ _ _ => exact (does_review.weaken hunread fun _ _ ho => ho).map fun _ _ ho => ho
    | reserve _ => exact (does_reserve.weaken hunread fun _ _ ho => ho).map fun _ _ ho => ho
    | release _ => exact (does_release.weaken hunread fun _ _ ho => ho).map fun _ _ ho => ho
    | prepareClear _ => exact (does_prepareClear.weaken hunread fun _ _ ho => ho).map fun _ _ ho => ho
    | bootstrap _ _ => exact (does_bootstrap.weaken hunread fun _ _ ho => ho).map fun _ _ ho => ho
    | acknowledge _ _ => exact (does_acknowledge.weaken hunread fun _ _ ho => ho).map fun _ _ ho => ho
    | recoverMaintenance _ => exact (does_recoverMaintenance.weaken hunread fun _ _ ho => ho).map fun _ _ ho => ho
    | route control =>
      have hwrite : (journalLaw h).Outside j₀ (loop h sha256) i (fun t => t = [⟨i, .invoke (.route control), s⟩])
          (Prog.write fun s => { s with control := control }) fun _ t => Owes h t .none :=
        Law.outside_write (fun s => ⟨rfl, rfl⟩) fun t ht => owes_free (hunread t ht).runs rfl
      exact hwrite.map fun _ _ ho => ho
  crash := by
    intro s s' hs
    cases hs
    rfl

end Loop

end Arhugula
