import Arhugula.Proof.ContinuationState

/-!
# The continuation keeps its invariant

Each stage of a ticket has its rule here, and so has a run and a resolution: both keep the invariant, from any world
that has it, and whatever the callbacks do (`kept`).
-/

namespace Arhugula

namespace Continuation

open Strings Lit Backlog Reentrant

variable {e : Env} {w w' : CWorld} {x : Settings} {T T' : List Mark} {s s' : Standing} {i : ℕ} {op : Op} {a : Answer}
  {α β : Type} {t : Text} {r : Record} {D : State → Prop} {began : ℚ} {prior : Option Record} {pending : Text}

/-! ## The stages of a ticket -/

/-- **The rule of a revalidation**: the claim is held, or the run stops. -/
theorem revalidate_holds {original : Issue} {above : List Issue} {assignment : Route} {Q : Except Exc Unit → CWorld → Prop}
    (h : At w x T s) (hok : ∀ w', At w' x (.claimed original.id :: T) s → w'.st = w.st → Q (.ok ()) w')
    (herr : ∀ x' w', At w' x T s → w'.st = w.st → Q (.error x') w') :
    Holds (contract e) [] i (revalidate e original above assignment) Q w := by
  unfold revalidate
  refine (keeps_select (D := fun st => st = w.st)).seq ⟨h, rfl⟩ (fun selected w₁ h₁ _ => ?_)
    fun x' w₁ h₁ => herr x' w₁ h₁.1 h₁.2
  obtain ⟨hat, hst⟩ := h₁
  cases selected with
  | none => exact herr _ w₁ hat hst
  | some selected =>
    obtain ⟨current, above'⟩ := selected
    dsimp only
    split
    · exact herr _ w₁ hat hst
    · split
      · exact herr _ w₁ hat hst
      · split
        · exact herr _ w₁ hat hst
        · split
          · exact herr _ w₁ hat hst
          · have hcall : At (w₁.push i (.call (.assertClaim original.id))) x T s :=
              hat.call (safe_call (by simp) (by simp) (by simp) (by simp)) hat.standing hat.backed
            refine holds_bind.2 (holds_ask_op hcall.inv (fun x' => ?_) fun a ha => ?_)
            · exact herr x' _ (hcall.answer _ (by simp)) hst
            · have hreply := hcall.answer (.assertClaim original.id) (i := i) (a := a) (by simp)
              have hmark : mark (.assertClaim original.id) a = some (.claimed original.id) := by
                cases a <;> first | rfl | cases ha
              rw [hmark] at hreply
              exact hok _ hreply hst

theorem keeps_choose : Keeps (contract e) [] i (Known x T s fun _ => True) (choose e x prior began pending)
    fun _ => True := by
  have hamend : ∀ {f : Record → Record}, Keeps (contract e) [] i (Known x T s fun _ => True) (amend f) fun _ => True :=
    keeps_amend fun _ _ => trivial
  unfold choose
  refine keeps_askTime.bind fun now _ => Keeps.ite (fun _ => keeps_throw) fun _ => ?_
  refine keeps_select.bind fun selected _ => ?_
  cases selected with
  | none => exact keeps_throw
  | some selected =>
    obtain ⟨issue, above⟩ := selected
    refine hamend.bind fun _ _ => ?_
    dsimp only
    cases (route e.glyphs issue above).stopReason with
    | some reason => exact keeps_throw
    | none =>
      refine hamend.bind fun _ _ => keeps_askCheckout.bind fun state _ => ?_
      refine Keeps.ite (fun _ => keeps_throw) fun _ => hamend.bind fun _ _ => keeps_pure trivial

/-- **The claim**: the intent is on disk before it. -/
theorem claim_holds {c : Chosen} {Q : Except Exc Context → CWorld → Prop} (h : At w x T .clear)
    (hok : ∀ context w', At w' x (.claimed c.issue.id :: .started c.issue.id :: T) ⟨true, false⟩ →
      w'.st.record.stopReason = some interrupted → Q (.ok context) w')
    (herr : ∀ x' w', Stopping x w' → Q (.error x') w') : Holds (contract e) [] i (claim e x c) Q w := by
  unfold claim
  rw [holds_bind, holds_amend]
  dsimp only
  rw [holds_bind]
  refine persist_clear (h.put _ rfl) (fun w₁ h₁ hst₁ => ?_) herr
  have hdisk : ∃ r, w₁.st.disk = some r ∧ r.stopReason = some interrupted := ⟨_, by rw [hst₁], rfl⟩
  have hstop : w₁.st.record.stopReason = some interrupted := by rw [hst₁]; rfl
  have hbacked : Backed ⟨true, false⟩ w₁.st.disk := ⟨fun _ => hdisk, fun hu => by cases hu⟩
  have hcall : At (w₁.push i (.call (.start c.issue.id))) x T ⟨true, false⟩ := by
    refine h₁.call (safe_call (by simp) (by simp) (fun _ _ => h₁.standing) (by simp)) ?_ hbacked
    · show ({ standing w₁.log with underway := true } : Standing) = _
      rw [h₁.standing]
      rfl
  unfold perform
  refine holds_bind.2 (holds_bind.2 (holds_ask_op hcall.inv (fun x' => ?_) fun a ha => ?_))
  · exact herr x' _ ((hcall.answer _ (by simp)).stopping rfl)
  · have hreply := hcall.answer (.start c.issue.id) (i := i) (a := a) (by simp)
    have hmark : mark (.start c.issue.id) a = some (.started c.issue.id) := by
      cases a <;> first | rfl | cases ha
    rw [hmark] at hreply
    rw [holds_pure, holds_bind, holds_read]
    let K : State → Prop := fun st => st.record.stopReason = some interrupted
    refine (keeps_askText (D := K) (.show _) trivial).seq ⟨hreply, hstop⟩ (fun epic w₂ h₂ _ => ?_)
      fun x' w₂ h₂ => herr x' w₂ (h₂.1.stopping rfl)
    refine (keeps_askText (D := K) (.show _) trivial).seq h₂ (fun body w₃ h₃ _ => ?_) fun x' w₃ h₃ => herr x' w₃ (h₃.1.stopping rfl)
    refine (keeps_askCheckout (D := K)).seq h₃ (fun _ w₄ h₄ _ => ?_) fun x' w₄ h₄ => herr x' w₄ (h₄.1.stopping rfl)
    refine holds_bind.2 (revalidate_holds h₄.1 (fun w₅ h₅ hst₅ => ?_) fun x' w₅ h₅ _ => herr x' w₅ (h₅.stopping rfl))
    dsimp only
    split
    · exact hok _ w₅ h₅ (by rw [hst₅]; exact h₄.2)
    · exact herr _ w₅ (h₅.stopping rfl)

/-- **The worker.** -/
theorem implement_holds {context : Context} {Q : Except Exc Receipt → CWorld → Prop} (h : At w x T ⟨true, false⟩)
    (hstop : w.st.record.stopReason = some interrupted)
    (hok : ∀ receipt w', At w' x (.worked :: T) ⟨true, false⟩ → w'.st.record.stopReason = some interrupted →
      Q (.ok receipt) w')
    (herr : ∀ x' w', Stopping x w' → Q (.error x') w') : Holds (contract e) [] i (implement context) Q w := by
  unfold implement
  rw [holds_bind, holds_amend]
  dsimp only
  have hat := h.put { w.st with record := { w.st.record with recoveryRequired := true } } rfl
  have hcall : At ((w.put { w.st with record := { w.st.record with recoveryRequired := true } }).push i
      (.call (.worker context))) x T ⟨true, false⟩ := by
    refine hat.call (safe_call (by simp) (by simp) (by simp) fun _ _ => ?_) hat.standing hat.backed
    rw [hat.standing]
  refine holds_bind.2 (holds_ask_op hcall.inv (fun x' => ?_) fun a ha => ?_)
  · exact herr x' _ ((hcall.answer _ (by simp)).stopping rfl)
  · have hreply := hcall.answer (.worker context) (i := i) (a := a) (by simp)
    cases a with
    | receipt j =>
      dsimp only
      let K : State → Prop := fun st => st.record.stopReason = some interrupted
      have hamend : ∀ {f : Record → Record}, (∀ r, (f r).stopReason = r.stopReason) →
          Keeps (contract e) [] i (Known x (.worked :: T) ⟨true, false⟩ K) (amend f) fun _ => True :=
        fun hf => keeps_amend fun st hst => (hf st.record).trans hst
      have hnoted : Keeps (contract e) [] i (Known x (.worked :: T) ⟨true, false⟩ K) (noteStop j) fun _ => True :=
        Keeps.ite (fun _ => hamend fun _ => rfl) fun _ => keeps_pure trivial
      have hreceived : Keeps (contract e) [] i (Known x (.worked :: T) ⟨true, false⟩ K) (received j) fun _ => True := by
        unfold received
        cases receiptFiles j with
        | error e => exact keeps_throw
        | ok receipt => exact Keeps.bind (P := fun _ => True) (hamend fun _ => rfl) fun _ _ => keeps_pure trivial
      have hbody : Keeps (contract e) [] i (Known x (.worked :: T) ⟨true, false⟩ K) (noteStop j >>= fun _ => received j)
          fun _ => True :=
        hnoted.bind fun _ _ => hreceived
      exact hbody.holds ⟨hreply, hstop⟩ (fun receipt w₁ h₁ _ => hok receipt w₁ h₁.1 h₁.2)
        fun x' w₁ h₁ => herr x' w₁ (h₁.1.stopping rfl)
    | raised _ => cases ha
    | _ => exact herr _ _ (hreply.stopping rfl)

/-- **The verification**: it passed, or the run stops. -/
theorem verify_holds {ticket : Text} {Q : Except Exc Text → CWorld → Prop} (n : ℕ) (h : At w x T ⟨true, false⟩)
    (hstop : w.st.record.stopReason = some interrupted)
    (hok : ∀ line w', At w' x (.passed :: T) ⟨true, false⟩ → w'.st.record.stopReason = some interrupted →
      Q (.ok line) w')
    (herr : ∀ x' w', Stopping x w' → Q (.error x') w') : Holds (contract e) [] i (verify ticket n) Q w := by
  induction n generalizing w with
  | zero => exact herr _ w (h.stopping rfl)
  | succ n ih =>
    unfold verify
    have hcall : At (w.push i (.call .verify)) x T ⟨true, false⟩ :=
      h.call (safe_call (by simp) (by simp) (by simp) (by simp)) h.standing h.backed
    refine holds_bind.2 (holds_ask_op hcall.inv (fun x' => ?_) fun a ha => ?_)
    · exact herr x' _ ((hcall.answer _ (by simp)).stopping rfl)
    · have hreply := hcall.answer .verify (i := i) (a := a) (by simp)
      cases a with
      | verdict passed evidence =>
        dsimp only
        rw [holds_bind]
        cases passed with
        | true => exact hok _ _ (hreply.put _ rfl) hstop
        | false => exact ih (hreply.put _ rfl) hstop
      | raised _ => cases ha
      | _ => exact herr _ _ (hreply.stopping rfl)

/-- **Between the worker and the commit.** -/
theorem check_holds {c : Chosen} {receipt : Receipt} {Q : Except Exc Unit → CWorld → Prop} (h : At w x T ⟨true, false⟩)
    (hstop : w.st.record.stopReason = some interrupted)
    (hok : ∀ w', At w' x (.claimed c.issue.id :: .passed :: .claimed c.issue.id :: T) ⟨true, false⟩ →
      w'.st.record.stopReason = some interrupted → Q (.ok ()) w')
    (herr : ∀ x' w', Stopping x w' → Q (.error x') w') : Holds (contract e) [] i (check e c receipt) Q w := by
  let K : State → Prop := fun st => st.record.stopReason = some interrupted
  unfold check
  refine (keeps_askCheckout (D := K)).seq ⟨h, hstop⟩ (fun _ w₁ h₁ _ => ?_) fun x' w₁ h₁ => herr x' w₁ (h₁.1.stopping rfl)
  refine holds_bind.2 (revalidate_holds h₁.1 (fun w₂ h₂ hst₂ => ?_) fun x' w₂ h₂ _ => herr x' w₂ (h₂.stopping rfl))
  have hstop₂ : w₂.st.record.stopReason = some interrupted := by rw [hst₂]; exact h₁.2
  refine holds_bind.2 (verify_holds 2 h₂ hstop₂ (fun line w₃ h₃ hstop₃ => ?_) herr)
  dsimp only
  refine (keeps_askCheckout (D := K)).seq ⟨h₃, hstop₃⟩ (fun _ w₄ h₄ _ => ?_)
    fun x' w₄ h₄ => herr x' w₄ (h₄.1.stopping rfl)
  refine holds_bind.2 (revalidate_holds h₄.1 (fun w₅ h₅ hst₅ => ?_) fun x' w₅ h₅ _ => herr x' w₅ (h₅.stopping rfl))
  have hstop₅ : w₅.st.record.stopReason = some interrupted := by rw [hst₅]; exact h₄.2
  exact (keeps_perform (D := K) (.comment _ _) trivial).holds ⟨h₅, hstop₅⟩ (fun _ w₆ h₆ _ => hok w₆ h₆.1 h₆.2)
    fun x' w₆ h₆ => herr x' w₆ (h₆.1.stopping rfl)

/-- **The commit, and the end of the ticket.** What is committed is left, until the ticket is closed. -/
theorem publish_holds {c : Chosen} {receipt : Receipt} {T : List Mark} {Q : Except Exc Text → CWorld → Prop}
    (h : At w x (ready c.issue.id ++ T) ⟨true, false⟩) (hstop : w.st.record.stopReason = some interrupted)
    (hlimit : (T.filter Mark.isDone).length < x.limit)
    (hok : ∀ next w' commit, At w' x (.done c.issue.id :: (published c.issue.id commit ++ T)) .clear → Q (.ok next) w')
    (herr : ∀ x' w', Stopping x w' → Q (.error x') w') : Holds (contract e) [] i (publish e c receipt) Q w := by
  unfold publish
  rw [holds_bind, holds_amend]
  dsimp only
  rw [holds_bind]
  refine persist_interrupted (h.put _ rfl) hstop (fun hu => by cases hu) (fun w₁ h₁ hst₁ => ?_)
    fun x' w₁ s' h₁ hs' _ => herr x' w₁ (h₁.stopping hs')
  -- the handoff says that the commit is under way
  have hflag : ∀ r : Record, r.recoveryRequired = true → isFlagged r = true := by
    intro r hr
    unfold isFlagged
    rw [hr]
    rfl
  have hbacked : Backed ⟨true, true⟩ w₁.st.disk := by
    rw [hst₁]
    exact ⟨fun _ => ⟨_, rfl, hstop⟩, fun _ => ⟨_, rfl, isBarred_of_flagged (hflag _ rfl)⟩⟩
  have hrecord : w₁.st.record.recoveryRequired = true ∧ w₁.st.record.stopReason = some interrupted := by
    rw [hst₁]
    exact ⟨rfl, hstop⟩
  have hcall : At (w₁.push i (.call (.commit c.issue.id receipt.files))) x (ready c.issue.id ++ T) ⟨true, true⟩ := by
    refine h₁.call ⟨fun t ho => (by cases ho), fun _ ho => (by cases ho), fun t files ho => ?_, fun t ho => (by cases ho)⟩ ?_
      hbacked
    · cases ho
      exact ⟨T, h₁.trail⟩
    · show ({ standing w₁.log with unresolved := true } : Standing) = _
      rw [h₁.standing]
  have hleft : ∀ {w' : CWorld} {T' : List Mark}, At w' x T' ⟨true, true⟩ → w'.st.record.recoveryRequired = true →
      Stopping x w' := fun hat hr => ⟨_, _, hat, fun _ => hflag _ hr⟩
  unfold askText
  refine holds_bind.2 (holds_bind.2 (holds_ask_op hcall.inv (fun x' => ?_) fun a ha => ?_))
  · exact herr x' _ (hleft (hcall.answer _ (by simp)) hrecord.1)
  have hreply := hcall.answer (.commit c.issue.id receipt.files) (i := i) (a := a) (by simp)
  cases a with
  | text commit =>
    dsimp only
    rw [holds_pure]
    dsimp only
    rw [holds_bind, holds_amend]
    dsimp only
    rw [holds_bind]
    let K : State → Prop := fun st => st.record.recoveryRequired = true ∧
      ∃ r, st.disk = some r ∧ line c.issue.id commit receipt.summary ∈ r.completedWork
    refine persist_interrupted (hreply.put _ rfl) hrecord.2 (fun _ => isBarred_of_flagged (hflag _ hrecord.1)) (fun w₂ h₂ hst₂ => ?_)
      fun x' w₂ s' h₂ hs' hr => herr x' w₂ ⟨_, _, h₂, fun _ => hflag _ (by rw [hr]; exact hrecord.1)⟩
    have hK₂ : K w₂.st := by
      rw [hst₂]
      exact ⟨hrecord.1, _, rfl, List.mem_append_right _ (List.mem_singleton.2 rfl)⟩
    refine (keeps_askCheckout (D := K)).seq ⟨h₂, hK₂⟩ (fun _ w₃ h₃ _ => ?_) fun x' w₃ h₃ => herr x' w₃ (hleft h₃.1 h₃.2.1)
    refine holds_bind.2 (revalidate_holds h₃.1 (fun w₄ h₄ hst₄ => ?_)
      fun x' w₄ h₄ hst₄ => herr x' w₄ (hleft h₄ (by rw [hst₄]; exact h₃.2.1)))
    have hK₄ : K w₄.st := by
      rw [hst₄]
      exact h₃.2
    obtain ⟨hrecovery₄, r₄, hdisk₄, hline₄⟩ := hK₄
    have hclose : At (w₄.push i (.call (.done c.issue.id))) x (published c.issue.id commit ++ T) ⟨true, true⟩ := by
      refine h₄.call ⟨fun t ho => (by cases ho), fun _ ho => (by cases ho), fun t files ho => (by cases ho), fun t ho => ?_⟩
        h₄.standing h₄.backed
      cases ho
      exact ⟨commit, T, x, receipt.summary, r₄, h₄.trail, h₄.running, hlimit, hdisk₄, hline₄⟩
    unfold perform
    refine holds_bind.2 (holds_bind.2 (holds_ask_op hclose.inv (fun x' => ?_) fun a ha => ?_))
    · exact herr x' _ (hleft (hclose.reply _ hclose.standing hclose.backed) hrecovery₄)
    have hclear : standing (⟨i, .reply (.done c.issue.id) a, w₄.st⟩ :: (w₄.push i (.call (.done c.issue.id))).log) =
        .clear := by
      show (if a.isRaised then standing (w₄.push i (.call (.done c.issue.id))).log else Standing.clear) = _
      rw [ha]
      rfl
    have hclosed := hclose.reply (.done c.issue.id) (i := i) (a := a) hclear (Backed.clear _)
    have hmark : mark (.done c.issue.id) a = some (.done c.issue.id) := by
      cases a <;> first | rfl | cases ha
    rw [hmark] at hclosed
    rw [holds_pure]
    dsimp only
    rw [holds_bind, holds_amend]
    dsimp only
    rw [holds_bind]
    refine persist_clear (hclosed.put _ rfl) (fun w₅ h₅ _ => ?_) herr
    refine (keeps_perform (D := fun _ => True) (.comment _ _) trivial).seq ⟨h₅, trivial⟩ (fun _ w₆ h₆ _ => ?_)
      fun x' w₆ h₆ => herr x' w₆ (h₆.1.stopping rfl)
    refine (keeps_askText (D := fun _ => True) .next trivial).seq h₆ (fun pending w₇ h₇ _ => ?_)
      fun x' w₇ h₇ => herr x' w₇ (h₇.1.stopping rfl)
    refine (keeps_select (D := fun _ => True)).seq h₇ (fun upcoming w₈ h₈ _ => ?_)
      fun x' w₈ h₈ => herr x' w₈ (h₈.1.stopping rfl)
    rw [holds_bind, holds_amend]
    dsimp only
    rw [holds_bind]
    refine persist_clear (h₈.1.put _ rfl) (fun w₉ h₉ _ => ?_) herr
    exact hok pending w₉ commit h₉
  | raised _ => cases ha
  | _ => exact herr _ _ (hleft hreply hrecord.1)

/-- **A ticket.** -/
theorem ticket_holds {Q : Except Exc Text → CWorld → Prop} (h : At w x T .clear)
    (hlimit : (T.filter Mark.isDone).length < x.limit)
    (hok : ∀ next w' T', At w' x T' .clear → (T'.filter Mark.isDone).length = (T.filter Mark.isDone).length + 1 →
      Q (.ok next) w')
    (herr : ∀ x' w', Stopping x w' → Q (.error x') w') :
    Holds (contract e) [] i (ticket e x prior began pending) Q w := by
  unfold ticket
  refine keeps_choose.seq ⟨h, trivial⟩ (fun c w₁ h₁ _ => ?_) fun x' w₁ h₁ => herr x' w₁ (h₁.1.stopping rfl)
  refine holds_bind.2 (claim_holds h₁.1 (fun context w₂ h₂ hstop₂ => ?_) herr)
  refine holds_bind.2 (implement_holds h₂ hstop₂ (fun receipt w₃ h₃ hstop₃ => ?_) herr)
  refine holds_bind.2 (check_holds h₃ hstop₃ (fun w₄ h₄ hstop₄ => ?_) herr)
  refine publish_holds (T := T) h₄ hstop₄ hlimit (fun next w₅ commit h₅ => hok next w₅ _ h₅ ?_) herr
  show ((Mark.done c.issue.id :: (published c.issue.id commit ++ T)).filter Mark.isDone).length = _
  rw [List.filter_cons_of_pos rfl, List.filter_append]
  rfl

/-- **The tickets of a run**: no more than it may close. -/
theorem tickets_holds {Q : Except Exc Unit → CWorld → Prop} (n : ℕ) (h : At w x T .clear)
    (hlimit : (T.filter Mark.isDone).length + n ≤ x.limit) (herr : ∀ x' w', Stopping x w' → Q (.error x') w') :
    Holds (contract e) [] i (tickets e x prior began n pending) Q w := by
  induction n generalizing w T pending with
  | zero => exact herr _ w (h.stopping rfl)
  | succ n ih =>
    refine holds_bind.2 (ticket_holds h (by omega) (fun next w₁ T₁ h₁ hcount => ?_) herr)
    exact ih h₁ (by omega)

/-! ## A run -/

/-- **What a run does until it stops.** Where a ticket was left, the handoff stops it first. -/
theorem work_holds {Q : Except Exc Unit → CWorld → Prop} (h : At w x [] s) (hs : s.underway = false)
    (hbarred : s.unresolved = true → prior.any isBarred = true) (herr : ∀ x' w', Stopping x w' → Q (.error x') w') :
    Holds (contract e) [] i (work e x prior began) Q w := by
  have hrest : s.unresolved = false → ∀ w : CWorld, At w x [] s →
      Holds (contract e) [] i (askText .next >>= fun pending => tickets e x prior began x.limit pending) Q w := by
    intro hu w h
    have hclear : s = .clear := by
      obtain ⟨u, v⟩ := s
      cases hs
      cases hu
      rfl
    subst hclear
    refine (keeps_askText (D := fun _ => True) .next trivial).seq ⟨h, trivial⟩ (fun pending w₁ h₁ _ => ?_)
      fun x' w₁ h₁ => herr x' w₁ (h₁.1.stopping rfl)
    exact tickets_holds x.limit h₁.1 (by simp) herr
  unfold work
  cases prior with
  | none =>
    refine hrest ?_ w h
    cases hu : s.unresolved with
    | false => rfl
    | true => cases hbarred hu
  | some p =>
    dsimp only
    unfold resume
    have hstopped : ∀ {x' : Exc} {f : Record → Record}, isFlagged (f w.st.record) = true →
        Q (.error x') (w.put { w.st with record := f w.st.record }) :=
      fun hf => herr _ _ ⟨_, _, h.put _ rfl, fun _ => hf⟩
    rw [holds_bind]
    by_cases hrecovery : p.recoveryRequired = true
    · rw [if_pos hrecovery, holds_bind, holds_amend]
      refine hstopped (f := fun r => { r with recoveryRequired := true }) ?_
      unfold isFlagged
      rfl
    · rw [if_neg hrecovery]
      by_cases hworker : p.workerStop = true
      · rw [if_pos hworker, holds_bind, holds_amend]
        refine hstopped (f := fun r => { r with workerStop := true }) ?_
        unfold isFlagged
        simp
      · rw [if_neg hworker]
        by_cases hstop : p.stopReason = some interrupted
        · rw [if_pos hstop, holds_bind, holds_amend]
          refine hstopped (f := fun r => { r with recoveryRequired := true }) ?_
          unfold isFlagged
          rfl
        · rw [if_neg hstop]
          refine hrest ?_ w h
          cases hu : s.unresolved with
          | false => rfl
          | true =>
            have hany := hbarred hu
            unfold isBarred at hany
            simp [hrecovery, hworker, hstop] at hany

/-- What stops a run leaves what it said of what is left. -/
theorem halt_holds {x' : Exc} {Q : Except Exc Unit → CWorld → Prop} (h : Stopping x w)
    (hok : ∀ w', Stopping x w' → Q (.ok ()) w') : Holds (contract e) [] i (halt x') Q w := by
  obtain ⟨T, s, hat, hflag⟩ := h
  cases x' with
  | stop text => exact hok _ ⟨T, s, hat.put _ rfl, hflag⟩
  | error type text => exact hok _ ⟨T, s, hat.put _ rfl, hflag⟩

theorem keeps_report : Keeps (contract e) [] i (Known x T s D) (report e r) fun _ => True := by
  unfold report
  refine Keeps.ite (fun _ => keeps_pure trivial) fun _ => ?_
  exact (keeps_perform (.comment _ _) trivial).catching fun _ => keeps_pure trivial

/-- **A run**, from what was left and the handoff that says so. -/
theorem continueWork_holds (h : At w x [] s) (hs : s.underway = false)
    (hbarred : s.unresolved = true → prior.any isBarred = true) :
    Holds (contract e) [] i (continueWork e x prior) (fun _ w' => ∃ T' s', At w' x T' s') w := by
  unfold continueWork
  by_cases hbounded : (!x.isBounded) = true
  · rw [if_pos hbounded]
    exact ⟨_, _, h⟩
  rw [if_neg hbounded]
  refine (keeps_askTime (D := fun _ => True)).seq ⟨h, trivial⟩ (fun began w₁ h₁ _ => ?_) fun x' w₁ h₁ => ⟨_, _, h₁.1⟩
  cases prior.bind Record.fault with
  | some text => exact ⟨_, _, h₁.1⟩
  | none =>
    -- the record that is written says what is left
    have hrest : ∀ w' : CWorld, Stopping x w' → Holds (contract e) [] i
        (persist >>= fun _ => Prog.read (·.record) >>= fun r => report e r >>= fun _ => pure r)
        (fun _ w' => ∃ T' s', At w' x T' s') w' := by
      rintro w' ⟨T', s', h', hflag⟩
      rw [holds_bind]
      refine persist_holds h' (fun hu => isBarred_of_flagged (hflag hu)) (fun w₂ h₂ _ => ?_) fun x' w₂ s' h₂ _ _ => ⟨_, _, h₂⟩
      rw [holds_bind, holds_read]
      refine (keeps_report (D := fun _ => True)).seq ⟨h₂, trivial⟩ (fun _ w₃ h₃ _ => ⟨_, _, h₃.1⟩)
        fun x' w₃ h₃ => ⟨_, _, h₃.1⟩
    dsimp only
    rw [holds_bind, holds_write]
    dsimp only
    rw [holds_bind, holds_catching]
    refine work_holds (h₁.1.put _ rfl) hs hbarred fun x' w₂ h₂ => ?_
    exact halt_holds h₂ hrest

/-! ## The methods -/

/-- What is logged when a call ends. -/
theorem At.returns {v : Except Exc Record} (h : At w x T s) : Inv (w.push i (.ret v)) :=
  ⟨⟨safe_other fun op ho => (by cases ho), h.safe⟩, h.standing.symm ▸ h.backed⟩

/-- **A run, under its lease.** -/
theorem run_holds (hinv : Inv w) (x : Settings) :
    Holds (contract e) [] i (body e (.run x)) (fun v w' => Inv (w'.push i (.ret v))) (w.enter (.run x)) := by
  have hat : At (w.enter (.run x)) x [] (standing w.log).left :=
    ⟨⟨safe_other fun op ho => (by cases ho), hinv.safe⟩, rfl, rfl, rfl, hinv.backed.left⟩
  unfold body
  rw [holds_bind, holds_read, World.enter_st]
  dsimp only
  cases w.st.disk.bind Record.fault with
  | some text => exact hat.returns (v := .error _)
  | none =>
    dsimp only
    by_cases hstop : (w.st.disk.any fun p => p.stopReason = some interrupted) = true
    · rw [if_pos hstop]
      exact hat.returns (v := .error _)
    · rw [if_neg hstop]
      refine (continueWork_holds hat rfl fun hu => ?_).mono fun v w' ⟨T', s', h'⟩ => h'.returns
      obtain ⟨r, hr, hbarred⟩ := hat.backed.unresolved hu
      rw [World.enter_st] at hr
      rw [hr]
      exact hbarred

/-- What a resolution knows: it is no run. -/
structure Resolving (w : CWorld) : Prop where
  inv : Inv w
  running : running w.log = none

theorem Resolving.quiet (h : Resolving w) (hq : Quiet op) :
    Resolving (w.push i (.call op)) ∧ ∀ a, Resolving (w.answered i op a) := by
  have hcall : Resolving (w.push i (.call op)) :=
    ⟨⟨⟨hq.safe w.log w.st, h.inv.safe⟩, (hq.standing w.log w.st).symm ▸ h.inv.backed⟩, h.running⟩
  refine ⟨hcall, fun a => ⟨⟨⟨safe_other fun op ho => (by cases ho), hcall.inv.safe⟩, ?_⟩, hcall.running⟩⟩
  exact (standing_reply (i := i) (a := a) hq.no_done).symm ▸ hcall.inv.backed

/-- **The directory is synced**: nothing is left. -/
theorem Resolving.sync (h : Resolving w) (r : Option Record) :
    Resolving ((w.put { w.st with disk := r }).push i (.call .sync)) ∧
      ∀ a, Resolving ((w.put { w.st with disk := r }).answered i .sync a) := by
  have hstanding : standing ((w.put { w.st with disk := r }).push i (.call .sync)).log = .clear := by
    show (if Continuation.running w.log = none then Standing.clear else (standing w.log).wrote r) = _
    rw [if_pos h.running]
  have hcall : Resolving ((w.put { w.st with disk := r }).push i (.call .sync)) :=
    ⟨⟨⟨safe_call (by simp) (by simp) (by simp) (by simp), h.inv.safe⟩, hstanding.symm ▸ .clear _⟩, h.running⟩
  refine ⟨hcall, fun a => ⟨⟨⟨safe_other fun op ho => (by cases ho), hcall.inv.safe⟩, hcall.inv.backed⟩, hcall.running⟩⟩

/-- **A resolution, under the lease**: nothing is left when the handoff is on disk. -/
theorem resolve_holds (hinv : Inv w) (evidence now : Text) :
    Holds (contract e) [] i (body e (.resolve evidence now)) (fun v w' => Inv (w'.push i (.ret v)))
      (w.enter (.resolve evidence now)) := by
  have hreturns : ∀ {v : Except Exc Record} {w' : CWorld}, Resolving w' → Inv (w'.push i (.ret v)) :=
    fun h => ⟨⟨safe_other fun op ho => (by cases ho), h.inv.safe⟩, h.inv.backed⟩
  have hentered : Resolving (w.enter (.resolve evidence now)) :=
    ⟨⟨⟨safe_other fun op ho => (by cases ho), hinv.safe⟩, hinv.backed.left⟩, rfl⟩
  unfold body
  rw [holds_bind, holds_read, World.enter_st]
  dsimp only
  cases w.st.disk with
  | none => exact hreturns hentered (v := .error _)
  | some r =>
    dsimp only
    cases resolveStop r evidence now with
    | error x' => exact hreturns hentered (v := .error _)
    | ok resolved =>
      dsimp only
      unfold writeHandoff
      cases resolved.fault with
      | some text => exact hreturns hentered (v := .error _)
      | none =>
        dsimp only
        have hreplace : Quiet (.replace resolved) := trivial
        unfold perform
        rw [holds_bind, holds_bind, holds_bind]
        refine holds_ask_op (hentered.quiet hreplace).1.inv (fun x' => ?_) fun a _ => ?_
        · exact hreturns ((hentered.quiet hreplace).2 _)
        · have hreplaced := (hentered.quiet (i := i) hreplace).2 a
          rw [holds_pure]
          dsimp only
          rw [holds_bind, holds_write]
          dsimp only
          rw [holds_bind]
          refine holds_ask_op (hreplaced.sync _).1.inv (fun x' => ?_) fun a' _ => ?_
          · exact hreturns ((hreplaced.sync _).2 _)
          · exact hreturns ((hreplaced.sync _).2 a')

/-- **Both methods keep the invariant**, and a process that is killed does. -/
theorem kept (e : Env) : (contract e).Kept := by
  refine Contract.alone_kept (fun w ctx meth h => List.isEmpty_iff.1 h) (fun meth w _ hinv => ?_) fun w st hinv hst => ?_
  · cases meth with
    | run x => exact run_holds hinv x
    | resolve evidence now => exact resolve_holds hinv evidence now
  · cases hst
    exact ⟨⟨safe_other fun op ho => (by cases ho), hinv.safe⟩, hinv.backed⟩

/-- In every configuration that is reached, what is owed was paid. -/
theorem safe_throughout {st : State} {c : Config State Op Answer Exc Method Record} (h : (machine e).Reachable st c) :
    Throughout Safe c.w.log :=
  (Contract.sound (K := contract e) (kept e) ⟨trivial, .clear _⟩ h).safe

end Continuation

end Arhugula
