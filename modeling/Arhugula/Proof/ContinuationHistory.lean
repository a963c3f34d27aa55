import Arhugula.Proof.ContinuationLog

/-!
# Handoffs lose nothing

A handoff that takes the place of another extends it: what was completed and verified, the risks and the resolutions of
the older one begin those of the newer one (`handoff_grows`). What is written is valid, so that the next run can read it.
-/

namespace Arhugula

namespace Continuation

namespace History

open Strings Lit Backlog Reentrant

/-- **A handoff extends another.** -/
structure Extends (r r' : Record) : Prop where
  completed : r.completedWork <+: r'.completedWork
  verified : r.verification <+: r'.verification
  risks : r.risks <+: r'.risks
  resolutions : r.resolutions.getD [] <+: r'.resolutions.getD []

theorem Extends.refl (r : Record) : Extends r r :=
  ⟨List.prefix_rfl, List.prefix_rfl, List.prefix_rfl, List.prefix_rfl⟩

theorem Extends.trans {a b c : Record} (h : Extends a b) (h' : Extends b c) : Extends a c :=
  ⟨h.completed.trans h'.completed, h.verified.trans h'.verified, h.risks.trans h'.risks,
    h.resolutions.trans h'.resolutions⟩

/-- What is on disk extends what was. -/
def Grown (d d' : Option Record) : Prop := ∀ r, d = some r → ∃ r', d' = some r' ∧ Extends r r'

theorem Grown.refl (d : Option Record) : Grown d d := fun r hr => ⟨r, hr, .refl r⟩

theorem Grown.trans {a b c : Option Record} (h : Grown a b) (h' : Grown b c) : Grown a c := by
  intro r hr
  obtain ⟨r₁, hr₁, hext₁⟩ := h r hr
  obtain ⟨r₂, hr₂, hext₂⟩ := h' r₁ hr₁
  exact ⟨r₂, hr₂, hext₁.trans hext₂⟩

/-- What is on disk is valid. -/
def Valid (d : Option Record) : Prop := ∀ r, d = some r → r.fault = none

/-- An entry sees a valid handoff, which extends those that were seen before. -/
def Seen (z : CEntry) (older : List CEntry) : Prop := Valid z.st.disk ∧ ∀ y ∈ older, Grown y.st.disk z.st.disk

/-- The invariant. -/
structure Inv (w : CWorld) : Prop where
  seen : Throughout Seen w.log
  grown : ∀ y ∈ w.log, Grown y.st.disk w.st.disk
  valid : Valid w.st.disk

variable {e : Env} {w w' : CWorld} {x : Settings} {i : ℕ} {op : Op} {α : Type} {D : State → Prop} {began : ℚ}
  {prior : Option Record} {pending : Text} {act : Act Op Answer Exc Method Record}

/-- The contract. -/
def contract (e : Env) : Contract (machine e) := .alone (machine e) Inv

theorem Inv.push (h : Inv w) (i : ℕ) (act : Act Op Answer Exc Method Record) : Inv (w.push i act) := by
  refine ⟨⟨⟨h.valid, h.grown⟩, h.seen⟩, fun y hy => ?_, h.valid⟩
  rcases List.mem_cons.1 hy with rfl | hy
  · exact .refl _
  · exact h.grown y hy

/-- A valid handoff takes the place of one that it extends. -/
theorem Inv.replaced (h : Inv w) {r : Record} {record : Record} (hvalid : r.fault = none)
    (hext : Grown w.st.disk (some r)) : Inv (w.put ⟨some r, record⟩) :=
  ⟨h.seen, fun y hy => (h.grown y hy).trans hext, fun _ hr' => Option.some.inj hr' ▸ hvalid⟩

/-! ## Callbacks -/

/-- The invariant, and what is known of the state. -/
def Logged (D : State → Prop) (w : CWorld) : Prop := Inv w ∧ D w.st

theorem Logged.push (h : Logged D w) (i : ℕ) (act : Act Op Answer Exc Method Record) : Logged D (w.push i act) :=
  ⟨h.1.push i act, h.2⟩

theorem keeps_callback (op : Op) : Keeps (contract e) [] i (Logged D) (ask op) fun _ => True := by
  unfold ask
  refine (keeps_ask ?_).bind fun a _ => ?_
  · intro w h
    refine ⟨(h.push i _).1, fun w' _ _ hrel a _ => ?_⟩
    rw [hrel (List.cons_ne_nil _ _)]
    exact (h.push i _).push i _
  · cases a <;> first | exact keeps_throw | exact keeps_pure trivial

theorem keeps_perform (op : Op) : Keeps (contract e) [] i (Logged D) (perform op) fun _ => True :=
  (keeps_callback op).bind fun _ _ => keeps_pure trivial

theorem keeps_askText (op : Op) : Keeps (contract e) [] i (Logged D) (askText op) fun _ => True := by
  refine (keeps_callback op).bind fun a _ => ?_
  cases a <;> first | exact keeps_pure trivial | exact keeps_throw

theorem keeps_askTime : Keeps (contract e) [] i (Logged D) askTime fun _ => True := by
  refine (keeps_callback .clock).bind fun a _ => ?_
  cases a <;> first | exact keeps_pure trivial | exact keeps_throw

theorem keeps_askCheckout {head : Option Text} {allowed : List Text} :
    Keeps (contract e) [] i (Logged D) (askCheckout head allowed) fun _ => True := by
  refine (keeps_callback (.inspect head allowed)).bind fun a _ => ?_
  cases a <;> first | exact keeps_pure trivial | exact keeps_throw

theorem keeps_select {output : Text} : Keeps (contract e) [] i (Logged D) (select output) fun _ => True := by
  unfold select askExport
  refine Keeps.bind (P := fun _ => True) ?_ fun v _ => ?_
  · refine (keeps_callback .export).bind fun a _ => ?_
    cases a <;> first | exact keeps_pure trivial | exact keeps_throw
  · obtain ⟨version, data⟩ := v
    dsimp only
    cases selectTicket version data output with
    | ok selected => exact keeps_pure trivial
    | error e => exact keeps_throw

theorem keeps_revalidate {original : Issue} {above : List Issue} {assignment : Route} :
    Keeps (contract e) [] i (Logged D) (revalidate e original above assignment) fun _ => True := by
  unfold revalidate
  refine keeps_select.bind fun selected _ => ?_
  cases selected with
  | none => exact keeps_throw
  | some selected =>
    obtain ⟨current, above'⟩ := selected
    dsimp only
    refine Keeps.ite (fun _ => keeps_throw) fun _ => ?_
    cases (route e.glyphs current above').stopReason with
    | some reason => exact keeps_throw
    | none => exact Keeps.ite (fun _ => keeps_throw) fun _ => Keeps.ite (fun _ => keeps_throw) fun _ => keeps_perform _

/-! ## A run

The record that a run is about extends the handoff on disk. -/

/-- The record extends what is on disk. -/
def Ahead (st : State) : Prop := Grown st.disk (some st.record)

theorem keeps_amend {f : Record → Record} (hf : ∀ r, Extends r (f r)) :
    Keeps (contract e) [] i (Logged Ahead) (amend f) fun _ => True := by
  refine keeps_write fun w h => ⟨⟨h.1.seen, h.1.grown, h.1.valid⟩, h.2.trans fun r hr => ?_⟩
  cases hr
  exact ⟨_, rfl, hf _⟩

/-- What a run knows of more than the lists is nothing. -/
theorem Extends.of_lists {r r' : Record} (hc : r'.completedWork = r.completedWork) (hv : r'.verification = r.verification)
    (hr : r'.risks = r.risks) (hs : r'.resolutions = r.resolutions) : Extends r r' := by
  constructor
  · rw [hc]
  · rw [hv]
  · rw [hr]
  · rw [hs]

/-- **The handoff is written.** -/
theorem keeps_persist : Keeps (contract e) [] i (Logged Ahead) persist fun _ => True := by
  intro w h
  unfold persist writeHandoff
  rw [holds_bind, holds_read]
  dsimp only
  cases hf : w.st.record.fault with
  | some text => exact ⟨h, fun _ hv => by cases hv⟩
  | none =>
    refine (keeps_perform (D := fun st => st = w.st) (.replace w.st.record)).seq ⟨h.1, rfl⟩ (fun _ w₁ h₁ _ => ?_)
      fun x' w₁ h₁ => ⟨⟨h₁.1, h₁.2 ▸ h.2⟩, fun _ hv => by cases hv⟩
    obtain ⟨hinv, hst⟩ := h₁
    rw [holds_bind, holds_write]
    refine (keeps_perform (D := Ahead) .sync) _ ⟨hinv.replaced hf ?_, ?_⟩
    · rw [hst]
      exact h.2
    · show Grown (some w.st.record) (some w₁.st.record)
      rw [hst]
      exact .refl _

theorem keeps_choose {x : Settings} :
    Keeps (contract e) [] i (Logged Ahead) (choose e x prior began pending) fun _ => True := by
  unfold choose
  refine keeps_askTime.bind fun now _ => Keeps.ite (fun _ => keeps_throw) fun _ => ?_
  refine keeps_select.bind fun selected _ => ?_
  cases selected with
  | none => exact keeps_throw
  | some selected =>
    obtain ⟨issue, above⟩ := selected
    refine Keeps.bind (P := fun _ => True) (keeps_amend fun r => .of_lists rfl rfl rfl rfl) fun _ _ => ?_
    dsimp only
    cases (route e.glyphs issue above).stopReason with
    | some reason => exact keeps_throw
    | none =>
      refine Keeps.bind (P := fun _ => True) (keeps_amend fun r => .of_lists rfl rfl rfl rfl) fun _ _ => keeps_askCheckout.bind fun state _ => ?_
      refine Keeps.ite (fun _ => keeps_throw) fun _ => ?_
      exact Keeps.bind (P := fun _ => True) (keeps_amend fun r => .of_lists rfl rfl rfl rfl) fun _ _ => keeps_pure trivial

theorem keeps_claim {c : Chosen} : Keeps (contract e) [] i (Logged Ahead) (claim e x c) fun _ => True := by
  unfold claim
  refine Keeps.bind (P := fun _ => True) (keeps_amend fun r => .of_lists rfl rfl rfl rfl) fun _ _ => keeps_persist.bind fun _ _ => ?_
  refine (keeps_perform _).bind fun _ _ => (keeps_read (P := fun _ => True) fun _ _ => trivial).bind fun r _ => ?_
  refine (keeps_askText _).bind fun epic _ => (keeps_askText _).bind fun body _ => ?_
  refine keeps_askCheckout.bind fun _ _ => keeps_revalidate.bind fun _ _ => ?_
  cases boundedContext e ⟨{ r with stopReason := none }, body, epic, none, none⟩ x.contextBytes with
  | ok context => exact keeps_pure trivial
  | error e => exact keeps_throw

/-- Risks are added only. -/
theorem Extends.with_risks (r : Record) (risks : List Text) {r' : Record} (hc : r'.completedWork = r.completedWork)
    (hv : r'.verification = r.verification) (hr : r'.risks = r.risks ++ risks) (hs : r'.resolutions = r.resolutions) :
    Extends r r' := by
  constructor
  · rw [hc]
  · rw [hv]
  · rw [hr]
    exact List.prefix_append _ _
  · rw [hs]

theorem keeps_implement {context : Context} :
    Keeps (contract e) [] i (Logged Ahead) (implement context) fun _ => True := by
  unfold implement
  refine Keeps.bind (P := fun _ => True) (keeps_amend fun r => .of_lists rfl rfl rfl rfl) fun _ _ => (keeps_callback _).bind fun a _ => ?_
  cases a with
  | receipt j =>
    refine Keeps.bind (P := fun _ => True) ?_ fun _ _ => ?_
    · exact Keeps.ite (fun _ => keeps_amend fun r => .with_risks r _ rfl rfl rfl rfl) fun _ => keeps_pure trivial
    · unfold received
      cases receiptFiles j with
      | error e => exact keeps_throw
      | ok receipt => exact Keeps.bind (P := fun _ => True) (keeps_amend fun r => .with_risks r _ rfl rfl rfl rfl) fun _ _ => keeps_pure trivial
  | _ => exact keeps_throw

theorem keeps_verify {ticket : Text} (n : ℕ) : Keeps (contract e) [] i (Logged Ahead) (verify ticket n) fun _ => True := by
  induction n with
  | zero => exact keeps_throw
  | succ n ih =>
    unfold verify
    refine (keeps_callback .verify).bind fun a _ => ?_
    cases a with
    | verdict passed evidence =>
      refine Keeps.bind (P := fun _ => True) (keeps_amend fun r => ⟨List.prefix_rfl, List.prefix_append _ _, List.prefix_rfl, List.prefix_rfl⟩)
        fun _ _ => ?_
      cases passed with
      | true => exact keeps_pure trivial
      | false => exact ih
    | _ => exact keeps_throw

theorem keeps_check {c : Chosen} {receipt : Receipt} :
    Keeps (contract e) [] i (Logged Ahead) (check e c receipt) fun _ => True := by
  unfold check
  refine keeps_askCheckout.bind fun _ _ => keeps_revalidate.bind fun _ _ => (keeps_verify 2).bind fun line _ => ?_
  exact keeps_askCheckout.bind fun _ _ => keeps_revalidate.bind fun _ _ => keeps_perform _

theorem keeps_publish {c : Chosen} {receipt : Receipt} :
    Keeps (contract e) [] i (Logged Ahead) (publish e c receipt) fun _ => True := by
  unfold publish
  refine Keeps.bind (P := fun _ => True) (keeps_amend fun r => .of_lists rfl rfl rfl rfl) fun _ _ => keeps_persist.bind fun _ _ => ?_
  refine (keeps_askText _).bind fun commit _ => ?_
  refine Keeps.bind (P := fun _ => True) (keeps_amend fun r => ⟨List.prefix_append _ _, List.prefix_rfl, List.prefix_rfl, List.prefix_rfl⟩)
    fun _ _ => keeps_persist.bind fun _ _ => ?_
  refine keeps_askCheckout.bind fun _ _ => keeps_revalidate.bind fun _ _ => (keeps_perform _).bind fun _ _ => ?_
  refine Keeps.bind (P := fun _ => True) (keeps_amend fun r => .of_lists rfl rfl rfl rfl) fun _ _ => keeps_persist.bind fun _ _ => ?_
  refine (keeps_perform _).bind fun _ _ => (keeps_askText _).bind fun pending _ => keeps_select.bind fun upcoming _ => ?_
  exact Keeps.bind (P := fun _ => True) (keeps_amend fun r => .of_lists rfl rfl rfl rfl) fun _ _ => keeps_persist.bind fun _ _ => keeps_pure trivial

theorem keeps_tickets {x : Settings} (n : ℕ) :
    Keeps (contract e) [] i (Logged Ahead) (tickets e x prior began n pending) fun _ => True := by
  induction n generalizing pending with
  | zero => exact keeps_throw
  | succ n ih =>
    refine Keeps.bind (P := fun _ => True) ?_ fun next _ => ih
    unfold ticket
    refine keeps_choose.bind fun c _ => keeps_claim.bind fun context _ => keeps_implement.bind fun receipt _ => ?_
    exact keeps_check.bind fun _ _ => keeps_publish

theorem keeps_work {x : Settings} : Keeps (contract e) [] i (Logged Ahead) (work e x prior began) fun _ => True := by
  have hrest : Keeps (contract e) [] i (Logged Ahead)
      (askText .next >>= fun pending => tickets e x prior began x.limit pending) fun _ => True :=
    (keeps_askText _).bind fun pending _ => keeps_tickets x.limit
  unfold work
  cases prior with
  | none => exact hrest
  | some p =>
    refine Keeps.bind (P := fun _ => True) ?_ fun _ _ => hrest
    unfold resume
    refine Keeps.ite (fun _ => ?_) fun _ => Keeps.ite (fun _ => ?_) fun _ => Keeps.ite (fun _ => ?_) fun _ =>
      keeps_pure trivial
    all_goals exact Keeps.bind (P := fun _ => True) (keeps_amend fun r => .of_lists rfl rfl rfl rfl) fun _ _ => keeps_throw

theorem keeps_halt (x' : Exc) : Keeps (contract e) [] i (Logged Ahead) (halt x') fun _ => True := by
  unfold halt
  cases x' with
  | stop text => exact keeps_amend fun r => .of_lists rfl rfl rfl rfl
  | error type text => exact keeps_amend fun r => .with_risks r _ rfl rfl rfl rfl

/-- **A run**, given what is on disk, keeps the invariant. -/
theorem continueWork_holds (h : Inv w) (x : Settings) :
    Holds (contract e) [] i (continueWork e x w.st.disk) (fun _ w' => Inv w') w := by
  unfold continueWork
  by_cases hbounded : (!x.isBounded) = true
  · rw [if_pos hbounded]
    exact h
  rw [if_neg hbounded]
  refine (keeps_askTime (D := fun st => st.disk = w.st.disk)).seq ⟨h, rfl⟩ (fun began w₁ h₁ _ => ?_) fun x' w₁ h₁ => h₁.1
  obtain ⟨hinv, hdisk⟩ := h₁
  cases w.st.disk.bind Record.fault with
  | some text => exact hinv
  | none =>
    dsimp only
    rw [holds_bind, holds_write]
    dsimp only
    have hbody : Keeps (contract e) [] i (Logged Ahead) ((work e x w.st.disk began).catching halt >>= fun _ =>
        persist >>= fun _ => Prog.read (·.record) >>= fun r => report e r >>= fun _ => pure r) fun _ => True := by
      refine (keeps_work.catching keeps_halt).bind fun _ _ => keeps_persist.bind fun _ _ => ?_
      refine (keeps_read (P := fun _ => True) fun _ _ => trivial).bind fun r _ => ?_
      refine Keeps.bind (P := fun _ => True) ?_ fun _ _ => keeps_pure trivial
      unfold report
      exact Keeps.ite (fun _ => keeps_pure trivial) fun _ => (keeps_perform _).catching fun _ => keeps_pure trivial
    -- the record begins with what is on disk
    have hbegin : Logged Ahead (w₁.put ⟨w₁.st.disk, .begin e x.goal w.st.disk⟩) := by
      refine ⟨⟨hinv.seen, hinv.grown, hinv.valid⟩, fun r hr => ⟨_, rfl, ?_⟩⟩
      rw [World.put_st, hdisk] at hr
      rw [World.put_st, hr]
      exact .of_lists rfl rfl rfl rfl
    exact (hbody _ hbegin).mono fun _ _ hr => hr.1.1

/-! ## The methods -/

/-- What an operator resolves extends what was stopped. -/
theorem resolveStop_extends {r resolved : Record} {evidence now : Text} (h : resolveStop r evidence now = .ok resolved) :
    Extends r resolved := by
  unfold resolveStop at h
  cases hf : r.fault with
  | some text => rw [hf] at h; cases h
  | none =>
    rw [hf] at h
    cases hs : r.stopReason with
    | none => rw [hs] at h; cases h
    | some stop =>
      rw [hs] at h
      dsimp only at h
      split at h
      · cases h
      · cases h
        exact ⟨List.prefix_rfl, List.prefix_rfl, List.prefix_rfl, List.prefix_append _ _⟩

theorem resolve_holds (h : Inv w) (evidence now : Text) :
    Holds (contract e) [] i (body e (.resolve evidence now)) (fun _ w' => Inv w') w := by
  unfold body
  rw [holds_bind, holds_read]
  dsimp only
  cases hdisk : w.st.disk with
  | none => exact h
  | some r =>
    dsimp only
    cases hr : resolveStop r evidence now with
    | error x' => exact h
    | ok resolved =>
      dsimp only
      unfold writeHandoff
      cases hf : resolved.fault with
      | some text => exact h
      | none =>
        dsimp only
        rw [holds_bind]
        refine (keeps_perform (D := fun st => st.disk = w.st.disk) (.replace resolved)).seq ⟨h, rfl⟩
          (fun _ w₁ h₁ _ => ?_) fun x' w₁ h₁ => h₁.1
        rw [holds_bind, holds_write]
        dsimp only
        have hext : Grown w₁.st.disk (some resolved) := by
          intro r' hr'
          rw [h₁.2, hdisk] at hr'
          cases hr'
          exact ⟨resolved, rfl, resolveStop_extends hr⟩
        refine (keeps_perform (D := fun _ => True) .sync).holds ⟨h₁.1.replaced hf hext, trivial⟩ (fun _ w₂ h₂ _ => ?_)
          fun x' w₂ h₂ => h₂.1
        exact h₂.1

theorem kept (e : Env) : (contract e).Kept := by
  refine Contract.alone_kept (fun w ctx meth h => List.isEmpty_iff.1 h) (fun meth w _ hinv => ?_) fun w st hinv hst => ?_
  · have hentered : Inv (w.enter meth) := by
      refine ⟨⟨⟨hinv.valid, hinv.grown⟩, hinv.seen⟩, fun y hy => ?_, hinv.valid⟩
      rcases List.mem_cons.1 hy with rfl | hy
      · exact .refl _
      · exact hinv.grown y hy
    have hbody : Holds (contract e) [] w.next (body e meth) (fun _ w' => Inv w') (w.enter meth) := by
      cases meth with
      | resolve evidence now => exact resolve_holds hentered evidence now
      | run x =>
        unfold body
        rw [holds_bind, holds_read]
        dsimp only
        cases (w.enter (.run x)).st.disk.bind Record.fault with
        | some text => exact hentered
        | none =>
          dsimp only
          by_cases hstop : ((w.enter (.run x)).st.disk.any fun p => p.stopReason = some interrupted) = true
          · rw [if_pos hstop]
            exact hentered
          · rw [if_neg hstop]
            exact continueWork_holds hentered x
    exact hbody.mono fun v w' h => h.push _ _
  · cases hst
    refine ⟨⟨⟨hinv.valid, hinv.grown⟩, hinv.seen⟩, fun y hy => ?_, hinv.valid⟩
    rcases List.mem_cons.1 hy with rfl | hy
    · exact .refl _
    · exact hinv.grown y hy

/-- **Handoffs lose nothing**: what is on disk extends what was there at any time before, whether runs ended, raised or
were killed, and whatever was resolved; and it is valid, if it was at the start. -/
theorem handoff_grows {st : State} {c : Config State Op Answer Exc Method Record} (h : (machine e).Reachable st c)
    (hst : ∀ r, st.disk = some r → r.fault = none) {newer older : List CEntry} {z : CEntry}
    (hlog : c.w.log = newer ++ z :: older) :
    (∀ r, z.st.disk = some r → r.fault = none) ∧
      ∀ y ∈ older, ∀ r, y.st.disk = some r → ∃ r', z.st.disk = some r' ∧ Extends r r' := by
  have hinv : Inv c.w := Contract.sound (K := contract e) (kept e) ⟨trivial, fun y hy => (by cases hy), hst⟩ h
  have hseen := hinv.seen
  rw [hlog] at hseen
  exact hseen.at

theorem handoff_grows_run : ∃ (c : Config State Op Answer Exc Method Record) (z : CEntry) (older : List CEntry),
    (machine Example.env).Reachable Example.start c ∧ z.act = .call (.start "t".toList) ∧
      ∀ y ∈ older, ∀ r, y.st.disk = some r → ∃ r', z.st.disk = some r' ∧ Extends r r' := by
  obtain ⟨c, hc, hx⟩ := Machine.Reachable.of_run (machine Example.env) Example.start Example.resolved
    (fun c => (c.w.log.drop 0).head?.bind called = some (.start "t".toList)) (by decide +kernel)
  obtain ⟨z, older, hlog, hz⟩ := split_of_called (of_decide_eq_true hx)
  exact ⟨c, z, older, hc, hz, (handoff_grows hc (fun _ hr => by cases hr) hlog).2⟩

end History

end Continuation

end Arhugula
