import Arhugula.Proof.GatewayDeadline
import Arhugula.Proof.GatewaySafety

/-!
# What a gateway call may spend

Every method leaves `Rest`, whatever its callbacks do. `deadline_kept` reads the log of a run: one deadline for each
call, the budgets of all its attempts counted down to it, and nothing begun or won once the call is out of time, or
not wanted any more.
-/

namespace Arhugula

namespace Gateway

namespace Deadline

open Reentrant Providers

variable {digest : Manifest → String} {codec : Codec} {ctx : List (ℕ × Op)} {i : ℕ} {op : Op} {a : Answer}
  {w w' : GWorld digest} {log : List (GEntry digest)} {e : GEntry digest} {id : String} {c c' : Call}

/-! ## Methods -/

/-- An entry that is no answer of the clock, no `begin`, and does not ask for the end of the call. -/
theorem Rest.entry {x : Act Op Answer Exc Method Return} (h : Rest codec w) (hx : ∀ a, x ≠ .reply .clock a)
    (hg : ∀ op, x = .call op → grant op = none) (hr : ¬ Requests (⟨i, x, w.st⟩ : GEntry digest)) :
    Rest codec (w.push i x) := by
  refine ⟨⟨h.core.push (fun now c hact _ => absurd hact (hx _)) fun hreq => absurd hreq hr,
    ⟨⟨h.core, fun op b hop hgrant => ?_⟩, h.past⟩, h.outside⟩, fun c hc hd => ?_⟩
  · rw [hg op hop] at hgrant
    cases hgrant
  · show fails c.request.requestId (⟨i, x, w.st⟩ :: w.log) = false
    rw [fails_silent hx]
    exact h.clean c hc fun hn => hd (Disturbed.cons hn)

/-- A method is called. -/
theorem Rest.enter {m : Method} (h : Rest codec w) (hr : ¬ Requests (⟨w.next, .invoke m, w.st⟩ : GEntry digest)) :
    Rest codec (w.enter m) := by
  have hentry : Rest codec (w.push w.next (.invoke m)) :=
    h.entry (fun a hact => by cases hact) (fun op hact => by cases hact) hr
  exact ⟨⟨hentry.core, hentry.past, hentry.outside⟩, hentry.clean⟩

/-- A method that asks for the end of the call is called: the call knows it, once it is flagged. -/
theorem Rest.asked {m : Method} (h : Rest codec w) (d : Bool) :
    At codec ((w.enter m).put (w.st.onClient (.flag d true))) :=
  ⟨h.core.push_flag d true (fun now c hact _ => by cases hact) fun _ => .inl rfl,
    ⟨⟨h.core, fun op b hop _ => by cases hop⟩, h.past⟩, h.outside⟩

/-- A method that keeps what every method leaves. -/
abbrev Calm (codec : Codec) (ctx : List (ℕ × Op)) (i : ℕ) {α : Type} (p : GM digest α) : Prop :=
  Keeps (deadlineContract codec) ctx i (Rest codec) p fun _ => True

/-- A write that leaves the call alone. -/
theorem calm_write {f : Sys digest → Sys digest} (ha : ∀ s, (f s).client.active = s.client.active)
    (hh : ∀ s, (f s).client.history = s.client.history)
    (ht : ∀ s id t, .stored id t ∈ (f s).trail → .stored id t ∈ s.trail)
    (hi : ∀ s, (f s).client.insideCallback = s.client.insideCallback) : Calm codec ctx i (Prog.write f) :=
  keeps_write fun w hw => hw.same (ha w.st) (hh w.st) (ht w.st) (hi w.st)

theorem calm_ofCode {α : Type} (x : Except Code α) : Calm codec ctx i (ofCode x : GM digest α) := by
  cases x with
  | ok a => exact keeps_pure trivial
  | error code => exact keeps_throw

theorem calm_ofText {α : Type} (x : Except String α) : Calm codec ctx i (ofText x : GM digest α) := by
  cases x with
  | ok a => exact keeps_pure trivial
  | error text => exact keeps_throw

theorem calm_requireOwner (owner : Option Owner) : Calm codec ctx i (requireOwner owner : GM digest Unit) :=
  (keeps_read (P := fun _ => True) fun _ _ => trivial).bind fun _ _ => .ite (fun _ => keeps_throw) fun _ => keeps_pure trivial

theorem calm_setConfig (c : Configuration digest) : Calm codec ctx i (setConfig c) :=
  calm_write (fun _ => rfl) (fun _ => rfl) (fun _ _ _ hm => hm) fun _ => rfl

theorem calm_configuration {α : Type} {owner : Option Owner} {p : GM digest α} (hp : Calm codec ctx i p) :
    Calm codec ctx i (configuration owner p) := by
  refine (calm_requireOwner owner).bind fun _ _ => (keeps_read (P := fun _ => True) fun _ _ => trivial).bind fun c _ =>
    .ite (fun _ => keeps_throw) fun _ => ?_
  have hset : ∀ b : Bool, Calm codec ctx i
      (Prog.write (Sys.onClient fun c => { c with configuring := b }) : GM digest Unit) :=
    fun b => calm_write (fun _ => rfl) (fun _ => rfl) (fun _ _ _ hm => hm) fun _ => rfl
  exact (hset true).bind fun _ _ => hp.lastly (hset false)

theorem calm_transact {α : Type} {f : Configuration digest → GM digest α} (hf : ∀ c, Calm codec ctx i (f c)) :
    Calm codec ctx i (transact f) := by
  refine (keeps_read (P := fun _ => True) fun _ _ => trivial).bind fun config _ => ?_
  cases config with
  | none => exact keeps_throw
  | some c =>
    refine calm_configuration ((keeps_read (P := fun _ => True) fun _ _ => trivial).bind fun config _ => ?_)
    cases config with
    | none => exact keeps_throw
    | some c => exact hf c

theorem calm_claimConfiguration (owner : Owner) : Calm codec ctx i (claimConfiguration owner : GM digest Unit) := by
  refine (keeps_read (P := fun _ => True) fun _ _ => trivial).bind fun c _ => .ite (fun _ => keeps_throw) fun _ => ?_
  cases c.fault with
  | some code => exact keeps_throw
  | none => exact calm_write (fun _ => rfl) (fun _ => rfl) (fun _ _ _ hm => hm) fun _ => rfl

theorem calm_reconfigure (host : Option Host) (localRoute : Option Local) (permit : Option (Option Permit))
    (owner : Option Owner) : Calm codec ctx i (reconfigure host localRoute permit owner : GM digest Unit) := by
  refine (calm_requireOwner owner).bind fun _ _ => (keeps_read (P := fun _ => True) fun _ _ => trivial).bind fun c _ =>
    .ite (fun _ => keeps_throw) fun _ => ?_
  split
  · exact keeps_throw
  · exact keeps_throw
  · exact keeps_throw
  · exact calm_write (fun _ => rfl) (fun _ => rfl) (fun _ _ _ hm => hm) fun _ => rfl

/-- **`cancel`**, where the call knows that its end is asked for. -/
theorem holds_cancel (h : At codec (w.put (w.st.onClient (.flag false true)))) :
    Holds (deadlineContract codec) ctx i (cancel codec) (fun _ w' => Rest codec w') w := by
  unfold cancel
  rw [holds_bind, holds_read]
  dsimp only
  cases hactive : w.st.client.active with
  | none =>
    have hsame : w.st.onClient (.flag false true) = w.st := by
      unfold Sys.onClient
      rw [Client.flag_idle hactive]
    rw [hsame] at h
    refine ⟨h, fun c hc => ?_⟩
    rw [hactive] at hc
    cases hc
  | some c =>
    have hflagged : (w.st.onClient (.flag false true)).client.active =
        some { c with cancelRequested := c.cancelRequested || true } := Client.flag_active hactive
    dsimp only
    rw [holds_bind, holds_write]
    dsimp only
    rw [holds_bind, holds_read]
    dsimp only
    rw [if_neg (by rw [h.outside]; decide), holds_bind]
    refine holds_activeCall hflagged ?_
    exact (holds_finish codec).fail ⟨h, hflagged⟩ fun hcode => by cases hcode

/-- **`disable`**, by the owner or another. -/
theorem holds_disable {owner : Option Owner} (h : owner ≠ w.st.client.owner → Rest codec w)
    (howner : owner = w.st.client.owner → At codec (w.put (w.st.onClient (.flag true true)))) :
    Holds (deadlineContract codec) ctx i (disable codec owner) (fun _ w' => Rest codec w') w := by
  unfold disable
  rw [holds_bind, holds_requireOwner]
  split
  · rename_i heq
    dsimp only
    rw [holds_bind, holds_write]
    refine holds_cancel ?_
    have hat := howner heq
    have hsame : (w.st.onClient (.flag true false)).onClient (.flag false true) = w.st.onClient (.flag true true) :=
      onClient_flag_flag w.st true false false true
    rw [← hsame] at hat
    exact hat
  · rename_i hne
    exact h hne

/-- A call that is asked to end knows it, where nothing else was logged. -/
theorem Rest.flag (h : Rest codec w) (d x : Bool) : At codec (w.put (w.st.onClient (.flag d x))) :=
  ⟨h.core.flag d x, h.past, h.outside⟩

/-- **`start`**: the call that is accepted asked for its budget. -/
theorem holds_start {request : Option Request} (h : Rest codec w)
    (hcall : ∃ e older, w.log = e :: older ∧ e.act = .invoke (.start request)) :
    Holds (deadlineContract codec) ctx i (start codec request) (fun _ w' => Rest codec w') w := by
  unfold start
  rw [holds_bind, holds_read]
  dsimp only
  split
  · exact h
  split
  · exact h
  split
  · exact h
  rw [holds_bind]
  refine holds_ofCode (fun raw hraw => ?_) fun code _ => h
  dsimp only
  rw [holds_bind]
  refine holds_ofCode (fun read hread => ?_) fun code _ => h
  dsimp only
  split
  · exact h
  split
  · exact h
  split
  · exact h
  rename_i hnew
  split
  · exact h
  rw [holds_bind, holds_write]
  dsimp only
  obtain ⟨e, older, hlog, hact⟩ := hcall
  have hfresh : read.requestId ∉ w.st.client.history := by
    simpa using hnew
  have hunseen : ∀ e ∈ w.log, during read.requestId e.st = false := by
    intro e he
    by_contra hd
    exact hfresh (h.core.known e he _ (by simpa using hd))
  have hasked : Asked codec read.requestId read.budgetMs w.log := by
    rw [hlog] at hunseen ⊢
    cases request with
    | none => cases hraw
    | some given => exact ⟨[], e, older, given, raw, read, rfl, hact, hraw, hread, rfl, rfl, hunseen, fun m hm => by cases hm⟩
  refine holds_beginCall codec _ (.new read w.st.client.host) ⟨⟨h.core.accept hfresh hasked, h.past, h.outside⟩, rfl⟩ ?_
  exact fun _ => (unseen hunseen).2.1

/-- What the job has. -/
theorem holds_pollJob (h : Works codec w c) (call : Call) :
    Holds (deadlineContract codec) ctx i (pollJob call) (Waited codec w c) w := by
  unfold pollJob
  rw [holds_catching]
  cases call.job with
  | none => exact ⟨c, h.goes, rfl, rfl⟩
  | some j =>
    show Holds _ ctx i (invoke (.poll j) >>= fun a => pure (Except.ok a)) _ w
    rw [holds_bind]
    refine holds_other h (by simp) (fun b hb => by cases hb) (fun a w' c' ha g hlast hdead => ?_) fun w' hr => hr
    have hdone : ∀ (x : Except Code Answer), Waited codec w c (.ok x) w' := fun _ => ⟨c', g, hlast, hdead⟩
    cases a with
    | raised e =>
      cases e with
      | interrupt => exact absurd rfl ha
      | gateway code => exact hdone (.error code)
      | configuration text => exact hdone (.error .providerFailed)
      | exception => exact hdone (.error .providerFailed)
    | time t => exact hdone (.ok (.time t))
    | text t => exact hdone (.ok (.text t))
    | truth t => exact hdone (.ok (.truth t))
    | remote code => exact hdone (.ok (.remote code))
    | job j' => exact hdone (.ok (.job j'))
    | reply r => exact hdone (.ok (.reply r))
    | bytes r => exact hdone (.ok (.bytes r))
    | nothing => exact hdone (.ok .nothing)
    | object => exact hdone (.ok .object)

/-- **`poll`, for an active call.** -/
theorem holds_advanceCall (h : Works codec w c) (hclean : Clean c.request.requestId w.log) :
    Holds (deadlineContract codec) ctx i (advanceCall codec) (fun _ w' => Rest codec w') w := by
  unfold advanceCall
  rw [holds_bind]
  refine (holds_interruption h).mono fun r w₁ hr => ?_
  cases r with
  | error e => exact hr
  | ok interrupted =>
    cases interrupted with
    | some code =>
      obtain ⟨c₁, h₁, hsame, hworth⟩ := hr
      dsimp only
      rw [holds_bind]
      refine holds_activeCall h₁.active ((holds_finish codec).fail h₁ fun hcode => ?_)
      rw [hsame.request]
      exact hworth hcode hclean
    | none =>
      obtain ⟨c₁, g₁, -, -⟩ := hr
      have hclean₁ : Clean c₁.request.requestId w₁.log := by
        rw [g₁.same.request]
        exact g₁.clean hclean
      dsimp only
      rw [holds_bind]
      refine holds_activeCall g₁.active ?_
      dsimp only
      rw [holds_bind]
      refine (holds_pollJob g₁.toWorks c₁).mono fun r w₂ hr => ?_
      cases r with
      | error e => exact hr
      | ok incoming =>
        obtain ⟨c₂, g₂, -, -⟩ := hr
        have hclean₂ : Clean c₂.request.requestId w₂.log := by
          rw [g₂.same.request]
          exact g₂.clean hclean₁
        cases incoming with
        | error code => exact (holds_finish codec).fail g₂.toWorks fun _ => hclean₂
        | ok incoming =>
          dsimp only
          rw [holds_bind]
          refine (holds_interruption g₂.toWorks).mono fun r w₃ hr => ?_
          cases r with
          | error e => exact hr
          | ok interrupted =>
            cases interrupted with
            | some code =>
              obtain ⟨c₃, h₃, hsame, hworth⟩ := hr
              refine (holds_finish codec).fail h₃ fun hcode => ?_
              rw [hsame.request]
              exact hworth hcode hclean₂
            | none =>
              obtain ⟨c₃, g₃, -, -⟩ := hr
              have hclean₃ : Clean c₃.request.requestId w₃.log := by
                rw [g₃.same.request]
                exact g₃.clean hclean₂
              dsimp only
              split
              · refine ⟨g₃.toAt, fun c' hc' => ?_⟩
                obtain rfl : c₃ = c' := Option.some_inj.1 (g₃.active.symm.trans hc')
                exact hclean₃
              · exact holds_finish codec _ c₃ _ g₃.toWorks fun _ => hclean₃

/-- **`poll`.** -/
theorem holds_poll (h : Rest codec w) :
    Holds (deadlineContract codec) ctx i (poll codec) (fun _ w' => Rest codec w') w := by
  have hdeliver : Calm codec ctx i (do
      let t ← Prog.read fun s => s.client.terminal
      Prog.write Sys.deliver
      pure t : GM digest (Option Terminal)) := by
    refine (keeps_read (P := fun _ => True) fun _ _ => trivial).bind fun t _ => .bind (P := fun _ => True) ?_ fun _ _ =>
      keeps_pure trivial
    refine keeps_write fun w hw => hw.same ?_ ?_ (fun id t hm => ?_) ?_
    · unfold Sys.deliver
      split <;> rfl
    · unfold Sys.deliver
      split <;> rfl
    · unfold Sys.deliver at hm
      split at hm
      · exact hm
      · simpa [Sys.mark, Sys.onClient] using hm
    · unfold Sys.deliver
      split <;> rfl
  unfold poll
  rw [holds_bind, holds_read]
  dsimp only
  split
  · exact h
  split
  · rename_i hactive
    obtain ⟨c, hc⟩ := Option.isSome_iff_exists.1 hactive
    rw [holds_bind]
    refine (holds_advanceCall ⟨h.toAt, hc⟩ (h.clean c hc)).mono fun r w' hr => ?_
    cases r with
    | error e => exact hr
    | ok u => exact hdeliver.holds hr (fun _ _ hl _ => hl) fun _ _ hl => hl
  · exact hdeliver.holds h (fun _ _ hl _ => hl) fun _ _ hl => hl

/-! ### The operations of a configuration -/

theorem calm_disable {owner : Option Owner} : Calm codec ctx i (disable codec owner : GM digest Unit) := by
  intro w h
  exact (holds_disable (fun _ => h) fun _ => h.flag true true).mono fun r w' hr => ⟨hr, fun _ _ => trivial⟩

theorem calm_activate (candidate receipt : ℕ) (now : Option ℤ) :
    Calm codec ctx i (activate candidate receipt now : GM digest ℕ) := by
  refine calm_transact fun c => (calm_ofText _).bind fun s _ => (calm_setConfig _).bind fun _ _ =>
    (calm_ofText _).bind fun _ _ => (calm_ofText _).bind fun routes _ =>
      (calm_reconfigure _ _ _ _).bind fun _ _ => (calm_setConfig _).bind fun _ _ => keeps_pure trivial

theorem calm_disableConfiguration : Calm codec ctx i (disableConfiguration codec : GM digest ℕ) :=
  calm_transact fun _ => (calm_setConfig _).bind fun _ _ => calm_disable.bind fun _ _ => keeps_pure trivial

/-- The body of a transaction may call any method, which leaves the client as `Rest` has it. -/
theorem survives_transaction :
    Survives (deadlineContract codec) ctx i (Rest codec : GWorld digest → Prop) .transaction := by
  intro w h
  have hreq : ∀ (s : Sys digest) (x : Act Op Answer Exc Method Return), (∀ m, x ≠ .invoke m) →
      ¬ Requests (⟨i, x, s⟩ : GEntry digest) := by
    rintro s x hx (hr | ⟨mine, hr, -⟩)
    · exact hx _ hr
    · exact hx _ hr
  have hcall : Rest codec (w.push i (.call .transaction)) := by
    refine h.entry (fun a hact => by cases hact) (fun op hact => ?_) (hreq _ _ fun m hact => by cases hact)
    cases hact
    rfl
  refine ⟨hcall.kept, fun w' hinv _ hrel a _ => ?_⟩
  have hout : w'.st.client.insideCallback = false := hrel.1.trans h.outside
  exact (hinv.rest hout).entry (fun a hact => by cases hact) (fun op hact => by cases hact)
    (hreq _ _ fun m hact => by cases hact)

theorem calm_transaction (mine : Bool) :
    Calm codec ctx i (body codec (.configuration mine) : GM digest Return) := by
  refine calm_configuration ((keeps_ask survives_transaction).bind fun a _ => ?_)
  cases a with
  | raised e => exact keeps_throw
  | _ => exact keeps_pure trivial

/-- **The other methods** leave the call alone. -/
theorem calm_body {m : Method} (hm : m.asks = false) (hstart : ∀ request, m ≠ .start request) (hpoll : m ≠ .poll) :
    Calm codec ctx i (body codec m : GM digest Return) := by
  cases m with
  | start request => exact absurd rfl (hstart request)
  | poll => exact absurd rfl hpoll
  | cancel => cases hm
  | disable mine => cases hm
  | claimConfiguration => exact (calm_claimConfiguration _).map fun _ _ => trivial
  | configuration mine => exact calm_transaction mine
  | reconfigure host localRoute permit mine => exact (calm_reconfigure _ _ _ _).map fun _ _ => trivial
  | configure =>
    have hconfigure : Calm codec ctx i (configure : GM digest Unit) :=
      (calm_claimConfiguration _).bind fun _ _ => calm_setConfig _
    exact hconfigure.map fun _ _ => trivial
  | stage parts =>
    exact calm_transact fun c => (calm_ofText _).bind fun r _ => (calm_setConfig _).bind fun _ _ => keeps_pure trivial
  | restore revision evidence =>
    refine calm_transact fun c => ?_
    split
    · exact keeps_throw
    · exact (calm_ofText _).bind fun r _ => (calm_setConfig _).bind fun _ _ => keeps_pure trivial
  | observe candidate providerId status observedAtMs =>
    exact calm_transact fun c => (calm_ofText _).bind fun r _ => (calm_setConfig _).bind fun _ _ => keeps_pure trivial
  | approve candidate bootstrap =>
    exact calm_transact fun c => (calm_ofText _).bind fun r _ => (calm_setConfig _).bind fun _ _ => keeps_pure trivial
  | reject candidate =>
    exact calm_transact fun c => (calm_ofText _).bind fun r _ => (calm_setConfig _).bind fun _ _ => keeps_pure trivial
  | activate candidate receipt now => exact (calm_activate _ _ _).map fun _ _ => trivial
  | disableConfiguration => exact calm_disableConfiguration.map fun _ _ => trivial

/-! ### Every method -/

/-- What a call leaves, with its return. -/
abbrev Leaves (codec : Codec) (ctx : List (ℕ × Op)) (w : GWorld digest) (r : Except Exc Return) (w' : GWorld digest) :
    Prop :=
  (deadlineContract codec).Inv (w'.push w.next (.ret r)) ∧ (deadlineContract codec).Rel ctx w (w'.push w.next (.ret r))

theorem leaves_rest {r : Except Exc Return} (hin : w.st.client.insideCallback = false) (h : Rest codec w') :
    Leaves codec ctx w r w' := by
  have hret : Rest codec (w'.push w.next (.ret r)) := by
    refine h.entry (fun a hact => by cases hact) (fun op hact => by cases hact) ?_
    rintro (hr | ⟨mine, hr, -⟩) <;> cases hr
  refine ⟨hret.kept, h.outside.trans hin.symm, fun hyes => ?_⟩
  rw [hin] at hyes
  cases hyes

/-- **Within a callback.** -/
theorem leaves_inside (meth : Method) (hin : w.st.client.insideCallback = true) (h : Kept codec w) :
    Holds (deadlineContract codec) ctx w.next (body codec meth) (Leaves codec ctx w) (w.enter meth) := by
  refine (holds_inside meth hin).mono ?_
  rintro r w' ⟨s, hanswer, rfl⟩
  -- the call, the flags that it leaves, and its return
  have hflags : ∀ d x : Bool, (Requests ⟨w.next, .invoke meth, w.st⟩ → x = true) →
      Leaves codec ctx w r ((w.enter meth).put (w.st.onClient (.flag d x))) := by
    intro d x hreq
    have henter : Core codec (w.enter meth).log (w.st.onClient (.flag d x)) :=
      h.core.push_flag d x (fun now c hact _ => by cases hact) fun hr => .inl (hreq hr)
    have hret : Core codec (⟨w.next, .ret r, w.st.onClient (.flag d x)⟩ :: (w.enter meth).log)
        (w.st.onClient (.flag d x)) := by
      refine henter.push (fun now c hact _ => by cases hact) ?_
      rintro (hr | ⟨mine, hr, -⟩) <;> cases hr
    have hpast : Throughout (Noted codec) (w.enter meth).log := ⟨⟨h.core, fun op b hop _ => by cases hop⟩, h.past⟩
    refine ⟨⟨hret, ⟨⟨henter, fun op b hop _ => by cases hop⟩, hpast⟩, fun hout => ?_⟩, rfl,
      fun _ => passing_nested d x hreq⟩
    exact absurd (hin.symm.trans hout) (by simp)
  have hidle : ¬ Requests ⟨w.next, .invoke meth, w.st⟩ → Leaves codec ctx w r ((w.enter meth).put w.st) := by
    intro hnot
    have hsame := hflags false false fun hr => absurd hr hnot
    rw [onClient_flag_none] at hsame
    exact hsame
  cases hanswer with
  | error e hm hp => exact hidle hm
  | poll hm =>
    subst hm
    exact hidle (not_requests rfl)
  | flag d hm => exact hflags d true fun _ => rfl

/-- **Outside of callbacks.** -/
theorem leaves_outside (meth : Method) (hin : w.st.client.insideCallback = false) (h : Kept codec w) :
    Holds (deadlineContract codec) ctx w.next (body codec meth) (Leaves codec ctx w) (w.enter meth) := by
  have hrest : Rest codec w := h.rest hin
  have hdone : ∀ {α : Type} {p : GM digest α} {f : α → Return} {w₁ : GWorld digest},
      Holds (deadlineContract codec) ctx w.next p (fun _ w' => Rest codec w') w₁ →
        Holds (deadlineContract codec) ctx w.next (f <$> p) (Leaves codec ctx w) w₁ := by
    intro α p f w₁ hp
    refine holds_bind.2 (hp.mono fun r w' hr => ?_)
    cases r with
    | error e => exact leaves_rest hin hr
    | ok v => exact leaves_rest hin hr
  by_cases hasks : meth.asks = true
  · -- `cancel` and `disable`: once its end is asked for, the call knows it
    cases meth with
    | cancel => exact hdone (holds_cancel (hrest.asked false))
    | disable mine =>
      refine hdone (holds_disable (fun hne => hrest.enter ?_) fun _ => hrest.asked true)
      rintro (hr | ⟨mine', hr, howner⟩)
      · cases hr
      · cases hr
        exact hne howner
    | _ => cases hasks
  · have hnot : meth.asks = false := by simpa using hasks
    have henter : Rest codec (w.enter meth) := hrest.enter (not_requests hnot)
    by_cases hstart : ∃ request, meth = .start request
    · obtain ⟨request, rfl⟩ := hstart
      exact hdone (holds_start henter ⟨_, _, rfl, rfl⟩)
    by_cases hpoll : meth = .poll
    · subst hpoll
      exact hdone (holds_poll henter)
    · refine (calm_body hnot (fun request heq => hstart ⟨request, heq⟩) hpoll).holds henter ?_ ?_
      · exact fun r w' hr _ => leaves_rest hin hr
      · exact fun e w' hr => leaves_rest hin hr

/-- **Every method keeps the contract.** -/
theorem deadline_contract : (deadlineContract codec : Contract (gateway codec digest)).Kept where
  crash w s _ h := by cases h
  method ctx meth w _ _ _ hinv := by
    by_cases hin : w.st.client.insideCallback = true
    · exact leaves_inside meth hin hinv
    · exact leaves_outside meth (by simpa using hin) hinv

theorem kept_fresh {host : Host} {localRoute : Option Local} {version : ℤ} :
    Kept codec (Machine.start (fresh digest host localRoute version) : GConfig digest).w := by
  refine ⟨⟨fun e he => (by cases he), fun c hc => (by cases hc), fun id t hm => (by cases hm),
    fun c hc => (by cases hc), fun c hc => (by cases hc), fun id t hm => (by cases hm), fun m older hlog => ?_⟩, trivial,
    fun _ c hc => (by cases hc)⟩
  cases hlog

/-! ## Every run -/

/-- The call's budget and its deadline, as a log shows them. -/
def deadlineOf (id : String) (log : List (GEntry digest)) : ℤ :=
  (readings id log).getLast?.getD 0 + (allotted id log).getD 0

/-- What an earlier part of the log shows of the deadline. -/
theorem deadlineOf_append {first budget : ℤ} (newer : List (GEntry digest)) (hf : (readings id log).getLast? = some first)
    (hb : allotted id log = some budget) :
    deadlineOf id (newer ++ log) = first + budget ∧ (allotted id (newer ++ log)).getD 0 = budget := by
  have hb' := allotted_append newer hb
  unfold deadlineOf
  rw [first_append newer hf, hb']
  exact ⟨rfl, rfl⟩

/-- A call that is due is before its deadline. -/
theorem Due.before (h : Due codec id log) (newer : List (GEntry digest)) :
    ∀ t ∈ readings id log, t < deadlineOf id (newer ++ log) := by
  obtain ⟨budget, first, hbudget, -, hfirst, hless⟩ := h.timely
  rw [(deadlineOf_append newer hfirst hbudget).1]
  exact hless

/-- **A call is punctual**: what it knows of its times is what the clock said, its deadline never moves, and each
attempt is given what is left, while the call is due. So is it when it falls back, and when it succeeds. -/
structure Punctual (codec : Codec) (id : String) (budget deadline : ℤ) (w : GWorld digest) : Prop where
  requested : ∀ first ∈ (readings id w.log).getLast?, Asked codec id budget w.log ∧ deadline = first + budget
  sorted : (readings id w.log).Pairwise fun t u => u ≤ t
  known : ∀ newer e older c, w.log = newer ++ e :: older → e.st.client.active = some c → c.request.requestId = id →
    c.lastTime = (readings id older).head? ∧ ∀ d ∈ c.deadline, d = deadline
  begins : ∀ newer e older op b, w.log = newer ++ e :: older → e.act = .call op → grant op = some b →
    during id e.st = true → (∃ last ∈ (readings id older).head?, b = deadline - last) ∧ 1 ≤ b ∧ b ≤ budget ∧
      (∀ t ∈ readings id older, t < deadline) ∧ Due codec id older
  falls : ∀ newer e m older, w.log = newer ++ e :: m :: older → Falls id m.st e.st →
    (∀ t ∈ readings id (m :: older), t < deadline) ∧ Due codec id (m :: older)
  wins : ∀ t, .stored id t ∈ w.st.trail → t.succeeded.isSome →
    (∀ t ∈ readings id w.log, t < deadline) ∧ Due codec id w.log

/-- What the client knows of a call that has a reading. -/
theorem Timed.deadlineOf (h : Timed codec log c) {first : ℤ}
    (hf : (readings c.request.requestId log).getLast? = some first) (newer : List (GEntry digest)) :
    Deadline.deadlineOf c.request.requestId (newer ++ log) = first + budget log c ∧
      (allotted c.request.requestId (newer ++ log)).getD 0 = budget log c ∧ c.deadline = some (first + budget log c) := by
  obtain ⟨b, hb⟩ : ∃ b, allotted c.request.requestId log = some b := by
    cases hb : allotted c.request.requestId log with
    | some b => exact ⟨b, rfl⟩
    | none =>
      rw [allotted_none hb] at hf
      cases hf
  have hbudget : budget log c = b := by
    unfold budget
    rw [hb]
    rfl
  obtain ⟨hd, ha⟩ := deadlineOf_append newer hf hb
  rw [hbudget]
  refine ⟨hd, ha, ?_⟩
  rw [h.deadline, hf, hbudget]
  rfl

theorem Kept.punctual (h : Kept codec w) (id : String) :
    Punctual codec id ((allotted id w.log).getD 0) (deadlineOf id w.log) w := by
  have hentry : ∀ newer e older, w.log = newer ++ e :: older → Noted codec e older := by
    intro newer e older hlog
    have hpast := h.past
    rw [hlog] at hpast
    exact hpast.at
  have hsplit : ∀ (newer older : List (GEntry digest)) e, newer ++ e :: older = (newer ++ [e]) ++ older := by
    intro newer older e
    rw [List.append_assoc, List.singleton_append]
  refine ⟨fun first hfirst => ⟨?_, ?_⟩, readings_sorted id w.log, ?_, ?_, ?_, ?_⟩
  · -- the call was active at its first reading
    have hne : readings id w.log ≠ [] := fun hnil => by rw [hnil] at hfirst; cases hfirst
    obtain ⟨newer, e, older, hlog, hd, hread⟩ := first_entry hne
    obtain ⟨c, hc, rfl⟩ := during_iff.1 hd
    have hasked := ((hentry newer e older hlog).1.timed c hc).asked
    have hbudget : allotted c.request.requestId (e :: older) = some (budget older c) := by
      rw [allotted, hc, Option.filter_some, if_pos (by simp)]
      unfold budget
      cases allotted c.request.requestId older <;> rfl
    rw [hlog, allotted_append newer hbudget]
    exact (hasked.cons (.inl hd)).append newer hread
  · unfold deadlineOf
    rw [hfirst]
    rfl
  · intro newer e older c hlog hc hid
    subst hid
    have htimed := (hentry newer e older hlog).1.timed c hc
    refine ⟨htimed.last, fun d hd => ?_⟩
    have hdead : (readings c.request.requestId older).getLast?.map (fun t => t + budget older c) = some d :=
      htimed.deadline.symm.trans hd
    obtain ⟨first, hfirst, rfl⟩ := Option.map_eq_some_iff.1 hdead
    rw [hlog, hsplit]
    exact (htimed.deadlineOf hfirst _).1.symm
  · intro newer e older op b hlog hact hgrant hd
    obtain ⟨hcore, hgranted⟩ := hentry newer e older hlog
    obtain ⟨c, last, d, hc, hlast, hdead, rfl, hlt, hdue⟩ := hgranted op b hact hgrant
    obtain ⟨c', hc', hid⟩ := during_iff.1 hd
    obtain rfl : c = c' := Option.some_inj.1 (hc.symm.trans hc')
    subst hid
    have htimed := hcore.timed c hc
    have hhead : (readings c.request.requestId older).head? = some last := htimed.last.symm.trans hlast
    obtain ⟨rest, hrest⟩ : ∃ rest, readings c.request.requestId older = last :: rest := List.head?_eq_some_iff.1 hhead
    obtain ⟨first, hfirst⟩ : ∃ first, (readings c.request.requestId older).getLast? = some first := by
      rw [hrest]
      exact ⟨_, List.getLast?_eq_some_getLast (List.cons_ne_nil _ _)⟩
    obtain ⟨hat, hallotted, hset⟩ := htimed.deadlineOf hfirst (newer ++ [e])
    rw [← hsplit, ← hlog] at hat hallotted
    have hd' : d = first + budget older c := Option.some_inj.1 (hdead.symm.trans hset)
    -- the first reading is the least
    have hle : first ≤ last := by
      have hsorted := readings_sorted c.request.requestId older
      have hmem := List.mem_of_getLast? hfirst
      rw [hrest] at hsorted hmem
      rcases List.mem_cons.1 hmem with rfl | hmem
      · omega
      · exact (List.pairwise_cons.1 hsorted).1 first hmem
    have hbefore := hdue.before (newer ++ [e])
    rw [← hsplit, ← hlog] at hbefore
    rw [hat, hallotted]
    exact ⟨⟨last, hhead, by omega⟩, by omega, by omega, hat ▸ hbefore, hdue⟩
  · intro newer e m older hlog hfalls
    have hdue := (hentry newer e (m :: older) hlog).1.fell m older rfl id hfalls
    have hbefore := hdue.before (newer ++ [e])
    rw [← hsplit, ← hlog] at hbefore
    exact ⟨hbefore, hdue⟩
  · exact fun t hm hsome => ⟨(h.core.succeeded id t hm hsome).before [], h.core.succeeded id t hm hsome⟩

/-- **Deadlines and budgets**, in every run: for each call that has a reading there is one deadline, its first reading
plus the budget that its `start` asked for. Every `begin`, on either route, is given what is left of it by the last
reading, at least 1 and at most that budget; the readings do not go back. No attempt is begun, no call falls back, and
none succeeds once a reading is at the deadline or past it, or its end was asked for; nor once a reading failed or
went back, if no callback raised what is no `Exception`. -/
theorem deadline_kept {host : Host} {localRoute : Option Local} {version : ℤ} {cfg : GConfig digest}
    (h : (gateway codec digest).Reachable (fresh digest host localRoute version) cfg) (id : String) :
    ∃ budget deadline, Punctual codec id budget deadline cfg.w :=
  ⟨_, _, (Contract.sound deadline_contract kept_fresh h).punctual id⟩

/-- The call of the example has succeeded. -/
def wonFirst (m : Mark) : Bool :=
  match m with
  | .stored id t => id = "r1" && t.succeeded.isSome
  | _ => false

theorem deadline_kept_answered :
    ∃ (cfg : GConfig Example.noDigest) (budget deadline : ℤ) (t : Terminal),
      (gateway Example.json Example.noDigest).Reachable Example.client cfg ∧ .stored "r1" t ∈ cfg.w.st.trail ∧
        t.succeeded.isSome ∧ Punctual Example.json "r1" budget deadline cfg.w := by
  obtain ⟨cfg, hcfg, ht⟩ := Machine.Reachable.of_run (gateway Example.json Example.noDigest) Example.client
    (Example.begun ++ Example.answered) (fun c => c.w.st.trail.any wonFirst)
    (by rw [Example.json_data, Example.answered_data]; decide +kernel)
  obtain ⟨m, hm, hx⟩ := List.any_eq_true.1 ht
  obtain ⟨budget, deadline, hpunctual⟩ := deadline_kept hcfg "r1"
  unfold wonFirst at hx
  split at hx
  · rename_i id t
    rw [Bool.and_eq_true, decide_eq_true_eq] at hx
    obtain ⟨rfl, hsome⟩ := hx
    exact ⟨cfg, budget, deadline, t, hcfg, hm, hsome, hpunctual⟩
  · cases hx

/-- The last callback begins an attempt for the call of the example, after a reading failed. -/
def beginsMisread (c : GConfig digest) : Bool :=
  match c.w.log with
  | e :: older => (match e.act with
    | .call op => (grant op).isSome
    | _ => false) && during "r1" e.st && fails "r1" older
  | [] => false

/-- **An attempt is begun for a call after a reading failed**: the next look at the clock raised what no handler
catches, so that the call stayed active, and a poll takes the job that it lacks for a failure of the provider. -/
theorem begins_after_misreading :
    ∃ cfg : GConfig Example.noDigest,
      (gateway Example.json Example.noDigest).Reachable Example.client cfg ∧
        ∃ e older op b, cfg.w.log = e :: older ∧ e.act = .call op ∧ grant op = some b ∧ during "r1" e.st = true ∧
          fails "r1" older = true := by
  obtain ⟨cfg, hcfg, ht⟩ := Machine.Reachable.of_run (gateway Example.json Example.noDigest) Example.client
    Example.faulted beginsMisread (by rw [Example.json_data]; decide +kernel)
  unfold beginsMisread at ht
  split at ht
  · rename_i e older hlog
    rw [Bool.and_eq_true, Bool.and_eq_true] at ht
    obtain ⟨⟨hact, hd⟩, hfails⟩ := ht
    split at hact
    · rename_i op hop
      obtain ⟨b, hb⟩ := Option.isSome_iff_exists.1 hact
      exact ⟨cfg, hcfg, e, older, op, b, hlog, hop, hb, hd, hfails⟩
    · cases hact
  · cases ht

end Deadline

end Gateway

end Arhugula
