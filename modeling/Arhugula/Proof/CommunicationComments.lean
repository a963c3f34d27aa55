import Arhugula.Proof.CommunicationState

/-!
# Comments are stored once

`Within` is the assertion that stands while an activation holds the lease, `holds_lease` the rule of the
lease. Under it a call that owes nothing keeps what is known of the log (`Within.ask`). `holds_ensure`:
`ensure_comment` keeps the contract.
-/

namespace Arhugula

namespace Communication

open Reentrant Durable Strings

variable {sha256 : Text → Text} {w w' : DWorld} {log l : List DEntry} {e : DEntry} {i : ℕ} {x : DAct}
  {ctx : List (ℕ × Op)} {op : Op} {a : Answer} {m : Method} {k r : Text → Slot Delivery}
  {F G : List DEntry → Prop} {α : Type}

/-! ## Under the lease -/

/-- A quiet entry, of the call `op` and its answer `a` where it is of activation `i`. -/
def Adds (i : ℕ) (op : Op) (a : Answer) (e : DEntry) : Prop :=
  Quiet e ∧ (e.frame = i → e.act = .call op ∨ e.act = .reply op a)

/-- A fact about the log that stands while activation `i` calls `op` and is answered by `a`. -/
def Lasting (i : ℕ) (op : Op) (a : Answer) (F : List DEntry → Prop) : Prop :=
  ∀ l log, F log → (∀ e ∈ l, Adds i op a e) → F (l ++ log)

theorem Lasting.and (hF : Lasting i op a F) (hG : Lasting i op a G) : Lasting i op a fun log => F log ∧ G log :=
  fun l log h hl => ⟨hF l log h.1 hl, hG l log h.2 hl⟩

theorem lasting_mem (P : DEntry → Prop) : Lasting i op a fun log => ∃ e ∈ log, P e := by
  rintro l log ⟨e, he, hp⟩ -
  exact ⟨e, List.mem_append_right l he, hp⟩

theorem lasting_clear (operationId : Text) : Lasting i op a (Clear operationId) :=
  fun _ _ h hl => h.append fun e he => (hl e he).1.queues operationId

theorem lasting_unposted (issue operationId : Text) :
    Lasting i op a fun log => ∀ e ∈ log, ¬ Posts issue operationId e := by
  intro l log h hl e he
  rcases List.mem_append.1 he with he | he
  · rintro ⟨-, body, a, hact, hs⟩
    rw [(hl e he).1.stores _ _ a hact] at hs
    cases hs
  · exact h e he

theorem lasting_unqueued (j : ℕ) (operationId : Text) : Lasting i op a fun log => ¬ Queued j operationId log := by
  rintro l log h hl ⟨e, he, hf, hq⟩
  rcases List.mem_append.1 he with he | he
  · exact (hl e he).1.queues operationId hq
  · exact h ⟨e, he, hf, hq⟩

theorem lasting_unseen {operationId : Text} (hop : op = .record operationId → a ≠ .done) :
    Lasting i op a fun log => ¬ Saw i operationId log := by
  rintro l log h hl ⟨e, he, hf, hact⟩
  rcases List.mem_append.1 he with he | he
  · rcases (hl e he).2 hf with hx | hx
    · rw [hact] at hx
      cases hx
    · rw [hact] at hx
      obtain ⟨hsame, ha⟩ := Act.reply.inj hx
      exact hop hsame.symm ha.symm
  · exact h ⟨e, he, hf, hact⟩

/-- The comment with this text is stored. -/
def Stored (issue t : Text) (log : List DEntry) : Prop :=
  ∃ e ∈ log, ∃ a, e.act = .reply (.comment issue t) a ∧ a.stores = true

theorem lasting_stored (issue t : Text) : Lasting i op a (Stored issue t) := lasting_mem _

theorem lasting_true : Lasting i op a fun _ => True := fun _ _ _ _ => trivial

/-- **Activation `i` runs `m` under the lease**: `k` is what the records were when it took it, `r` what they
are, and `F` what it knows of the log. -/
structure Within (sha256 : Text → Text) (i : ℕ) (m : Method) (k : Text → Slot Delivery) (F : List DEntry → Prop)
    (r : Text → Slot Delivery) (w : DWorld) : Prop where
  inv : DInv sha256 w
  held : w.st.held = true
  records : w.st.records = r
  facts : F w.log
  free : ∀ e ∈ w.log, e.st.held = false → ∀ operationId, Later (e.st.records operationId) (k operationId)
  called : ∃ e ∈ w.log, e.frame = i ∧ e.act = .invoke m
  only : ∀ e ∈ w.log, e.frame = i → ∀ m', e.act = .invoke m' → m' = m

theorem Within.weaken (h : Within sha256 i m k F r w) (hG : F w.log → G w.log) : Within sha256 i m k G r w :=
  { h with facts := hG h.facts }

/-- An act that owes nothing. -/
theorem Within.push (h : Within sha256 i m k F r w) (hF : Lasting i op a F) (hx : Plain x)
    (hi : x = .call op ∨ x = .reply op a) : Within sha256 i m k F r (w.push i x) where
  inv := h.inv.plain hx
  held := h.held
  records := h.records
  facts := by
    refine hF [⟨i, x, w.st⟩] w.log h.facts fun e he => ?_
    rw [List.mem_singleton.1 he]
    exact ⟨⟨h.held, fun _ _ _ hact => hx.posts hact, fun _ => hx.queues⟩, fun _ => hi⟩
  free := by
    intro e he hf
    rcases List.mem_cons.1 he with rfl | he
    · exact absurd (h.held.symm.trans hf) (by decide)
    · exact h.free e he hf
  called := by
    obtain ⟨e, he, hc⟩ := h.called
    exact ⟨e, List.mem_cons_of_mem _ he, hc⟩
  only := by
    intro e he hf m' hact
    rcases List.mem_cons.1 he with rfl | he
    · rcases hi with hi | hi
      · rw [hi] at hact
        cases hact
      · rw [hi] at hact
        cases hact
    · exact h.only e he hf m' hact

/-- What nested calls leave. -/
theorem Within.beside (h : Within sha256 i m k F r w) (hF : Lasting i op a F) (hi : DInv sha256 w') (hg : Grows i w w')
    (hb : Beside w w') : Within sha256 i m k F r w' := by
  obtain ⟨l, hl, hq⟩ := hb.quiet h.held
  have hnew : ∀ e ∈ l, i < e.frame := by
    obtain ⟨-, l', hl', hf⟩ := hg
    have heq : l' = l := List.append_cancel_right (hl'.symm.trans hl)
    rwa [heq] at hf
  refine ⟨hi, hb.held.trans h.held, (hb.records h.held).trans h.records, ?_, ?_, ?_, ?_⟩
  · rw [hl]
    exact hF l w.log h.facts fun e he => ⟨hq e he, fun hf => absurd hf (hnew e he).ne'⟩
  · intro e he hf
    rw [hl] at he
    rcases List.mem_append.1 he with he | he
    · exact absurd ((hq e he).held.symm.trans hf) (by decide)
    · exact h.free e he hf
  · obtain ⟨e, he, hc⟩ := h.called
    exact ⟨e, hg.mem he, hc⟩
  · intro e he hf m' hact
    rw [hl] at he
    rcases List.mem_append.1 he with he | he
    · exact absurd hf (hnew e he).ne'
    · exact h.only e he hf m' hact

/-- An operation whose calls and answers owe nothing. -/
def Op.plain : Op → Bool
  | .comment .. | .queue .. => false
  | _ => true

theorem plain_call (h : op.plain = true) : Plain (.call op : DAct) := by
  cases op with
  | queue => cases h
  | _ => trivial

theorem plain_reply (h : op.plain = true) : Plain (.reply op a : DAct) := by
  cases op with
  | comment => cases h
  | _ => trivial

/-- **A plain call**, with what its answer leaves of the facts. -/
theorem Within.asking {Q : Except Exc Answer → DWorld → Prop} {F : Answer → List DEntry → Prop}
    (h : Within sha256 i m k (fun log => ∀ a, F a log) r w) (hF : ∀ a, Lasting i op a (F a))
    (hop : op.plain = true) (hq : ∀ a w', op.answers a = true →
      Within sha256 i m k (fun log => F a log ∧ ∃ e ∈ log, e.frame = i ∧ e.act = .reply op a ∧ e.st = w'.st) r w' →
      Q (.ok a) w') :
    Holds (deskContract sha256) ctx i (Prog.ask op) Q w := by
  rw [holds_ask]
  have hcall : ∀ a, Within sha256 i m k (F a) r (w.push i (.call op)) := by
    intro a
    exact (h.weaken fun hf => hf a).push (hF a) (plain_call hop) (.inl rfl)
  refine ⟨(hcall .done).inv, fun w' hi hg hb a ha => hq a _ ha ?_⟩
  have hreply := ((hcall a).beside (hF a) hi hg hb).push (hF a) (plain_reply hop) (.inr rfl)
  exact hreply.weaken fun hf => ⟨hf, _, List.mem_cons_self, rfl, rfl, rfl⟩

/-- **A plain call** that leaves the facts as they are. -/
theorem Within.ask {Q : Except Exc Answer → DWorld → Prop} (h : Within sha256 i m k F r w)
    (hF : ∀ a, Lasting i op a F) (hop : op.plain = true) (hq : ∀ a w', op.answers a = true →
      Within sha256 i m k (fun log => F log ∧ ∃ e ∈ log, e.frame = i ∧ e.act = .reply op a ∧ e.st = w'.st) r w' →
      Q (.ok a) w') :
    Holds (deskContract sha256) ctx i (Prog.ask op) Q w :=
  Within.asking (F := fun _ => F) (h.weaken fun hf _ => hf) hF hop hq

theorem Within.survives (hF : ∀ a, Lasting i op a F) (hop : op.plain = true) :
    Survives (deskContract sha256) ctx i (Within sha256 i m k F r) op := by
  intro w h
  have hcall := h.push (hF .done) (plain_call hop) (.inl rfl)
  refine ⟨hcall.inv, fun w' hi hg hb a _ => ?_⟩
  exact (hcall.beside (hF a) hi hg hb).push (hF a) (plain_reply hop) (.inr rfl)

/-! ## Comments -/

/-- An interruption of the activation. -/
def Interrupted (i : ℕ) (log : List DEntry) : Prop :=
  ∃ e ∈ log, e.frame = i ∧ ∃ op a, e.act = .reply op a ∧ a.fault = some .interrupt

/-- How a body under the lease raises. -/
def Raises (i : ℕ) (x : Exc) (log : List DEntry) : Prop :=
  (∃ reason, x = .hold reason) ∨ (x = .fault .interrupt ∧ Interrupted i log)

/-- **`_carrying`.** -/
theorem holds_carrying {issue marker : Text} {Q : Except Exc (List Comment) → DWorld → Prop}
    (h : Within sha256 i m k F r w) (hF : ∀ a, Lasting i .export a F)
    (hok : ∀ w', Within sha256 i m k (fun log => F log ∧
      ∃ e ∈ log, e.frame = i ∧ e.act = .reply .export .done ∧ e.st = w'.st) r w' →
      Q (.ok (carried w'.st.comments issue marker)) w')
    (herr : ∀ x w', Within sha256 i m k F r w' → Raises i x w'.log → Q (.error x) w') :
    Holds (deskContract sha256) ctx i (carrying issue marker) Q w := by
  unfold carrying
  rw [holds_bind]
  refine h.ask hF rfl fun a w' ha h' => ?_
  have hkeep := h'.weaken And.left
  cases a with
  | done => exact hok w' h'
  | stored id f => cases ha
  | queued id => cases ha
  | raised f =>
    cases f with
    | interrupt =>
      obtain ⟨e, he, hf, hact, -⟩ := h'.facts.2
      exact herr _ w' hkeep (.inr ⟨rfl, e, he, hf, _, _, hact, rfl⟩)
    | refused e => exact herr _ w' hkeep (.inl ⟨_, rfl⟩)
    | exception e => exact herr _ w' hkeep (.inl ⟨_, rfl⟩)

/-- A marked body names its operation. -/
theorem text_operation {body body' operationId operationId' : Text} (h : isOperationId operationId = true)
    (h' : isOperationId operationId' = true) (heq : text body operationId = text body' operationId') :
    operationId = operationId' := by
  have hlast := congrArg lastLine heq
  rw [lastLine_text h, lastLine_text h'] at hlast
  exact List.append_cancel_left hlast

/-- **A comment is stored**, the first of its operation. -/
theorem Within.store {issue operationId body id : Text} {f : Option Fault}
    (h : Within sha256 i m k (fun log => ∀ e ∈ log, ¬ Posts issue operationId e) r w)
    (hid : isOperationId operationId = true) :
    Within sha256 i m k (Stored issue (text body operationId)) r
      ((w.push i (.reply (.comment issue (text body operationId)) (.stored id f))).put
        { w.st with comments := w.st.comments ++ [⟨id, issue, text body operationId⟩] }) := by
  have hposted : ∀ issue' operationId', Posts issue' operationId'
      ⟨i, .reply (.comment issue (text body operationId)) (.stored id f), w.st⟩ →
      ∀ e' ∈ w.log, ¬ Posts issue' operationId' e' := by
    rintro issue' operationId' ⟨hid', body', a, hact, -⟩
    have hop := (Act.reply.inj hact).1
    obtain ⟨rfl, ht⟩ := Op.comment.inj hop
    rw [← text_operation hid hid' ht]
    exact h.facts
  have hlawful : Lawful sha256 ⟨i, .reply (.comment issue (text body operationId)) (.stored id f), w.st⟩ w.log :=
    ⟨hposted, fun _ _ _ hx => (by cases hx), fun _ hx => (by cases hx), fun _ hx => (by cases hx)⟩
  have hclear : ∀ operationId', Clear operationId' w.log → Clear operationId'
      (w.push i (.reply (.comment issue (text body operationId)) (.stored id f))).log := by
    intro operationId' hc
    refine hc.append (l := [_]) fun e he => ?_
    rw [List.mem_singleton.1 he]
    rintro ⟨thread, t, hx⟩
    cases hx
  refine ⟨⟨⟨hlawful, h.inv.lawful⟩, ?_, fun o hp => hclear o (h.inv.clear o hp), ?_⟩, h.held, h.records,
    ⟨_, List.mem_cons_self, _, rfl, rfl⟩, ?_, ?_, ?_⟩
  · intro e he issue' t' a hact hst
    rcases List.mem_cons.1 he with rfl | he
    · obtain ⟨rfl, rfl⟩ := Op.comment.inj (Act.reply.inj hact).1
      exact ⟨_, List.mem_append_right _ List.mem_cons_self, rfl, rfl⟩
    · obtain ⟨c, hc, hcc⟩ := h.inv.posted e he issue' t' a hact hst
      exact ⟨c, List.mem_append_left _ hc, hcc⟩
  · intro e he hf o
    rcases List.mem_cons.1 he with rfl | he
    · exact .same _
    · exact h.inv.stable e he hf o
  · intro e he hf o
    rcases List.mem_cons.1 he with rfl | he
    · exact absurd (h.held.symm.trans hf) (by decide)
    · exact h.free e he hf o
  · obtain ⟨e, he, hc⟩ := h.called
    exact ⟨e, List.mem_cons_of_mem _ he, hc⟩
  · intro e he hf m' hact
    rcases List.mem_cons.1 he with rfl | he
    · cases hact
    · exact h.only e he hf m' hact

/-- What `_write` makes of the failure of a call. -/
def failing : Option Fault → CM (Option Text)
  | none => pure none
  | some .interrupt => throw (.fault .interrupt)
  | some (.refused e) | some (.exception e) => pure (some (e.name ++ ": ".toList ++ e.text))

/-- **`_write`**: where it fails to store a comment, none is stored yet. -/
theorem holds_posted {issue operationId body : Text} {Q : Except Exc (Option Text) → DWorld → Prop}
    (h : Within sha256 i m k (fun log => ∀ e ∈ log, ¬ Posts issue operationId e) r w)
    (hid : isOperationId operationId = true)
    (hok : ∀ res w', Within sha256 i m k (fun log => ∀ e ∈ log, ¬ Posts issue operationId e) r w' ∨
      Within sha256 i m k (Stored issue (text body operationId)) r w' → Q (.ok res) w')
    (herr : ∀ x w', Within sha256 i m k (fun _ => True) r w' → Raises i x w'.log → Q (.error x) w') :
    Holds (deskContract sha256) ctx i (write issue (text body operationId)) Q w := by
  have hlast : ∀ a, Lasting i (.comment issue (text body operationId)) a _ := fun _ => lasting_unposted issue operationId
  have hcall : Within sha256 i m k (fun log => ∀ e ∈ log, ¬ Posts issue operationId e) r
      (w.push i (.call (.comment issue (text body operationId)))) :=
    h.push (hlast .done) trivial (.inl rfl)
  unfold write
  rw [holds_bind, holds_ask]
  refine ⟨hcall.inv, fun w' hi hg hb a ha => ?_⟩
  have h' := hcall.beside (hlast a) hi hg hb
  have hinterrupt : ∀ a : Answer, a.fault = some .interrupt →
      Interrupted i (w'.push i (.reply (.comment issue (text body operationId)) a)).log :=
    fun a hf => ⟨_, List.mem_cons_self, rfl, _, a, rfl, hf⟩
  have hend : ∀ {w'' : DWorld}, w''.log = (w'.push i (.reply (.comment issue (text body operationId)) a)).log →
      (Within sha256 i m k (fun log => ∀ e ∈ log, ¬ Posts issue operationId e) r w'' ∨
        Within sha256 i m k (Stored issue (text body operationId)) r w'') →
      Holds (deskContract sha256) ctx i (failing a.fault) Q w'' := by
    intro w'' hlog hw
    cases hf : a.fault with
    | none => exact hok _ _ hw
    | some f =>
      cases f with
      | refused e => exact hok _ _ hw
      | exception e => exact hok _ _ hw
      | interrupt =>
        refine herr _ _ ?_ (.inr ⟨rfl, hlog ▸ hinterrupt a hf⟩)
        rcases hw with hw | hw
        · exact hw.weaken fun _ => trivial
        · exact hw.weaken fun _ => trivial
  dsimp only
  rw [holds_bind]
  cases a with
  | stored id f => exact hend rfl (.inr (h'.store hid))
  | done => exact hend rfl (.inl (h'.push (hlast _) rfl (.inr rfl)))
  | raised f => exact hend rfl (.inl (h'.push (hlast _) rfl (.inr rfl)))
  | queued id => cases ha

/-- A stored comment is found. -/
theorem Within.found {issue operationId body : Text} (h : Within sha256 i m k F r w)
    (hs : Stored issue (text body operationId) w.log) (hid : isOperationId operationId = true) :
    carried w.st.comments issue (label ++ operationId) ≠ [] := by
  obtain ⟨e, he, a, hact, hst⟩ := hs
  obtain ⟨c, hc, hissue, hbody⟩ := h.inv.posted e he issue _ a hact hst
  have hmark : label ++ operationId ∈ splitlines c.body := by
    rw [hbody]
    exact marker_mem hid
  intro hnil
  have hmem : c ∈ carried w.st.comments issue (label ++ operationId) :=
    List.mem_filter.2 ⟨hc, by simp [hissue, hmark]⟩
  rw [hnil] at hmem
  exact absurd hmem (by simp)

/-- No comment of an operation was stored where none is found. -/
theorem Within.unposted {issue operationId : Text} (h : Within sha256 i m k F r w)
    (hf : carried w.st.comments issue (label ++ operationId) = []) :
    Within sha256 i m k (fun log => ∀ e ∈ log, ¬ Posts issue operationId e) r w := by
  refine h.weaken fun _ e he hp => ?_
  obtain ⟨hid, body, a, hact, hst⟩ := hp
  exact h.found ⟨e, he, a, hact, hst⟩ hid hf

/-- What `publish` ends with: what the store shows, or a raise. -/
def Published (i : ℕ) (issue marker : Text) : Except Exc (List Comment × List Text) → DWorld → Prop
  | .ok v, w => v.1 = carried w.st.comments issue marker
  | .error x, w => Raises i x w.log

/-- **`ensure_comment`, under the lease.** -/
theorem holds_publish {issue operationId body : Text} (h : Within sha256 i m k (fun _ => True) r w)
    (hid : isOperationId operationId = true) :
    Holds (deskContract sha256) ctx i (publish issue (text body operationId) (label ++ operationId))
      (fun res w' => Within sha256 i m k (fun _ => True) r w' ∧ Published i issue (label ++ operationId) res w') w := by
  have herr : ∀ x w', Within sha256 i m k (fun _ => True) r w' → Raises i x w'.log →
      Within sha256 i m k (fun _ => True) r w' ∧ Published i issue (label ++ operationId) (.error x) w' :=
    fun x w' hw hx => ⟨hw, hx⟩
  unfold publish
  rw [holds_bind]
  refine holds_carrying h (fun _ => lasting_true) (fun w₁ h₁ => ?_) herr
  dsimp only
  split
  · exact ⟨h₁.weaken fun _ => trivial, rfl⟩
  rename_i hempty
  have hunposted := h₁.unposted (not_not.1 hempty)
  rw [holds_bind]
  refine holds_posted hunposted hid (fun failure w₂ h₂ => ?_) herr
  dsimp only
  rw [holds_bind]
  have h₂' : Within sha256 i m k (fun _ => True) r w₂ := by
    rcases h₂ with h₂ | h₂
    · exact h₂.weaken fun _ => trivial
    · exact h₂.weaken fun _ => trivial
  refine holds_carrying h₂' (fun _ => lasting_true) (fun w₃ h₃ => ?_) herr
  have h₃' : Within sha256 i m k (fun _ => True) r w₃ := h₃.weaken fun _ => trivial
  dsimp only
  split
  · -- a reported failure, and the store shows no comment: none was stored
    rename_i f hnone
    rw [holds_bind]
    refine holds_posted (h₃.unposted hnone) hid (fun retry w₄ h₄ => ?_) herr
    dsimp only
    rw [holds_bind]
    have h₄' : Within sha256 i m k (fun _ => True) r w₄ := by
      rcases h₄ with h₄ | h₄
      · exact h₄.weaken fun _ => trivial
      · exact h₄.weaken fun _ => trivial
    refine holds_carrying h₄' (fun _ => lasting_true) (fun w₅ h₅ => ?_) herr
    exact ⟨h₅.weaken fun _ => trivial, rfl⟩
  · exact ⟨h₃', rfl⟩

/-! ## The lease -/

/-- Activation `i`, invoked in `w₀`, has not taken the lease yet. -/
structure Before (sha256 : Text → Text) (i : ℕ) (m : Method) (w₀ w : DWorld) : Prop where
  inv : DInv sha256 w
  beside : Beside w₀ w
  called : ∃ e ∈ w.log, e.frame = i ∧ e.act = .invoke m
  early : ∀ e ∈ w.log, e.frame = i → e.act = .invoke m ∨ e.act = .call .lock ∨ ∃ a, e.act = .reply .lock a

/-- Activation `i` has given the lease back. -/
structure After (sha256 : Text → Text) (i : ℕ) (m : Method) (w₀ w : DWorld) : Prop where
  inv : DInv sha256 w
  beside : Beside w₀ w
  only : ∀ e ∈ w.log, e.frame = i → ∀ m', e.act = .invoke m' → m' = m

/-- The lease is refused, or the lock file cannot be had. -/
def Refuses (i : ℕ) (x : Exc) (log : List DEntry) : Prop :=
  (x = .conflict ∧ ∃ e ∈ log, e.frame = i ∧ e.act = .reply .lock .done ∧ e.st.held = true) ∨
    ∃ f, x = .fault f ∧ ∃ e ∈ log, e.frame = i ∧ e.act = .reply .lock (.raised f)

theorem Before.only {w₀ : DWorld} (h : Before sha256 i m w₀ w) :
    ∀ e ∈ w.log, e.frame = i → ∀ m', e.act = .invoke m' → m' = m := by
  intro e he hf m' hact
  rcases h.early e he hf with hx | hx | ⟨a, hx⟩
  · rw [hact] at hx
    exact Act.invoke.inj hx
  · rw [hact] at hx
    cases hx
  · rw [hact] at hx
    cases hx

theorem Before.after {w₀ : DWorld} (h : Before sha256 i m w₀ w) : After sha256 i m w₀ w :=
  ⟨h.inv, h.beside, h.only⟩

/-- Plain entries while the lease is held elsewhere. -/
theorem Beside.push (h : Beside w w') (hx : Plain x) : Beside w (w'.push i x) := by
  refine ⟨h.held, h.records, fun hw => ?_⟩
  obtain ⟨l, hl, hq⟩ := h.quiet hw
  refine ⟨⟨i, x, w'.st⟩ :: l, by rw [World.push_log, hl, List.cons_append], fun e he => ?_⟩
  rcases List.mem_cons.1 he with rfl | he
  · exact ⟨h.held.trans hw, fun _ _ _ hact => hx.posts hact, fun _ => hx.queues⟩
  · exact hq e he

theorem Before.push {w₀ : DWorld} (h : Before sha256 i m w₀ w) (hx : Plain x)
    (he : x = .call .lock ∨ ∃ a, x = .reply .lock a) : Before sha256 i m w₀ (w.push i x) := by
  refine ⟨h.inv.plain hx, h.beside.push hx, ?_, ?_⟩
  · obtain ⟨e, hmem, hc⟩ := h.called
    exact ⟨e, List.mem_cons_of_mem _ hmem, hc⟩
  · intro e hmem hf
    rcases List.mem_cons.1 hmem with rfl | hmem
    · exact .inr he
    · exact h.early e hmem hf

theorem Before.grows {w₀ : DWorld} (h : Before sha256 i m w₀ w) (hi : DInv sha256 w') (hg : Grows i w w')
    (hb : Beside w w') : Before sha256 i m w₀ w' := by
  refine ⟨hi, h.beside.trans hb, ?_, ?_⟩
  · obtain ⟨e, hmem, hc⟩ := h.called
    exact ⟨e, hg.mem hmem, hc⟩
  · obtain ⟨-, l, hl, hnew⟩ := hg
    intro e hmem hf
    rw [hl] at hmem
    rcases List.mem_append.1 hmem with hmem | hmem
    · exact absurd hf (hnew e hmem).ne'
    · exact h.early e hmem hf

/-- **The rule of the lease.** What runs under it starts from the records `k` that were left. -/
theorem holds_lease {w₀ : DWorld} {p : CM α} {P : (Text → Slot Delivery) → Except Exc α → DWorld → Prop}
    {Q : Except Exc α → DWorld → Prop} (h : Before sha256 i m w₀ w)
    (hp : ∀ w' k, Within sha256 i m k (fun log => ∀ e ∈ log, e.frame = i →
        e.act = .invoke m ∨ e.act = .call .lock ∨ ∃ a, e.act = .reply .lock a) k w' →
      Holds (deskContract sha256) ctx i p
        (fun res w'' => (∃ r', Within sha256 i m k (fun _ => True) r' w'') ∧ P k res w'') w')
    (hend : ∀ k r' res w', Within sha256 i m k (fun _ => True) r' w' → P k res w' →
      After sha256 i m w₀ (w'.put { w'.st with held := false }) → Q res (w'.put { w'.st with held := false }))
    (herr : ∀ x w', Before sha256 i m w₀ w' → Refuses i x w'.log → Q (.error x) w') :
    Holds (deskContract sha256) ctx i (lease p) Q w := by
  unfold lease call
  rw [holds_bind, holds_bind, holds_ask]
  have hcall := h.push (x := .call .lock) trivial (.inl rfl)
  refine ⟨hcall.inv, fun w' hi hg hb a ha => ?_⟩
  have h' := (hcall.grows hi hg hb).push (x := .reply .lock a) trivial (.inr ⟨a, rfl⟩)
  cases a with
  | stored id f => cases ha
  | queued id => cases ha
  | raised f => exact herr _ _ h' (.inr ⟨f, rfl, _, List.mem_cons_self, rfl, rfl⟩)
  | done =>
    dsimp only [Answer.fault]
    rw [holds_pure]
    dsimp only
    rw [holds_bind, holds_read]
    dsimp only
    split
    · rename_i hheld
      exact herr _ _ h' (.inl ⟨rfl, _, List.mem_cons_self, rfl, rfl, hheld⟩)
    rename_i hfree
    have hfree : w'.st.held = false := by simpa using hfree
    have hw₀ : w₀.st.held = false := h'.beside.held.symm.trans hfree
    rw [holds_bind, holds_write]
    dsimp only
    rw [holds_lastly]
    refine (hp _ w'.st.records ⟨h'.inv.put (s := { w'.st with held := true }) (fun c hc => hc) h'.inv.clear h'.inv.stable, rfl, rfl, h'.early, ?_,
      h'.called, h'.only⟩).mono fun res w'' hres => ?_
    · intro e he hf operationId
      exact h'.inv.stable e he hf operationId
    · obtain ⟨⟨r', hwithin⟩, hP⟩ := hres
      rw [holds_write]
      refine hend _ _ _ _ hwithin hP ⟨?_, ⟨hw₀.symm, fun hc => ?_, fun hc => ?_⟩, hwithin.only⟩
      · exact hwithin.inv.put (fun c hc => hc) hwithin.inv.clear hwithin.inv.stable
      · exact absurd (hw₀.symm.trans hc) (by decide)
      · exact absurd (hw₀.symm.trans hc) (by decide)

/-! ## `ensure_comment` -/

/-- `_marked`. -/
theorem holds_marked {body operationId : Text} {Q : Except Exc Text → DWorld → Prop}
    (hok : isOperationId operationId = true → Q (.ok (text body operationId)) w)
    (herr : Q (.error (.hold .invalidInput)) w) :
    Holds (deskContract sha256) ctx i (marked body operationId) Q w := by
  unfold marked operation
  dsimp only
  split
  · exact herr
  split
  · rename_i hid
    exact hok hid
  · exact herr

/-- A return that owes what its call owes. -/
theorem After.ret {w₀ : DWorld} {res : Except Exc Value} (h : After sha256 i m w₀ w)
    (hensure : ∀ issue operationId body, m = .ensure issue operationId body →
      OwesComment sha256 i issue operationId body w.st.comments w.log res)
    (hdeliver : ∀ p, m = .deliver p → ∀ e ∈ w.log, e.st.held = false →
      OwesReceipt i p (e.st.records p.operationId) w.log res) :
    DInv sha256 (w.push i (.ret res)) ∧ Beside w₀ (w.push i (.ret res)) := by
  have hlawful : Lawful sha256 ⟨i, .ret res, w.st⟩ w.log := by
    refine ⟨fun issue operationId hp => ?_, fun operationId thread t hx => (by cases hx), ?_, ?_⟩
    · obtain ⟨-, body, a, hact, -⟩ := hp
      cases hact
    · intro res' hres e₀ he₀ hf issue operationId body hact
      cases hres
      exact hensure issue operationId body (h.only e₀ he₀ hf _ hact).symm
    · intro res' hres e₀ he₀ hf p hact e₁ he₁ hfree
      cases hres
      exact hdeliver p (h.only e₀ he₀ hf _ hact).symm e₁ he₁ hfree
  refine ⟨h.inv.push hlawful (fun _ _ _ hx => by cases hx) fun o hq => ?_, h.beside.held, h.beside.records, ?_⟩
  · obtain ⟨thread, t, hx⟩ := hq
    cases hx
  · intro hw
    obtain ⟨l, hl, hq⟩ := h.beside.quiet hw
    refine ⟨⟨i, .ret res, w.st⟩ :: l, by rw [World.push_log, hl, List.cons_append], fun e he => ?_⟩
    rcases List.mem_cons.1 he with rfl | he
    · refine ⟨h.beside.held.trans hw, fun _ _ _ hx => (by cases hx), fun o hqe => ?_⟩
      obtain ⟨thread, t, hx⟩ := hqe
      cases hx
    · exact hq e he

/-- **`ensure_comment` keeps the contract.** -/
theorem holds_ensure {w₀ : DWorld} {issue operationId body : Text}
    (h : Before sha256 i (.ensure issue operationId body) w₀ w) :
    Holds (deskContract sha256) ctx i (.comment <$> ensureComment sha256 issue operationId body)
      (fun res w' => DInv sha256 (w'.push i (.ret res)) ∧ Beside w₀ (w'.push i (.ret res))) w := by
  have hend : ∀ {w' : DWorld} {res : Except Exc Value}, After sha256 i (.ensure issue operationId body) w₀ w' →
      OwesComment sha256 i issue operationId body w'.st.comments w'.log res →
      DInv sha256 (w'.push i (.ret res)) ∧ Beside w₀ (w'.push i (.ret res)) := by
    intro w' res ha ho
    refine ha.ret (fun _ _ _ hm => ?_) fun p hm => by cases hm
    cases hm
    exact ho
  have hhold : ∀ {w' : DWorld} {reason : Reason}, After sha256 i (.ensure issue operationId body) w₀ w' →
      DInv sha256 (w'.push i (.ret (.error (.hold reason)))) ∧ Beside w₀ (w'.push i (.ret (.error (.hold reason)))) :=
    fun ha => hend ha (.inl ⟨_, rfl⟩)
  show Holds _ ctx i (ensureComment sha256 issue operationId body >>= fun v => pure (Value.comment v)) _ w
  rw [holds_bind]
  unfold ensureComment
  rw [holds_bind]
  refine holds_marked (fun hid => ?_) (hhold h.after)
  dsimp only
  rw [holds_bind, lastLine_text hid]
  refine holds_lease h (P := fun _ res w' => Published i issue (label ++ operationId) res w')
    (fun w' k h' => (holds_publish (h'.weaken fun _ => trivial) hid).mono fun res w'' hr => ⟨⟨_, hr.1⟩, hr.2⟩)
    (fun k r' res w' _ hpub ha => ?_) fun x w' hb hx => ?_
  · cases res with
    | error x =>
      refine hend ha ?_
      rcases hpub with hx | ⟨rfl, hx⟩
      · exact .inl hx
      · exact .inr (.inr (.inr ⟨rfl, hx⟩))
    | ok v =>
      obtain ⟨found, failures⟩ := v
      have hfound : found = carried w'.st.comments issue (label ++ operationId) := hpub
      dsimp only
      split
      · rename_i comment
        split
        · exact hhold ha
        · rename_i hbody
          exact hend ha ⟨comment, failures, rfl, not_not.1 hbody, hfound.symm⟩
      · exact hhold ha
  · refine hend hb.after ?_
    rcases hx with hx | hx
    · exact .inr (.inl hx)
    · exact .inr (.inr (.inl hx))

end Communication

end Arhugula
