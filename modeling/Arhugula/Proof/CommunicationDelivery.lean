import Arhugula.Proof.CommunicationComments

/-!
# Pointers are queued once

`holds_record` is the rule of the saves of a delivery: a record from which one may queue may become what the
source makes of it. `holds_deliver`: `deliver_pointer` keeps the contract.
-/

namespace Arhugula

namespace Communication

open Reentrant Durable Strings

variable {sha256 : Text → Text} {w w' : DWorld} {log l : List DEntry} {e : DEntry} {i : ℕ} {x : DAct}
  {ctx : List (ℕ × Op)} {op : Op} {a : Answer} {m : Method} {k r : Text → Slot Delivery}
  {F G : List DEntry → Prop} {α : Type} {p : Pointer} {s s' : Slot Delivery} {v : Delivery}

/-! ## What is owed to a record -/

/-- The call did not get as far as the record. -/
theorem OwesReceipt.unseen {x : Exc} (hq : ¬ Queued i p.operationId log) (hs : ¬ Saw i p.operationId log) :
    OwesReceipt i p s log (.error x) := by
  have hback : HoldsBack i p.operationId log (.error x) :=
    ⟨hq, fun v hv => (by cases hv), fun h => absurd h hs⟩
  refine ⟨fun _ _ _ => hback, fun _ id _ _ _ => ?_, fun _ _ _ => hback, fun _ => hback⟩
  exact ⟨hq, fun v hv => (by cases hv), fun h => absurd h hs⟩

/-- From this record one may queue. -/
def Open (p : Pointer) (s : Slot Delivery) : Prop :=
  s = .absent ∨ ∃ d, s = .holding d ∧ d.intent = p.intent ∧ d.state = .commentVerified

theorem Open.pending (h : Open p s) : Pending s := by
  rcases h with rfl | ⟨d, rfl, -, hd⟩
  · trivial
  · exact hd

/-- Nothing is owed to a record from which one may queue. -/
theorem Open.owes (h : Open p s) (res : Except Exc Value) : OwesReceipt i p s log res := by
  rcases h with rfl | ⟨d, rfl, hi, hd⟩
  · exact ⟨fun _ hx => (by cases hx), fun _ _ hx => (by cases hx), fun _ hx => (by cases hx), fun hx => by cases hx⟩
  · refine ⟨fun d' hx hne => ?_, fun d' id hx _ hst => ?_, fun d' hx hst => ?_, fun hx => by cases hx⟩
    · cases hx
      exact absurd hi hne
    · cases hx
      rw [hd] at hst
      cases hst
    · cases hx
      rw [hd] at hst
      rcases hst with hst | hst
      · cases hst
      · cases hst

/-- What is owed to a record is owed to what it was left as before. -/
theorem OwesReceipt.earlier {res : Except Exc Value} (h : OwesReceipt i p s' log res) (hs : Later s s') :
    OwesReceipt i p s log res := by
  have hverified : ∀ {d : Delivery}, d.state = .commentVerified →
      (d.intent ≠ p.intent → HoldsBack i p.operationId log res) → OwesReceipt i p (.holding d) log res := by
    intro d hd hother
    refine ⟨fun d' hx => ?_, fun d' id hx _ hst => ?_, fun d' hx hst => ?_, fun hx => by cases hx⟩
    · cases hx
      exact hother
    · cases hx
      rw [hd] at hst
      cases hst
    · cases hx
      rw [hd] at hst
      rcases hst with hst | hst
      · cases hst
      · cases hst
  cases hs with
  | same => exact h
  | begun => exact Open.owes (.inl rfl) res
  | moved hd hi => exact hverified hd fun hne => h.other _ rfl (hi ▸ hne)
  | lost hd => exact hverified hd fun _ => h.uncertain rfl

/-! ## The checks -/

/-- The comment was found as claimed. -/
def CommentSeen (sha256 : Text → Text) (i : ℕ) (p : Pointer) (log : List DEntry) : Prop :=
  ∃ e ∈ log, e.frame = i ∧ e.act = .reply .export .done ∧ isStored sha256 p.comment e.st.comments = true

/-- The routing was found as claimed. -/
def RoutingSeen (i : ℕ) (p : Pointer) (log : List DEntry) : Prop :=
  ∃ e ∈ log, e.frame = i ∧ e.act = .reply .routing .done ∧ IsRouted p.recipient e.st.control

/-- **`stored`.** -/
theorem holds_stored {Q : Except Exc Unit → DWorld → Prop} (h : Within sha256 i m k F r w)
    (hF : ∀ a, Lasting i .export a F)
    (hok : ∀ w', Within sha256 i m k (fun log => F log ∧ CommentSeen sha256 i p log) r w' → Q (.ok ()) w')
    (herr : ∀ x w', Within sha256 i m k F r w' → Q (.error x) w') :
    Holds (deskContract sha256) ctx i (stored sha256 p.comment) Q w := by
  unfold stored operation
  rw [holds_bind]
  split
  swap
  · exact herr _ w h
  rw [holds_pure]
  dsimp only
  rw [holds_bind]
  refine holds_carrying h hF (fun w' h' => ?_) fun x w' h' _ => herr x w' h'
  dsimp only
  split
  · exact herr _ w' (h'.weaken And.left)
  · rename_i hmatch
    refine hok w' (h'.weaken fun hf => ⟨hf.1, ?_⟩)
    obtain ⟨e, he, hi, hact, hst⟩ := hf.2
    refine ⟨e, he, hi, hact, ?_⟩
    rw [hst]
    exact decide_eq_true (not_not.1 hmatch)

/-- **`_admit`.** -/
theorem holds_admission {Q : Except Exc Unit → DWorld → Prop} (h : Within sha256 i m k F r w)
    (hF : ∀ a, Lasting i .routing a F)
    (hok : ∀ w', Within sha256 i m k (fun log => F log ∧ RoutingSeen i p log) r w' → Q (.ok ()) w')
    (herr : ∀ x w', Within sha256 i m k F r w' → Q (.error x) w') :
    Holds (deskContract sha256) ctx i (admission p.recipient) Q w := by
  unfold admission routed
  rw [holds_bind, holds_bind]
  refine h.ask hF rfl fun a w' ha h' => ?_
  have hkeep := h'.weaken And.left
  dsimp only
  split
  · exact herr _ w' hkeep
  · exact herr _ w' hkeep
  · exact herr _ w' hkeep
  rename_i hfault
  have hdone : a = .done := by
    cases a with
    | done => rfl
    | raised f => cases hfault
    | stored id f => cases ha
    | queued id => cases ha
  subst hdone
  rw [holds_bind, holds_read]
  dsimp only
  split
  · exact herr _ w' hkeep
  rename_i control hcontrol
  split
  · exact herr _ w' hkeep
  rename_i hpaused
  split
  · exact herr _ w' hkeep
  split
  swap
  · exact herr _ w' hkeep
  rename_i row hrows
  split
  swap
  · exact herr _ w' hkeep
  rename_i hsession
  rw [holds_pure]
  dsimp only
  split
  · exact herr _ w' hkeep
  rename_i kind hkind
  split
  · exact herr _ w' hkeep
  rename_i hcodex
  refine hok w' (h'.weaken fun hf => ⟨hf.1, ?_⟩)
  obtain ⟨e, he, hi, hact, hst⟩ := hf.2
  refine ⟨e, he, hi, hact, control, by rw [hst, hcontrol], by simpa using hpaused, row, hrows, hsession, ?_⟩
  rw [hkind, not_not.1 hcodex]

/-- **`_intent`**: the record as it was left. -/
theorem holds_recorded {o : Text} {Q : Except Exc (Option Delivery) → DWorld → Prop}
    (h : Within sha256 i m k (fun log => F log ∧ ¬ Saw i o log) k w) (hF : ∀ a, Lasting i (.record o) a F)
    (habsent : ∀ w', Within sha256 i m k F k w' → k o = .absent → Q (.ok none) w')
    (hholding : ∀ d w', Within sha256 i m k F k w' → k o = .holding d → Q (.ok (some d)) w')
    (huncertain : ∀ reason w', Within sha256 i m k F k w' → k o = .uncertain → Q (.error (.hold reason)) w')
    (herr : ∀ x w', Within sha256 i m k F k w' → ¬ Saw i o w'.log → Q (.error x) w') :
    Holds (deskContract sha256) ctx i (recorded o) Q w := by
  have hfacts : ∀ a, Lasting i (.record o) a fun log => F log ∧ (a ≠ .done → ¬ Saw i o log) := by
    intro a l log hf hl
    exact ⟨hF a l log hf.1 hl, fun hne => lasting_unseen (fun _ => hne) l log (hf.2 hne) hl⟩
  unfold recorded
  rw [holds_bind]
  refine Within.asking (F := fun a log => F log ∧ (a ≠ .done → ¬ Saw i o log))
    (h.weaken fun hf _ => ⟨hf.1, fun _ => hf.2⟩) hfacts rfl fun a w' ha h' => ?_
  have hkeep : Within sha256 i m k F k w' := h'.weaken fun hf => hf.1.1
  have hfault : ∀ x, a ≠ .done → Q (.error x) w' := fun x hne => herr x w' hkeep (h'.facts.1.2 hne)
  dsimp only
  split
  · rename_i hraised
    exact hfault _ fun hx => by rw [hx] at hraised; cases hraised
  · rename_i f hraised
    exact hfault _ fun hx => by rw [hx] at hraised; cases hraised
  · rw [holds_bind, holds_read]
    dsimp only
    rw [h'.records]
    cases hk : k o with
    | absent => exact habsent w' hkeep hk
    | holding d => exact hholding d w' hkeep hk
    | uncertain => exact huncertain _ w' hkeep hk

/-! ## The record -/

/-- **The rule of a save**: the record of an operation from which one may queue moves on. -/
theorem holds_record {Q : Except Exc Unit → DWorld → Prop}
    (h : Within sha256 i m k F (Function.update k p.operationId s) w)
    (hF : ∀ op a, op = .replace p.operationId v ∨ op = .sync p.operationId ∨ op = .quarantine p.operationId →
      Lasting i op a F)
    (hopen : Open p (k p.operationId)) (hv : v.intent = p.intent)
    (hclear : v.state = .commentVerified → ∀ log, F log → Clear p.operationId log)
    (hok : ∀ w', Within sha256 i m k F (Function.update k p.operationId (.holding v)) w' → Q (.ok ()) w')
    (herr : ∀ x s' w', Within sha256 i m k F (Function.update k p.operationId s') w' → Q (.error x) w') :
    Holds (deskContract sha256) ctx i ((saver p.operationId).save v) Q w := by
  have hput : ∀ {s₁ s₂ : Slot Delivery} {w' : DWorld}, Within sha256 i m k F (Function.update k p.operationId s₁) w' →
      s₂ = .holding v ∨ s₂ = .uncertain → Within sha256 i m k F (Function.update k p.operationId s₂)
        (w'.put ((saver p.operationId).put w'.st s₂)) := by
    intro s₁ s₂ w' hw hs₂
    have hrecords : ((saver p.operationId).put w'.st s₂).records = Function.update k p.operationId s₂ := by
      show Function.update w'.st.records p.operationId s₂ = _
      rw [hw.records, Function.update_idem]
    have hlater : Later (k p.operationId) s₂ := by
      rcases hopen with hk | ⟨d, hk, hi, hd⟩
      · rw [hk]
        exact .begun s₂
      · rw [hk]
        rcases hs₂ with rfl | rfl
        · exact .moved hd (hv.trans hi.symm)
        · exact .lost hd
    refine ⟨hw.inv.put (fun c hc => hc) ?_ ?_, hw.held, hrecords, hw.facts, hw.free, hw.called, hw.only⟩
    · intro o hpend
      rw [hrecords] at hpend
      by_cases ho : o = p.operationId
      · subst ho
        rw [Function.update_self] at hpend
        rcases hs₂ with rfl | rfl
        · exact hclear hpend w'.log hw.facts
        · exact hpend.elim
      · rw [Function.update_of_ne ho] at hpend
        refine hw.inv.clear o ?_
        rw [hw.records, Function.update_of_ne ho]
        exact hpend
    · intro e he hf o
      rw [hrecords]
      by_cases ho : o = p.operationId
      · subst ho
        rw [Function.update_self]
        exact (hw.free e he hf _).trans hlater
      · rw [Function.update_of_ne ho]
        exact hw.free e he hf o
  have hsave : Holds (deskContract sha256) ctx i ((saver p.operationId).save v) (fun res w' =>
      ∃ s', Within sha256 i m k F (Function.update k p.operationId s') w' ∧ s.Saves v res.isOk s') w := by
    refine Saver.holds_save (L := fun s w => Within sha256 i m k F (Function.update k p.operationId s) w) ?_ ?_ hput h
    · intro s₁ w₁ hw
      show w₁.st.records p.operationId = s₁
      rw [hw.records, Function.update_self]
    · intro s₁ op hop
      refine Within.survives (fun a => hF op a hop) ?_
      rcases hop with rfl | rfl | rfl
      · rfl
      · rfl
      · rfl
  refine hsave.mono fun res w' hres => ?_
  obtain ⟨s', hw', hs'⟩ := hres
  cases res with
  | ok u =>
    have hdone : s' = .holding v := by
      cases hs'
      rfl
    exact hok w' (hdone ▸ hw')
  | error x => exact herr x s' w' hw'

/-! ## The queue -/

/-- Each call of the queue for an operation raised `QueueFailed`, but those of activation `i`. -/
def ClearBut (i : ℕ) (operationId : Text) (log : List DEntry) : Prop :=
  ∀ e ∈ log, Queues operationId e → e.frame = i ∨ ∃ e' ∈ log, e'.frame = e.frame ∧
    ∃ thread t f, e'.act = .reply (.queue operationId thread t) (.raised (.refused f))

theorem lasting_clearBut (j : ℕ) (operationId : Text) : Lasting i op a (ClearBut j operationId) := by
  intro l log h hl e he hq
  rcases List.mem_append.1 he with he | he
  · exact absurd hq ((hl e he).1.queues operationId)
  · rcases h e he hq with hi | ⟨e', he', hr⟩
    · exact .inl hi
    · exact .inr ⟨e', List.mem_append_right l he', hr⟩

/-- A refusal clears the operation. -/
theorem ClearBut.clear {operationId thread t : Text} {f : Error} (h : ClearBut i operationId log)
    (hr : ∃ e ∈ log, e.frame = i ∧ e.act = .reply (.queue operationId thread t) (.raised (.refused f))) :
    Clear operationId log := by
  intro e he hq
  rcases h e he hq with hi | hrefused
  · obtain ⟨e', he', hi', hact⟩ := hr
    exact ⟨e', he', hi'.trans hi.symm, thread, t, f, hact⟩
  · exact hrefused

/-- What is known before the queue is called. -/
structure Ready (sha256 : Text → Text) (i : ℕ) (p : Pointer) (log : List DEntry) : Prop where
  clear : Clear p.operationId log
  comment : CommentSeen sha256 i p log
  routing : RoutingSeen i p log

theorem lasting_ready : Lasting i op a (Ready sha256 i p) := by
  intro l log h hl
  exact ⟨lasting_clear _ l log h.clear hl, lasting_mem _ l log h.comment hl, lasting_mem _ l log h.routing hl⟩

/-- **The call of the queue**: the intent is saved, all before it refused. -/
theorem Within.queue (h : Within sha256 i (.deliver p) k (Ready sha256 i p) r w)
    (hr : ¬ Pending (r p.operationId)) :
    Within sha256 i (.deliver p) k (ClearBut i p.operationId) r
      (w.push i (.call (.queue p.operationId p.recipient.sessionId p.text))) := by
  have hchecked : Checked sha256 i p.operationId p.recipient.sessionId p.text w.log :=
    ⟨p, h.called, rfl, rfl, rfl, h.facts.comment, h.facts.routing⟩
  have hlawful : Lawful sha256 ⟨i, .call (.queue p.operationId p.recipient.sessionId p.text), w.st⟩ w.log := by
    refine ⟨fun issue o hp => ?_, fun o thread t hx => ?_, fun res hx => (by cases hx), fun res hx => by cases hx⟩
    · obtain ⟨-, body, a, hact, -⟩ := hp
      cases hact
    · cases hx
      exact ⟨h.facts.clear, hchecked⟩
  have hpend : ∀ o, Queues o ⟨i, .call (.queue p.operationId p.recipient.sessionId p.text), w.st⟩ →
      ¬ Pending (w.st.records o) := by
    intro o hq
    obtain ⟨thread, t, hact⟩ := hq
    cases hact
    rw [h.records]
    exact hr
  refine ⟨h.inv.push hlawful (fun _ _ _ hx => by cases hx) hpend, h.held, h.records, ?_, ?_, ?_, ?_⟩
  · intro e he hq
    rcases List.mem_cons.1 he with rfl | he
    · exact .inl rfl
    · obtain ⟨e', he', hrest⟩ := h.facts.clear e he hq
      exact .inr ⟨e', List.mem_cons_of_mem _ he', hrest⟩
  · intro e he hf o
    rcases List.mem_cons.1 he with rfl | he
    · exact absurd (h.held.symm.trans hf) (by decide)
    · exact h.free e he hf o
  · obtain ⟨e, he, hc⟩ := h.called
    exact ⟨e, List.mem_cons_of_mem _ he, hc⟩
  · intro e he hf m' hact
    rcases List.mem_cons.1 he with rfl | he
    · cases hact
    · exact h.only e he hf m' hact

/-- What a body under the lease leaves, whatever is known. -/
def Leaves (sha256 : Text → Text) (i : ℕ) (m : Method) (k : Text → Slot Delivery) (w : DWorld) : Prop :=
  ∃ r', Within sha256 i m k (fun _ => True) r' w

theorem Within.leaves (h : Within sha256 i m k F r w) : Leaves sha256 i m k w := ⟨r, h.weaken fun _ => trivial⟩

/-- **The queue, once the intent is saved.** -/
theorem holds_enqueue (h : Within sha256 i (.deliver p) k (Ready sha256 i p)
      (Function.update k p.operationId (.holding { v with state := .queueIntended })) w)
    (hopen : Open p (k p.operationId)) (hv : v.intent = p.intent) :
    Holds (deskContract sha256) ctx i (enqueue p v) (fun _ w' => Leaves sha256 i (.deliver p) k w') w := by
  have hcall := h.queue (by
    rw [Function.update_self]
    exact fun hx => by cases hx)
  have hlast : ∀ {op : Op} {a : Answer}, Lasting i op a (ClearBut i p.operationId) := lasting_clearBut i _
  unfold enqueue
  rw [holds_bind, holds_ask]
  refine ⟨hcall.inv, fun w' hi hg hb a ha => ?_⟩
  have hreply := (@Within.beside _ _ _ i (.queue p.operationId p.recipient.sessionId p.text) a _ _ _ _ hcall hlast hi hg hb).push
    (x := .reply (.queue p.operationId p.recipient.sessionId p.text) a) hlast trivial (.inr rfl)
  have hgone : ∀ {F : List DEntry → Prop} {s' : Slot Delivery} {w'' : DWorld},
      Within sha256 i (.deliver p) k F (Function.update k p.operationId s') w'' →
      Leaves sha256 i (.deliver p) k w'' := fun hw => hw.leaves
  dsimp only
  cases a with
  | done => cases ha
  | stored id f => cases ha
  | queued id =>
    dsimp only
    rw [holds_bind]
    refine holds_record hreply (fun op a _ => hlast) hopen hv (fun hx => by cases hx) (fun w'' hw => ?_)
      fun x s' w'' hw => hgone hw
    exact hgone hw
  | raised f =>
    cases f with
    | interrupt => exact hgone hreply
    | exception e =>
      dsimp only [Answer.fault]
      rw [holds_bind]
      refine holds_record hreply (fun op a _ => hlast) hopen hv (fun hx => by cases hx) (fun w'' hw => ?_)
        fun x s' w'' hw => hgone hw
      exact hgone hw
    | refused e =>
      -- the refusal is in the log, the operation is clear again
      have hrefused : Within sha256 i (.deliver p) k (Clear p.operationId) _ _ :=
        hreply.weaken fun hf => ClearBut.clear hf ⟨_, List.mem_cons_self, rfl, rfl⟩
      dsimp only [Answer.fault]
      rw [holds_bind]
      refine holds_record hrefused (fun op a _ => lasting_clear _) hopen hv (fun _ _ hc => hc) (fun w'' hw => ?_)
        fun x s' w'' hw => hgone hw
      exact hgone hw

/-! ## `deliver_pointer` -/

/-- What a delivery owes to the record that it found. -/
def Owed (i : ℕ) (p : Pointer) (s : Slot Delivery) (log : List DEntry) (res : Except Exc Text) : Prop :=
  OwesReceipt i p s log (res.map fun id => .receipt ⟨p.comment, p.recipient.sessionId, id, p.text⟩)

/-- **The rest of the body**, from the record as it was left. -/
theorem holds_settle {p : Pointer} {prior : Delivery}
    (hw : Within sha256 i (.deliver p) k (fun log =>
      ¬ Queued i p.operationId log ∧ CommentSeen sha256 i p log ∧ RoutingSeen i p log) k w)
    (hprior : k p.operationId = .absent ∧ prior = ⟨p.intent, .commentVerified, []⟩ ∨ k p.operationId = .holding prior) :
    Holds (deskContract sha256) ctx i (if prior.intent ≠ p.intent then throw (.hold .invalidInput)
      else match prior.state with
      | .enqueued messageId => pure messageId
      | .commentVerified => do
        (saver p.operationId).save { prior with state := .queueIntended }
        enqueue p prior
      | _ => throw (.hold .publicationUncertain))
      (fun res w' => Leaves sha256 i (.deliver p) k w' ∧ Owed i p (k p.operationId) w'.log res) w := by
  have hback : ∀ reason, HoldsBack i p.operationId w.log (.error (.hold reason)) :=
    fun reason => ⟨hw.facts.1, fun v hv => (by cases hv), fun _ => ⟨reason, rfl⟩⟩
  split
  · rename_i hother
    have hk : k p.operationId = .holding prior := by
      rcases hprior with ⟨-, rfl⟩ | hk
      · exact absurd rfl hother
      · exact hk
    refine ⟨hw.leaves, fun d hd _ => hback _, fun d id hd hi _ => ?_, fun d hd _ => hback _, fun hd => hback _⟩
    rw [hk] at hd
    cases hd
    exact absurd hi hother
  rename_i hsame
  have hintent : prior.intent = p.intent := not_not.1 hsame
  cases hstate : prior.state with
  | enqueued messageId =>
    have hk : k p.operationId = .holding prior := by
      rcases hprior with ⟨-, rfl⟩ | hk
      · cases hstate
      · exact hk
    refine ⟨hw.leaves, fun d hd hne => ?_, fun d id hd _ hst => ?_, fun d hd hst => ?_, fun hd => ?_⟩
    · rw [hk] at hd
      cases hd
      exact absurd hintent hne
    · rw [hk] at hd
      cases hd
      rw [hstate] at hst
      cases hst
      exact ⟨hw.facts.1, fun v hv => (by cases hv; rfl), fun _ => rfl⟩
    · rw [hk] at hd
      cases hd
      rw [hstate] at hst
      rcases hst with hst | hst
      · cases hst
      · cases hst
    · rw [hk] at hd
      cases hd
  | commentVerified =>
    have hopen : Open p (k p.operationId) := by
      rcases hprior with ⟨hk, -⟩ | hk
      · exact .inl hk
      · exact .inr ⟨prior, hk, hintent, hstate⟩
    have hready : Within sha256 i (.deliver p) k (Ready sha256 i p)
        (Function.update k p.operationId (k p.operationId)) w := by
      rw [Function.update_eq_self]
      refine hw.weaken fun hf => ⟨hw.inv.clear _ ?_, hf.2.1, hf.2.2⟩
      rw [hw.records]
      exact hopen.pending
    have hend : ∀ {res : Except Exc Text} {w'' : DWorld}, Leaves sha256 i (.deliver p) k w'' →
        Leaves sha256 i (.deliver p) k w'' ∧ Owed i p (k p.operationId) w''.log res :=
      fun hl => ⟨hl, hopen.owes _⟩
    dsimp only
    rw [holds_bind]
    refine holds_record hready (fun op a _ => lasting_ready) hopen hintent (fun hx => by cases hx) (fun w'' hw'' => ?_)
      fun x s' w'' hw'' => hend hw''.leaves
    exact (holds_enqueue hw'' hopen hintent).mono fun res w'' hl => hend hl
  | queueIntended =>
    have hk : k p.operationId = .holding prior := by
      rcases hprior with ⟨-, rfl⟩ | hk
      · cases hstate
      · exact hk
    refine ⟨hw.leaves, fun d hd _ => hback _, fun d id hd _ hst => ?_, fun d hd _ => hback _, fun hd => hback _⟩
    rw [hk] at hd
    cases hd
    rw [hstate] at hst
    cases hst
  | deliveryUncertain =>
    have hk : k p.operationId = .holding prior := by
      rcases hprior with ⟨-, rfl⟩ | hk
      · cases hstate
      · exact hk
    refine ⟨hw.leaves, fun d hd _ => hback _, fun d id hd _ hst => ?_, fun d hd _ => hback _, fun hd => hback _⟩
    rw [hk] at hd
    cases hd
    rw [hstate] at hst
    cases hst

/-- **`deliver_pointer`, under the lease.** -/
theorem holds_delivering (h : Within sha256 i (.deliver p) k
      (fun log => ¬ Queued i p.operationId log ∧ ¬ Saw i p.operationId log) k w) :
    Holds (deskContract sha256) ctx i (deliver sha256 p)
      (fun res w' => Leaves sha256 i (.deliver p) k w' ∧ Owed i p (k p.operationId) w'.log res) w := by
  have hearly : ∀ {op : Op}, (∀ o, op ≠ .record o) → ∀ a, Lasting i op a
      (fun log => ¬ Queued i p.operationId log ∧ ¬ Saw i p.operationId log) :=
    fun hop _ => (lasting_unqueued i _).and (lasting_unseen fun hx => absurd hx (hop _))
  have hunseen : ∀ {G : List DEntry → Prop} (x : Exc) (w' : DWorld),
      Within sha256 i (.deliver p) k (fun log => (¬ Queued i p.operationId log ∧ ¬ Saw i p.operationId log) ∧ G log) k w' →
      Leaves sha256 i (.deliver p) k w' ∧ Owed i p (k p.operationId) w'.log (.error x) :=
    fun x w' hw => ⟨hw.leaves, OwesReceipt.unseen hw.facts.1.1 hw.facts.1.2⟩
  unfold deliver
  rw [holds_bind]
  refine holds_stored h (hearly fun o ho => by cases ho) (fun w₁ h₁ => ?_) fun x w' hw =>
    hunseen (G := fun _ => True) x w' (hw.weaken fun hf => ⟨hf, trivial⟩)
  dsimp only
  rw [holds_bind]
  refine holds_admission h₁ (fun a => (hearly (fun o ho => by cases ho) a).and (lasting_mem _)) (fun w₂ h₂ => ?_)
    fun x w' hw => hunseen x w' hw
  dsimp only
  rw [holds_bind]
  have h₂' : Within sha256 i (.deliver p) k (fun log => (¬ Queued i p.operationId log ∧ CommentSeen sha256 i p log ∧
      RoutingSeen i p log) ∧ ¬ Saw i p.operationId log) k w₂ :=
    h₂.weaken fun hf => ⟨⟨hf.1.1.1, hf.1.2, hf.2⟩, hf.1.1.2⟩
  have hlast : ∀ a, Lasting i (.record p.operationId) a fun log => ¬ Queued i p.operationId log ∧
      CommentSeen sha256 i p log ∧ RoutingSeen i p log :=
    fun a => (lasting_unqueued i _).and ((lasting_mem _).and (lasting_mem _))
  refine holds_recorded h₂' hlast (fun w₃ h₃ hk => ?_) (fun d w₃ h₃ hk => ?_) (fun reason w₃ h₃ hk => ?_)
    fun x w₃ h₃ hs => ⟨h₃.leaves, OwesReceipt.unseen h₃.facts.1 hs⟩
  · exact holds_settle h₃ (.inl ⟨hk, rfl⟩)
  · exact holds_settle h₃ (.inr hk)
  · have hback : HoldsBack i p.operationId w₃.log (.error (.hold reason)) :=
      ⟨h₃.facts.1, fun v hv => (by cases hv), fun _ => ⟨reason, rfl⟩⟩
    refine ⟨h₃.leaves, fun d hd => ?_, fun d id hd => ?_, fun d hd => ?_, fun _ => hback⟩
    · rw [hk] at hd
      cases hd
    · rw [hk] at hd
      cases hd
    · rw [hk] at hd
      cases hd

end Communication

end Arhugula
