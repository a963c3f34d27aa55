import Arhugula.Proof.ConversationCalls

/-!
# The conversation, over whole runs

- `lease_disciplined`: an active conversation holds one lease, which it began itself; one that is over
  holds nothing; and **it never cancels or releases what it did not begin**, whatever its callbacks, other
  threads and the other clients of the owner do.
- `fault_absorbed`: where another borrower has faulted the lease, **a call that ends the conversation
  absorbs the fault if and only if the lease was given up before it**, and no callback raised what is no
  `Exception`.
- `history_bounded`: the history and the context keep the limits, what is published carries the token
  that was pending, and the history always fits into a request.
-/

namespace Arhugula

namespace Conversation

open Reentrant Session

variable {latch : Bool} {sid : String} {cfg : DConfig} {d : Desk} {log : List DEntry}

/-! ## Reachable configurations -/

theorem DInv.new (latch : Bool) (sid : String) :
    DInv latch (Machine.start (Desk.new sid) : DConfig).w := by
  refine ⟨⟨trivial, .new sid, .clear, .inl rfl, fun _ => ⟨rfl, fun hu => (by cases hu)⟩⟩, rfl, fun _ => ?_⟩
  exact .cleared (d := Desk.new sid) rfl rfl rfl (.inl ⟨rfl, rfl, rfl⟩)

/-- The invariant holds always, and between the operations no flag is left. -/
theorem desk_reachable (h : (conversation latch).Reachable (.new sid) cfg) :
    DInv latch cfg.w ∧ (cfg.stack = [] → cfg.w.st.busy = false) :=
  Contract.sound_idle (B := fun w : DWorld => w.st.busy = false) (desk_kept latch) (fun _ _ hb hr => hr.1 hb)
    (fun _ _ hc => (by cases hc)) (.new latch sid) rfl h

/-! ## Leases -/

/-- **The lease discipline** between the operations. A job that is not cleaned is the job of the turn
under way, or has faulted the conversation and the owner; a callback that raised what is no `Exception`
may have broken off a stop, which then is still intended. -/
structure Leased (log : List DEntry) (d : Desk) : Prop where
  active : d.phase = .ready ∨ d.phase = .processing ∨ d.phase = .clarifying →
    ∃ g, d.lease = some g ∧ .began g ∈ d.deeds ∧ (∀ c, .released g c ∉ d.deeds) ∧ d.owner.owner = some g ∧
      ∀ k, .began k ∈ d.deeds → k ≠ g → ∃ c, .released k c ∈ d.deeds
  ended : d.phase = .inactive ∨ d.phase = .faulted →
    (d.lease = none ∧ d.request = none ∧ d.snapshot = none ∧ d.sessionId = none ∧ d.history = []) ∧
      ∀ k, .began k ∈ d.deeds → ∃ c, .released k c ∈ d.deeds
  jobs : loose log ≠ [] → (d.phase = .faulted ∧ d.owner.state = .faulted) ∨
    ((d.phase = .processing ∨ d.phase = .stopping) ∧
      (d.unknownJob = true ∨ ∃ j, loose log = [some j] ∧ d.job = some j))
  unknown : d.unknownJob = true → (d.phase = .faulted ∧ d.owner.state = .faulted) ∨ Disturbed log
  stopping : d.phase = .stopping → d.intent ≠ none ∧ Disturbed log

theorem DInv.leased {w : DWorld} (h : DInv false w) (hb : w.st.busy = false) : Leased w.log w.st := by
  have hrest := h.rest hb
  -- without a fault of another client nothing but a release gives up a lease
  have hreturned : ∀ k, .began k ∈ w.st.deeds → w.st.lease = some k ∨ ∃ c, .released k c ∈ w.st.deeds := by
    intro k hk
    rcases h.owning.returned k hk with hl | hr | ⟨hlatch, -⟩
    · exact .inl hl
    · exact .inr hr
    · cases hlatch
  refine ⟨fun hp => ?_, fun hp => ⟨hrest.ended hp, fun k hk => ?_⟩, fun hjobs => ?_, fun hu => ?_, fun hp => ?_⟩
  · have hactive : w.st.active = true := by
      unfold Desk.active
      rcases hp with hp | hp | hp <;> rw [hp] <;> rfl
    obtain ⟨g, hg⟩ := Option.ne_none_iff_exists'.1 (hrest.active hactive)
    obtain ⟨hbegan, hkept, howner, -⟩ := h.owning.lease g hg
    refine ⟨g, hg, hbegan, hkept, howner, fun k hk hne => (hreturned k hk).resolve_left fun hl => hne ?_⟩
    rw [hg] at hl
    exact (Option.some_inj.1 hl).symm
  · refine (hreturned k hk).resolve_left fun hl => ?_
    rw [(hrest.ended hp).1] at hl
    cases hl
  · have hheld : w.st.unknownJob = true ∨ ∃ j, loose w.log = [some j] ∧ w.st.job = some j := by
      rcases h.jobs with hnone | hknown | hunknown
      · exact absurd hnone hjobs
      · exact .inr hknown
      · exact .inl hunknown
    -- a conversation that waits or is inactive has no job
    have hstill : ¬ (w.st.phase = .ready ∨ w.st.phase = .clarifying ∨ w.st.phase = .inactive) := by
      intro hp
      obtain ⟨hjob, hknown⟩ := hrest.still hp
      rcases hheld with hu | ⟨j, -, hj⟩
      · rw [hknown] at hu
        cases hu
      · rw [hjob] at hj
        cases hj
    cases hp : w.st.phase with
    | faulted => exact .inl ⟨rfl, hrest.faulted hp⟩
    | processing => exact .inr ⟨.inl rfl, hheld⟩
    | stopping => exact .inr ⟨.inr rfl, hheld⟩
    | ready => exact absurd (.inl hp) hstill
    | clarifying => exact absurd (.inr (.inl hp)) hstill
    | inactive => exact absurd (.inr (.inr hp)) hstill
  · rcases hrest.unknown hu with hp | hd | ⟨hlatch, -⟩
    · exact .inl ⟨hp, hrest.faulted hp⟩
    · exact .inr hd
    · cases hlatch
  · obtain ⟨hi, hd | ⟨hlatch, -⟩⟩ := hrest.stopping hp
    · exact ⟨hi, hd⟩
    · cases hlatch

/-- What is canceled or released was begun. -/
theorem Disciplined.own {g : ℕ} {ds : List Deed} (h : Disciplined ds)
    (hd : .canceled g ∈ ds ∨ ∃ c, .released g c ∈ ds) : .began g ∈ ds := by
  rcases hd with hd | ⟨c, hd⟩
  · induction ds with
    | nil => cases hd
    | cons x ds ih =>
      rcases List.mem_cons.1 hd with rfl | hd
      · exact List.mem_cons_of_mem _ h.1
      · refine List.mem_cons_of_mem _ (ih ?_ hd)
        cases x with
        | began k => exact h.2
        | canceled k => exact h.2.2
        | released k c => exact h.2.2
  · exact h.began hd

/-- **The conversation keeps the discipline of its leases**, in every run. -/
theorem lease_disciplined (h : (conversation false).Reachable (.new sid) cfg) :
    Disciplined cfg.w.st.deeds ∧
    (∀ g ∈ cfg.w.st.others, .canceled g ∉ cfg.w.st.deeds ∧ ∀ c, .released g c ∉ cfg.w.st.deeds) ∧
    (cfg.stack = [] → cfg.w.st.busy = false) ∧
    (cfg.w.st.busy = false → Leased cfg.w.log cfg.w.st) := by
  obtain ⟨hinv, hidle⟩ := desk_reachable h
  have hdisciplined := hinv.owning.disciplined
  refine ⟨hdisciplined, fun g hg => ⟨fun hc => ?_, fun c hr => ?_⟩, hidle, hinv.leased⟩
  · exact (hinv.owning.begun g (hdisciplined.own (.inl hc))).2.2 hg
  · exact (hinv.owning.begun g (hdisciplined.own (.inr ⟨c, hr⟩))).2.2 hg

/-! ## Runs -/

namespace Example

/-- A policy for voice. -/
def policy : ConversationPolicy := ⟨"profile", "policy", 1, {.voice}, "good bye", "F12", ⟨3, 100, 1000, 5, 3⟩⟩

/-- A snapshot with nothing in its context. -/
def snapshot : Snapshot := ⟨⟨"profile", "policy", true, true⟩, 1, some policy, ⟨1, ∅, ∅⟩, ⟨1, .empty, [], none⟩⟩

/-- A sample. -/
def sampled : Input Answer Method := .reply (.snapshot snapshot)

/-- Moments of other threads in which nothing happens. -/
def pause (n : ℕ) : List (Input Answer Method) := List.replicate n (.reply .none)

/-- A conversation that is entered. -/
def entered : List (Input Answer Method) := [.invoke (.enter (some .voice)), sampled, sampled] ++ pause 1

/-- A turn that is submitted, and whose job is started. -/
def asked : List (Input Answer Method) :=
  entered ++ [.invoke (.submit (some "hello")), sampled, .reply (.job 7), sampled, .reply .object, sampled] ++ pause 1

/-- The answer to it, which is published. -/
def answered : List (Input Answer Method) :=
  asked ++ [.invoke .poll, sampled, .reply (.response ⟨⟨"s:1", 1, 1, "profile", 1, 1, 1⟩, "hi"⟩), sampled,
    .reply .object, .reply .true, sampled] ++ pause 2

/-- A conversation whose lease is faulted by another borrower, and then is polled. -/
def faulted : List (Input Answer Method) := entered ++ [.invoke (.fault 1), .invoke .poll, sampled] ++ pause 4

/-- And is polled again. -/
def absorbed : List (Input Answer Method) := faulted ++ [Input.invoke Method.poll] ++ pause 3

end Example

/-- A turn under way, with a lease. -/
theorem lease_disciplined_processing :
    ∃ cfg : DConfig, (conversation false).Reachable (.new "s") cfg ∧ cfg.w.st.phase = .processing ∧
      ∃ g, cfg.w.st.lease = some g ∧ .began g ∈ cfg.w.st.deeds := by
  obtain ⟨cfg, hcfg, ht⟩ := Machine.Reachable.of_run (conversation false) (.new "s") Example.asked
    (fun c => decide (c.stack.length = 0 ∧ c.w.st.phase = .processing)) (by decide +kernel)
  obtain ⟨hstack, hphase⟩ := of_decide_eq_true ht
  obtain ⟨-, -, hidle, hleased⟩ := lease_disciplined hcfg
  obtain ⟨g, hg, hbegan, -⟩ := (hleased (hidle (List.length_eq_zero_iff.1 hstack))).active (.inr (.inl hphase))
  exact ⟨cfg, hcfg, hphase, g, hg, hbegan⟩

/-! ## Faults of other borrowers -/

/-- The call `m` of activation `i` was made with the owner faulted, went through `_run`, and has left
the conversation as `d`, which is not active. -/
def Meets (i : ℕ) (older : List DEntry) (d : Desk) (m : DEntry) : Prop :=
  m.frame = i ∧ (∃ x, m.act = .invoke x ∧ x.absorbs = true) ∧ m.st.busy = false ∧
    m.st.owner.state = .faulted ∧ Called older i ∧ d.active = false

/-- **A fault is absorbed if and only if the lease was given up before.** -/
theorem fault_absorbed (h : (conversation true).Reachable (.new sid) cfg) {newer older : List DEntry}
    {e m : DEntry} (hlog : cfg.w.log = newer ++ e :: older) {r : Except Exc Value} (hr : e.act = .ret r)
    (hm : m ∈ older) (hmeets : Meets e.frame older e.st m) :
    Absorbed r e.st ↔ m.st.lease = none ∧ ¬ Broken older e.frame := by
  obtain ⟨hf, ⟨x, hx, ha⟩, hbusy, hfault, hcalled, hended⟩ := hmeets
  have howes := (desk_reachable h).1.owes
  rw [hlog] at howes
  exact howes.at.absorbed r hr m hm hf x hx ha hbusy hfault hcalled hended

/-! ### Two runs -/

section Decidable

variable (a : Act Op Answer Exc Method Value) (log : List DEntry) (i : ℕ)

instance : Decidable (∃ op, a = .call op) :=
  match a with
  | .call op => isTrue ⟨op, rfl⟩
  | .invoke _ | .reply _ _ | .ret _ | .crash => isFalse fun ⟨_, h⟩ => by cases h

instance : Decidable (∃ op, a = .reply op (.raised true)) :=
  match a with
  | .reply op x =>
    decidable_of_iff (x = .raised true) ⟨fun h => ⟨op, by rw [h]⟩, fun ⟨_, h⟩ => by cases h; rfl⟩
  | .invoke _ | .call _ | .ret _ | .crash => isFalse fun ⟨_, h⟩ => by cases h

instance : Decidable (∃ x, a = .invoke x ∧ x.absorbs = true) :=
  match a with
  | .invoke x =>
    decidable_of_iff (x.absorbs = true) ⟨fun h => ⟨x, rfl, h⟩, fun ⟨_, h, ha⟩ => by cases h; exact ha⟩
  | .reply _ _ | .call _ | .ret _ | .crash => isFalse fun ⟨_, h, _⟩ => by cases h

instance : Decidable (Called log i) :=
  inferInstanceAs (Decidable (∃ e ∈ log, e.frame = i ∧ ∃ op, e.act = .call op))

instance : Decidable (Broken log i) :=
  inferInstanceAs (Decidable (∃ e ∈ log, e.frame = i ∧ ∃ op, e.act = .reply op (.raised true)))

end Decidable

instance (i : ℕ) (older : List DEntry) (d : Desk) (m : DEntry) : Decidable (Meets i older d m) :=
  inferInstanceAs (Decidable (_ ∧ _))

/-- The last call met a fault of the owner, without a lease, and was not broken off. -/
def absorbs (c : DConfig) : Bool :=
  match c.w.log with
  | ⟨i, .ret _, d⟩ :: older => decide (∃ m ∈ older, Meets i older d m ∧ m.st.lease = none ∧ ¬ Broken older i)
  | _ => false

/-- A second call after a fault absorbs it. -/
theorem fault_absorbed_later :
    ∃ (cfg : DConfig) (e m : DEntry) (older : List DEntry) (r : Except Exc Value),
      (conversation true).Reachable (.new "s") cfg ∧ cfg.w.log = e :: older ∧ e.act = .ret r ∧ m ∈ older ∧
        Meets e.frame older e.st m ∧ Absorbed r e.st := by
  obtain ⟨cfg, hcfg, ht⟩ := Machine.Reachable.of_run (conversation true) (.new "s") Example.absorbed
    absorbs (by decide +kernel)
  unfold absorbs at ht
  split at ht
  · rename_i i r d older hlog
    obtain ⟨m, hm, hmeets, hcond⟩ := of_decide_eq_true ht
    refine ⟨cfg, _, m, older, r, hcfg, hlog, rfl, hm, hmeets, ?_⟩
    have hlast : cfg.w.log = [] ++ ⟨i, .ret r, d⟩ :: older := hlog
    exact (fault_absorbed hcfg hlast rfl hm hmeets).2 hcond
  · cases ht

/-- The last call raised the fault of the owner that it met with a lease, and is still stopping. -/
def escapes (c : DConfig) : Bool :=
  match c.w.log with
  | ⟨i, .ret (.error (.session .faulted)), d⟩ :: older =>
    decide ((∃ m ∈ older, Meets i older d m ∧ m.st.lease = some 1 ∧ m.st.owner.owner = some 1) ∧
      d.display = .stopping ∧ d.snapshot ≠ none)
  | _ => false

/-- **A fault of another borrower escapes** from the first call that meets it, and the display stays at
the stop that was broken off. -/
theorem fault_escapes :
    ∃ (cfg : DConfig) (e m : DEntry) (older : List DEntry),
      (conversation true).Reachable (.new "s") cfg ∧ cfg.w.log = e :: older ∧
        e.act = .ret (.error (.session .faulted)) ∧ m ∈ older ∧ Meets e.frame older e.st m ∧
          m.st.lease = some 1 ∧ m.st.owner.owner = some 1 ∧ e.st.display = .stopping ∧ e.st.snapshot ≠ none ∧
            ¬ Absorbed (.error (.session .faulted)) e.st := by
  obtain ⟨cfg, hcfg, ht⟩ := Machine.Reachable.of_run (conversation true) (.new "s") Example.faulted
    escapes (by decide +kernel)
  unfold escapes at ht
  split at ht
  · rename_i i d older hlog
    obtain ⟨⟨m, hm, hmeets, hlease, howner⟩, hdisplay, hsnapshot⟩ := of_decide_eq_true ht
    exact ⟨cfg, _, m, older, hcfg, hlog, rfl, hm, hmeets, hlease, howner, hdisplay, hsnapshot,
      fun h => h.escapes rfl⟩
  · cases ht

/-! ## The history -/

/-- **What the history and the context keep.** The history fits into every request that is made from
it, and the pending request stays one when its conflict is resolved. -/
structure Bounded (d : Desk) : Prop where
  length : d.history.length ≤ d.turn
  limits : ∀ s, d.snapshot = some s → ∃ p, s.policy = some p ∧ d.turn ≤ p.limits.turns ∧
    itemChars s.context.items + historyChars d.history ≤ p.limits.contextChars
  empty : d.snapshot = none → d.history = []
  rising : d.history.Pairwise fun x y => x.token.turn < y.token.turn
  session : ∀ x ∈ d.history, d.sessionId = some x.token.sessionId
  fits : ∀ s, d.snapshot = some s → ∀ token value resolved, text value maxText = true →
    token.contextRevision = s.context.revision → (resolved = none ∨ resolved = s.context.conflictId) →
      (Request.make ⟨token, value, s.context, d.history, resolved⟩).isSome
  resolves : ∀ q, d.request = some q →
    (Request.make { q with resolvedConflict := q.context.conflictId }).isSome

theorem Bounds.bounded (h : Bounds d.snapshot d.sessionId d.request d.history d.turn) : Bounded d := by
  -- the conflict of a context that was made is an identifier
  have hconflict : ∀ s, d.snapshot = some s → s.context.conflictId.all isIdentifier = true := by
    intro s hs
    have hvalid := (h.limits s hs).1
    simp only [Snapshot.valid, Context.valid, Bool.and_eq_true] at hvalid
    exact hvalid.2.1.2
  refine ⟨h.length, fun s hs => ?_, h.empty, h.rising, h.session, fun s hs token value resolved hv hr hc => ?_,
    fun q hq => ?_⟩
  · obtain ⟨-, p, hp, hn, hsize⟩ := h.limits s hs
    exact ⟨p, hp, hn, hsize⟩
  · have hfits : d.history.length ≤ 64 := by
      rw [hs] at h
      exact h.fits
    have hall : resolved.all isIdentifier = true := by
      rcases hc with rfl | rfl
      · rfl
      · exact hconflict s hs
    unfold Request.make
    rw [if_pos]
    · rfl
    · simp only [Request.valid, hv, hall, hfits, hc, hr, decide_true, Bool.and_self]
  · obtain ⟨hvalid, -, -, -, -, s, hs, hcontext⟩ := h.request q hq
    have hall := hconflict s hs
    rw [hcontext] at hall
    simp only [Request.valid, Bool.and_eq_true, decide_eq_true_eq] at hvalid
    unfold Request.make
    rw [if_pos]
    · rfl
    · simp only [Request.valid, hvalid.1.1.1.1, hvalid.1.1.1.2, hvalid.2, hall, or_true, decide_true, Bool.and_self]

/-- The exchange `x` is published between `a` and `b`, on the token that is pending in `a`. -/
def Publishes (x : Exchange) (a b : Desk) : Prop :=
  ∃ r, a.request = some r ∧ a.sessionId = some r.token.sessionId ∧ b.sessionId = a.sessionId ∧
    x.token = r.token ∧ x.text = r.text ∧ b.history = a.history ++ [x]

/-- **What the history holds was published**, between two entries of the log. -/
theorem published {e : DEntry} {older : List DEntry} (h : Throughout Owes (e :: older)) {x : Exchange}
    (hx : x ∈ e.st.history) :
    ∃ (newer : List DEntry) (b a : DEntry) (rest : List DEntry),
      e :: older = newer ++ b :: a :: rest ∧ Publishes x a.st b.st := by
  induction older generalizing e with
  | nil =>
    have hnone : e.st.history = [] := h.1.linked
    rw [hnone] at hx
    cases hx
  | cons m older ih =>
    have hbefore : x ∈ m.st.history →
        ∃ newer b a rest, e :: m :: older = newer ++ b :: a :: rest ∧ Publishes x a.st b.st := by
      intro hm
      obtain ⟨newer, b, a, rest, hlog, hp⟩ := ih h.2 hm
      exact ⟨e :: newer, b, a, rest, by rw [hlog]; rfl, hp⟩
    have hlinked : Follows m.st e.st := h.1.linked
    rcases hlinked with hsame | ⟨r, y, hr, hs, hs', ht, htext, happ⟩ | ⟨hnone, -⟩
    · rw [hsame] at hx
      exact hbefore hx
    · rw [happ] at hx
      rcases List.mem_append.1 hx with hx | hx
      · exact hbefore hx
      · rw [List.mem_singleton.1 hx]
        exact ⟨[], e, m, older, rfl, r, hr, hs, hs', ht, htext, happ⟩
    · rw [hnone] at hx
      cases hx

/-- **The history is bounded**, in every run: it changes only where an exchange is published, or where
the session ends. -/
theorem history_bounded {borrowers : Bool} (h : (conversation borrowers).Reachable (.new sid) cfg) :
    Bounded cfg.w.st ∧
    (∀ x ∈ cfg.w.st.history, ∃ newer b a rest, cfg.w.log = newer ++ b :: a :: rest ∧ Publishes x a.st b.st) ∧
    (∀ newer b a rest, cfg.w.log = newer ++ b :: a :: rest → Follows a.st b.st) ∧
    (∀ e older, cfg.w.log = e :: older → cfg.w.st.history = e.st.history) := by
  obtain ⟨hinv, -⟩ := desk_reachable h
  have hlast : ∀ e older, cfg.w.log = e :: older → cfg.w.st.history = e.st.history := by
    intro e older hlog
    have hlevel := hinv.level
    rw [hlog] at hlevel
    exact hlevel
  refine ⟨hinv.bounds.bounded, fun x hx => ?_, fun newer b a rest hlog => ?_, hlast⟩
  · cases hlog : cfg.w.log with
    | nil =>
      have hlevel := hinv.level
      rw [hlog] at hlevel
      have hnone : cfg.w.st.history = [] := hlevel
      rw [hnone] at hx
      cases hx
    | cons e older =>
      have howes := hinv.owes
      rw [hlog] at howes
      rw [hlast e older hlog] at hx
      exact published howes hx
  · have howes := hinv.owes
    rw [hlog] at howes
    exact howes.at.linked

/-- A turn that was answered. -/
theorem history_bounded_answered :
    ∃ (cfg : DConfig) (x : Exchange), (conversation true).Reachable (.new "s") cfg ∧ cfg.w.st.history = [x] ∧
      Bounded cfg.w.st ∧ ∃ newer b a rest, cfg.w.log = newer ++ b :: a :: rest ∧ Publishes x a.st b.st := by
  obtain ⟨cfg, hcfg, ht⟩ := Machine.Reachable.of_run (conversation true) (.new "s") Example.answered
    (fun c => decide (c.w.st.history.length = 1)) (by decide +kernel)
  obtain ⟨x, hx⟩ := List.length_eq_one_iff.1 (of_decide_eq_true ht)
  obtain ⟨hbounded, hpublished, -⟩ := history_bounded hcfg
  exact ⟨cfg, x, hcfg, hx, hbounded, hpublished x (by rw [hx]; exact List.mem_singleton_self x)⟩

end Conversation

end Arhugula
