import Arhugula.Proof.PlaneAuth

/-!
# The methods of a plane keep the authorization contract

First the two ends of an activation, where it takes and gives back its hold on the
catalog; then `_dispatch` stage by stage, each stage an assertion about this
activation that quiet steps keep; then the methods.
-/

namespace Arhugula

namespace Plane

open Reentrant Vm

variable {ctx : List (ℕ × Op)} {w w₀ : PWorld} {i p : ℕ}

/-! ## Entering -/

theorem mem_openOn {log : List PEntry} {q : ℕ} (h : i ∈ openOn q log) : ∃ e ∈ log, e.frame = i := by
  induction log with
  | nil => cases h
  | cons e log ih =>
    unfold openOn at h
    split at h
    · split at h
      · rcases List.mem_cons.1 h with rfl | h
        · exact ⟨e, List.mem_cons_self, rfl⟩
        · obtain ⟨b, hb, hi⟩ := ih h
          exact ⟨b, List.mem_cons_of_mem _ hb, hi⟩
      · obtain ⟨b, hb, hi⟩ := ih h
        exact ⟨b, List.mem_cons_of_mem _ hb, hi⟩
    · obtain ⟨b, hb, hi⟩ := ih (List.mem_filter.1 h).1
      exact ⟨b, List.mem_cons_of_mem _ hb, hi⟩
    · obtain ⟨b, hb, hi⟩ := ih h
      exact ⟨b, List.mem_cons_of_mem _ hb, hi⟩

theorem openOn_enter (m : Method) (q : ℕ) :
    openOn q (w.enter m).log = if m.authorizes q then w.next :: openOn q w.log else openOn q w.log :=
  rfl

/-- A new activation holds no catalog before it is called. -/
theorem next_not_open (hlt : ∀ e ∈ w.log, e.frame < w.next) (q : ℕ) : w.next ∉ openOn q w.log := by
  intro h
  obtain ⟨e, he, hi⟩ := mem_openOn h
  have := hlt e he
  omega

/-- The state `s` in which a call of `m` reaches its first callback: it holds its catalog,
and the token it consumes is gone. -/
structure Entering (s₀ : State) (m : Method) (s : State) : Prop where
  terms : ∀ q, (s.planes q).catalog = (s₀.planes q).catalog ∧
    (s.planes q).catalogVersion = (s₀.planes q).catalogVersion
  trust : ∀ q, (s.planes q).policy = (s₀.planes q).policy ∧
    (s.planes q).profile = (s₀.planes q).profile
  journal : s.journal = s₀.journal
  users : ∀ q, (s.planes q).catalogUsers =
    (s₀.planes q).catalogUsers + if m.authorizes q then 1 else 0
  tables : ∀ q x, x ∈ (s.planes q).confirmations → x ∈ (s₀.planes q).confirmations
  spent : ∀ i token, Consumes token ⟨i, .invoke m, s₀⟩ →
    ∀ q v, (token, v) ∉ (s.planes q).confirmations

/-- What a `confirm` consumes is in the table of its plane. -/
theorem Consumes.held {token : String} {e : PEntry} (h : Consumes token e) :
    ∃ q v, (token, v) ∈ (e.st.planes q).confirmations := by
  obtain ⟨q, _, _, _, _, v, -, hv⟩ := h
  exact ⟨q, v, Mapping.get_mem hv⟩

theorem AuthInv.enter (h : AuthInv w) (hlt : ∀ e ∈ w.log, e.frame < w.next) {m : Method} {s : State}
    (hs : Entering w.st m s) : AuthInv ((w.enter m).put s) := by
  have hsuf : w.log <:+ ((w.enter m).put s).log := List.suffix_cons _ _
  have hlaw : Lawful ⟨w.next, .invoke m, w.st⟩ w.log := by
    refine ⟨fun _ _ hact => ?_, fun hx => ?_, fun token hc b hb hb' => ?_, fun _ hact => ?_,
      h.held, fun b hb q => h.rising b hb q, fun _ hact => ?_⟩
    · cases hact
    · cases hx
    · obtain ⟨q, v, hv⟩ := hc.held
      exact (h.spent b hb token hb').2 q v hv
    · cases hact
    · cases hact
  refine ⟨⟨hlaw, h.lawful⟩, fun e he q => ?_, fun q j hj b hb hf hcall => ?_,
    fun q token preview key hmem => ?_, fun q q' token v v' hv hv' => h.apart q q' token v v' (hs.tables _ _ hv) (hs.tables _ _ hv'),
    fun e he token hc => ?_, fun q => ?_, fun q => ?_⟩
  · rw [World.put_st, (hs.terms q).2]
    rcases List.mem_cons.1 he with rfl | he
    · exact Int.le_refl _
    · exact h.rising e he q
  · rw [World.put_st, (hs.terms q).1, (hs.terms q).2]
    rcases List.mem_cons.1 hb with rfl | hb
    · exact ⟨rfl, rfl⟩
    · -- an older call of an activation that is older than this one
      have hj' : j ∈ openOn q w.log := by
        rw [World.put_log, openOn_enter] at hj
        have hne : j ≠ w.next := by have := hlt b hb; omega
        split at hj
        · exact (List.mem_cons.1 hj).resolve_left hne
        · exact hj
      exact h.held q j hj' b hb hf hcall
  · rw [World.put_st, (hs.terms q).1, (hs.terms q).2]
    obtain ⟨ht, hg, hi⟩ := h.tokens q token preview key (hs.tables _ _ hmem)
    exact ⟨ht, hg.mono hsuf, hi.mono hsuf⟩
  · rcases List.mem_cons.1 he with rfl | he
    · obtain ⟨q, v, hv⟩ := hc.held
      exact ⟨(h.tokens q token v.1 v.2 hv).2.1.mono hsuf, hs.spent _ token hc⟩
    · obtain ⟨hg, hn⟩ := h.spent e he token hc
      exact ⟨hg.mono hsuf, fun q v hv => hn q v (hs.tables _ _ hv)⟩
  · rw [World.put_st, World.put_log, openOn_enter, hs.users, h.users]
    split <;> rfl
  · rw [World.put_log, openOn_enter]
    split
    · exact List.nodup_cons.2 ⟨next_not_open hlt q, h.nodup q⟩
    · exact h.nodup q

theorem AuthRel.enter (hctx : ∀ f ∈ ctx, f.1 < w.next) {m : Method} {s : State}
    (hs : Entering w.st m s) : AuthRel ctx w ((w.enter m).put s) where
  log := List.suffix_cons _ _
  trust := hs.trust
  journal r hr := by
    rw [World.put_st, hs.journal]
    exact hr
  opened f hf q := by
    have hne : f.1 ≠ w.next := by have := hctx f hf; omega
    rw [World.put_log, openOn_enter]
    split
    · simp [hne]
    · exact Iff.rfl
  pinned _ _ q _ := hs.terms q
  runs f _ := runs_push (by intro _ _ _ h; cases h)
  reads f _ e he _ ha := by
    rcases List.mem_cons.1 he with rfl | he
    · cases ha
    · exact he
  idle token _ hn := by
    refine ⟨fun q v hv => hn q v (hs.tables _ _ hv), fun e he hc => ?_⟩
    rcases List.mem_cons.1 he with rfl | he
    · obtain ⟨q, v, hv⟩ := hc.held
      exact absurd hv (hn q v)
    · exact he

/-! ## Leaving -/

/-- A token that `uuid4` has given since `w₀`, and that no table has seen. -/
structure Fresh (w₀ : PWorld) (token : String) (w : PWorld) : Prop where
  given : Given w.log token
  new : ¬ Given w₀.log token
  untabled : ∀ q v, (token, v) ∉ (w.st.planes q).confirmations
  unspent : ∀ e ∈ w.log, ¬ Consumes token e

/-- The state `s` in which activation `i`, begun in `w₀`, returns `r`: it has given back
its catalog, and the only token it may have added is the one it returns. -/
structure Leaving (w₀ w : PWorld) (i p : ℕ) (r : Except Exc Value) (s : State) : Prop where
  trust : ∀ q, (s.planes q).policy = (w.st.planes q).policy ∧
    (s.planes q).profile = (w.st.planes q).profile
  journal : s.journal = w.st.journal
  users : ∀ q, (s.planes q).catalogUsers = ((openOn q w.log).filter fun j => j ≠ i).length
  rising : ∀ q, (w.st.planes q).catalogVersion ≤ (s.planes q).catalogVersion
  pinned : ∀ q, ∀ j ∈ openOn q w.log, (s.planes q).catalog = (w.st.planes q).catalog ∧
    (s.planes q).catalogVersion = (w.st.planes q).catalogVersion
  tables : ∀ q token v, (token, v) ∈ (s.planes q).confirmations →
    ((token, v) ∈ (w.st.planes q).confirmations ∧
      (s.planes q).catalog = (w.st.planes q).catalog ∧
      (s.planes q).catalogVersion = (w.st.planes q).catalogVersion) ∨
    q = p ∧ Fresh w₀ token w ∧ ∃ preview key, v = (preview, key) ∧ preview.token = token ∧
      r = .ok (.confirmation preview) ∧
      ∃ a ∈ w.log, a.frame = i ∧ a.act = .invoke (.requestConfirmation p preview.command (some key))
  lawful : Lawful ⟨i, .ret r, s⟩ w.log

theorem AuthInv.leave {r : Except Exc Value} {s : State} (h : AuthInv w)
    (hs : Leaving w₀ w i p r s) : AuthInv ((w.put s).push i (.ret r)) := by
  have hsuf : w.log <:+ ((w.put s).push i (.ret r)).log := List.suffix_cons _ _
  have hopen : ∀ q, openOn q ((w.put s).push i (.ret r)).log =
      (openOn q w.log).filter fun j => j ≠ i := fun _ => rfl
  refine ⟨⟨hs.lawful, h.lawful⟩, fun e he q => ?_, fun q j hj b hb hf hcall => ?_,
    fun q token preview key hmem => ?_, fun q q' token v v' hv hv' => ?_, fun e he token hc => ?_, fun q => ?_, fun q => ?_⟩
  · rcases List.mem_cons.1 he with rfl | he
    · exact Int.le_refl _
    · exact Int.le_trans (h.rising e he q) (hs.rising q)
  · rw [hopen] at hj
    have hj' := (List.mem_filter.1 hj).1
    rw [World.push_st, World.put_st, (hs.pinned q j hj').1, (hs.pinned q j hj').2]
    rcases List.mem_cons.1 hb with rfl | hb
    · obtain ⟨m, hact⟩ := hcall
      cases hact
    · exact h.held q j hj' b hb hf hcall
  · rw [World.push_st, World.put_st]
    rcases hs.tables q token _ hmem with ⟨hold, hcat, hver⟩ | ⟨rfl, hfresh, pv, k, heq, htok, hr, hreq⟩
    · obtain ⟨ht, hg, hi⟩ := h.tokens q token preview key hold
      rw [hcat, hver]
      exact ⟨ht, hg.mono hsuf, hi.mono hsuf⟩
    · -- the token it issues: its own return is the entry that issues it
      cases heq
      obtain ⟨a, ha, hfr, hact⟩ := hreq
      exact ⟨htok, hfresh.given.mono hsuf, _, List.mem_cons_self, by rw [hr],
        ⟨a, List.mem_cons_of_mem _ ha, hfr, hact⟩, rfl, rfl⟩
  · rcases hs.tables q token _ hv with ⟨hold, -, -⟩ | ⟨rfl, hfresh, -⟩
    · rcases hs.tables q' token _ hv' with ⟨hold', -, -⟩ | ⟨rfl, hfresh, -⟩
      · exact h.apart q q' token v v' hold hold'
      · exact absurd hold (hfresh.untabled q v)
    · rcases hs.tables q' token _ hv' with ⟨hold', -, -⟩ | ⟨rfl, -, -⟩
      · exact absurd hold' (hfresh.untabled q' v')
      · rfl
  · rcases List.mem_cons.1 he with rfl | he
    · exact absurd hc (not_consumes (by intro m hm; cases hm) token)
    · obtain ⟨hg, hn⟩ := h.spent e he token hc
      refine ⟨hg.mono hsuf, fun q v hv => ?_⟩
      rcases hs.tables q token v hv with ⟨hold, -, -⟩ | ⟨-, hfresh, -⟩
      · exact hn q v hold
      · exact hfresh.unspent e he hc
  · rw [hopen]
    exact hs.users q
  · rw [hopen]
    exact (h.nodup q).filter _

theorem AuthRel.leave {r : Except Exc Value} {s : State} (hctx : ∀ f ∈ ctx, f.1 ≠ i)
    (h : AuthRel ctx w₀ w) (hs : Leaving w₀ w i p r s) :
    AuthRel ctx w₀ ((w.put s).push i (.ret r)) where
  log := h.log.trans (List.suffix_cons _ _)
  trust q := ⟨(hs.trust q).1.trans (h.trust q).1, (hs.trust q).2.trans (h.trust q).2⟩
  journal r hr := by
    rw [World.push_st, World.put_st, hs.journal]
    exact h.journal r hr
  opened f hf q := by
    rw [← h.opened f hf q]
    have : openOn q ((w.put s).push i (.ret r)).log = (openOn q w.log).filter fun j => j ≠ i := rfl
    rw [this, List.mem_filter]
    simp [hctx f hf]
  pinned f hf q ho := by
    have h1 := h.pinned f hf q ho
    have h2 := hs.pinned q f.1 ((h.opened f hf q).2 ho)
    exact ⟨h2.1.trans h1.1, h2.2.trans h1.2⟩
  runs f hf := (runs_push (by intro _ _ _ h; cases h)).trans (h.runs f hf)
  reads f hf e he hi ha := by
    rcases List.mem_cons.1 he with rfl | he
    · cases ha
    · exact h.reads f hf e he hi ha
  idle token hg hn := by
    obtain ⟨htab, hcons⟩ := h.idle token hg hn
    refine ⟨fun q v hv => ?_, fun e he hc => ?_⟩
    · rcases hs.tables q token v hv with ⟨hold, -, -⟩ | ⟨-, hfresh, -⟩
      · exact htab q v hold
      · exact hfresh.new hg
    · rcases List.mem_cons.1 he with rfl | he
      · exact absurd hc (not_consumes (by intro m hm; cases hm) token)
      · exact hcons e he hc

/-! ## Denials -/

theorem denial_congr {s s' : ControlPlane} (hc : s'.catalog = s.catalog) (hp : s'.policy = s.policy)
    (hf : s'.profile = s.profile) (command : Command) (confirmed : Bool) :
    denial s' command confirmed = denial s command confirmed := by
  unfold denial ControlPlane.capability
  rw [hc, hp, hf]

/-- **What no denial means.** -/
theorem denial_none {s : ControlPlane} {command : Command} {confirmed : Bool}
    (h : denial s command confirmed = none) :
    Ready s command ∧ (NeedsConfirmation s command → confirmed = true) := by
  unfold denial at h
  split at h
  · cases h
  rename_i hprofile
  split at h
  · cases h
  split at h
  · cases h
  rename_i hpolicy
  split at h
  · cases h
  rename_i capability hcap
  split at h
  · cases h
  rename_i henabled
  split at h
  · cases h
  rename_i hversion
  split at h
  · cases h
  rename_i hrisk
  split at h
  · cases h
  rename_i hconfirm
  split at h
  · cases h
  rename_i hkeys
  split at h
  · cases h
  rename_i hkinds
  simp only [Bool.or_eq_true, Bool.not_eq_true', decide_eq_true_eq, not_or, Bool.not_eq_false,
    ne_eq, not_not] at hprofile hpolicy henabled hversion hkeys
  refine ⟨⟨⟨hprofile.1.1, hpolicy.1⟩, ⟨hprofile.1.2, hprofile.2⟩, by simpa using hpolicy.2,
    capability, hcap, henabled, hversion, hrisk, Mapping.sameKeys_iff hkeys, ?_⟩, fun hneed => ?_⟩
  · intro name kind hmem
    simp only [List.any_eq_true, not_exists, not_and, Bool.not_eq_true', Bool.not_eq_false] at hkinds
    have := hkinds (name, kind) hmem
    rwa [Option.any_eq_true] at this
  · by_contra hc
    refine hconfirm ?_
    rw [Bool.not_eq_true] at hc
    rw [hc]
    rcases hneed with ⟨capability', hcap', hr⟩ | hreq
    · rw [hcap] at hcap'
      cases hcap'
      simp [hr]
    · simp [hreq]

/-! ## Stages of a dispatch -/

/-- Activation `i` holds the catalog of plane `p`, which is as it was in `w₀`. -/
structure Holder (w₀ : PWorld) (i p : ℕ) (w : PWorld) : Prop where
  opened : ∀ q, i ∈ openOn q w.log ↔ q = p
  catalog : (w.st.planes p).catalog = (w₀.st.planes p).catalog
  version : (w.st.planes p).catalogVersion = (w₀.st.planes p).catalogVersion
  policy : (w.st.planes p).policy = (w₀.st.planes p).policy
  profile : (w.st.planes p).profile = (w₀.st.planes p).profile

/-- It was called to dispatch the command there. -/
structure Calling (w₀ : PWorld) (i p : ℕ) (command : Command) (w : PWorld) : Prop
    extends Holder w₀ i p w where
  own : ∃ b ∈ w.log, b.frame = i ∧ ∃ m, b.act = .invoke m ∧
    target b.st m = some (p, command.commandId)

/-- It has not executed anything, and has an approval if it says that it is confirmed. -/
structure Unrun (w₀ : PWorld) (i p : ℕ) (command : Command) (confirmed : Bool) (w : PWorld) : Prop
    extends Calling w₀ i p command w where
  unrun : runs w.log i = 0
  approval : confirmed = true → ∃ token, Approval w.log i p command (w₀.st.planes p).catalog
    (w₀.st.planes p).catalogVersion token

/-- It has not read the history. -/
structure Unread (w₀ : PWorld) (i p : ℕ) (command : Command) (confirmed : Bool) (w : PWorld) : Prop
    extends Unrun w₀ i p command confirmed w where
  unread : ∀ b ∈ w.log, b.frame = i → b.act ≠ .reply .read .done

/-- It has read the history, and `pending` says whether there was a preview in it. -/
structure Briefed (w₀ : PWorld) (i p : ℕ) (command : Command) (confirmed pending : Bool)
    (w : PWorld) : Prop extends Unrun w₀ i p command confirmed w where
  reads : ∀ b ∈ w.log, b.frame = i → b.act = .reply .read .done →
    previewed b.st.journal command.commandId = pending

/-- It has recorded its intent. -/
structure Intending (w₀ : PWorld) (i p : ℕ) (command : Command) (confirmed pending : Bool)
    (w : PWorld) : Prop extends Briefed w₀ i p command confirmed pending w where
  started : Holding w.st.journal command.commandId .started none

/-- It has executed the command, and the executor answered `a`. -/
structure Acted (w₀ : PWorld) (i p : ℕ) (command : Command) (a : Answer) (w : PWorld) : Prop
    extends Calling w₀ i p command w where
  ran : runs w.log i = 1
  started : Holding w.st.journal command.commandId .started none
  answered : ∃ b ∈ w.log, b.frame = i ∧ b.act = .reply (.execute p command) a

section Stable

variable {command : Command} {confirmed pending : Bool} {answer : Answer}

theorem holder_stable : Stable authContract ctx i (Holder w₀ i p) := by
  intro op a b hr ha
  have hi : (i, op) ∈ (i, op) :: ctx := List.mem_cons_self
  have hpin := hr.pinned (i, op) hi p ((ha.opened p).2 rfl)
  exact ⟨fun q => (hr.opened (i, op) hi q).trans (ha.opened q), hpin.1.trans ha.catalog,
    hpin.2.trans ha.version, (hr.trust p).1.trans ha.policy, (hr.trust p).2.trans ha.profile⟩

theorem calling_stable : Stable authContract ctx i (Calling w₀ i p command) := by
  intro op a b hr ha
  obtain ⟨e, he, hown⟩ := ha.own
  exact ⟨holder_stable op a b hr ha.toHolder, e, hr.log.mem he, hown⟩

theorem unrun_stable : Stable authContract ctx i (Unrun w₀ i p command confirmed) := by
  intro op a b hr ha
  refine ⟨calling_stable op a b hr ha.toCalling, ?_, fun hc => ?_⟩
  · rw [hr.runs (i, op) List.mem_cons_self]
    exact ha.unrun
  · obtain ⟨token, happ⟩ := ha.approval hc
    exact ⟨token, happ.mono hr.log⟩

theorem unread_stable : Stable authContract ctx i (Unread w₀ i p command confirmed) := by
  intro op a b hr ha
  refine ⟨unrun_stable op a b hr ha.toUnrun, fun e he hi hact => ?_⟩
  exact ha.unread e (hr.reads (i, op) List.mem_cons_self e he hi hact) hi hact

theorem briefed_stable : Stable authContract ctx i (Briefed w₀ i p command confirmed pending) := by
  intro op a b hr ha
  refine ⟨unrun_stable op a b hr ha.toUnrun, fun e he hi hact => ?_⟩
  exact ha.reads e (hr.reads (i, op) List.mem_cons_self e he hi hact) hi hact

theorem Holding.mono {j j' : Journal} (h : ∀ r ∈ j, r ∈ j') {x : String} {t : EventType}
    {s : Option Status} (hh : Holding j x t s) : Holding j' x t s := by
  obtain ⟨ev, hev, hrest⟩ := hh
  exact ⟨ev, h _ hev, hrest⟩

theorem intending_stable :
    Stable authContract ctx i (Intending w₀ i p command confirmed pending) := by
  intro op a b hr ha
  exact ⟨briefed_stable op a b hr ha.toBriefed, ha.started.mono hr.journal⟩

theorem acted_stable : Stable authContract ctx i (Acted w₀ i p command answer) := by
  intro op a b hr ha
  obtain ⟨e, he, hans⟩ := ha.answered
  refine ⟨calling_stable op a b hr ha.toCalling, ?_, ha.started.mono hr.journal,
    e, hr.log.mem he, hans⟩
  rw [hr.runs (i, op) List.mem_cons_self]
  exact ha.ran

end Stable

/-! ## Results -/

/-- What the result of a dispatch says of its activation. -/
def Outcome (log : List PEntry) (j : Journal) (i : ℕ) (command : Command) (r : Result) : Prop :=
  r.commandId = command.commandId ∧
    ((runs log i = 0 ∧ (r.status = .blocked ∨ r.status = .canceled)) ∨
      (runs log i = 1 ∧ (r.status = .uncertain ∨
        (r.status ≠ .blocked ∧ (r.status = .canceled → ReportedCanceled log i) ∧
          (∃ b ∈ log, b.frame = i ∧ Completes r b) ∧ Holding j r.commandId .started none ∧
          Holding j r.commandId .finished (some r.status)))))

/-- Such a result is honest. -/
theorem Outcome.honest {log : List PEntry} {j : Journal} {command : Command} {r : Result}
    (h : Outcome log j i command r)
    (hown : ∃ b ∈ log, b.frame = i ∧ ∃ m, b.act = .invoke m ∧
      target b.st m = some (p, command.commandId)) : Honest log j i r := by
  obtain ⟨hid, h⟩ := h
  have hown' : ∃ b ∈ log, b.frame = i ∧ ∃ m p, b.act = .invoke m ∧
      target b.st m = some (p, r.commandId) := by
    obtain ⟨b, hb, hi, m, hm, ht⟩ := hown
    exact ⟨b, hb, hi, m, p, hm, hid ▸ ht⟩
  rcases h with ⟨hruns, hstatus⟩ | ⟨hruns, hstatus⟩
  · -- the executor was not called
    refine ⟨hown', fun hs => ?_, fun hr => absurd hruns hr, fun _ => hruns, fun _ => .inl hruns⟩
    rcases hstatus with h | h <;> rw [hs] at h <;> cases h
  · rcases hstatus with hun | ⟨hnb, hcan, hdone, hstart, hfin⟩
    · refine ⟨hown', fun hs => ?_, fun _ => .inr hun, fun hs => ?_, fun hs => ?_⟩ <;>
        rw [hun] at hs <;> cases hs
    · refine ⟨hown', fun hs => ⟨hruns, hstart, hs ▸ hfin⟩, fun _ => .inl hdone,
        fun hs => absurd hs hnb, fun hs => .inr ⟨hcan hs, hdone⟩⟩

end Plane

end Arhugula
