import Arhugula.Proof.ConfigurationLedger
import Arhugula.Proof.GatewaySafety

/-!
# What a provider configuration guarantees

For every run of the gateway and of the configuration that owns it, with every order of the
operations and arbitrary behaviour of the callbacks:

* `configuration_authority`: what was activated was approved for this, and only once, and the
  revision counts the activations and the disablings;
* `configuration_gate`: an attempt is begun only on the routes of the active candidate, within
  what its manifest, its policy and the last observation allow.

Disabling cancels the active call. A callback that raises what is no `Exception` there makes
`disable` raise, after the revision rose (`disable_raises`).
-/

namespace Arhugula

namespace Gateway

open Reentrant Providers

variable {digest : Manifest → String} {codec : Codec} {s₀ : Sys digest} {w w' : GWorld digest}
  {e m : GEntry digest} {newer older : List (GEntry digest)} {host : Host}
  {localRoute : Option Local} {version : ℤ}

/-! ## The operations, read from the log -/

/-- The revision of the configuration, 0 without one. -/
def Sys.revision (s : Sys digest) : ℕ := (s.status.map Providers.Status.revision).getD 0

theorem Sys.revision_config {s : Sys digest} {c : Configuration digest} (h : s.config = some c) :
    s.revision = c.state.revision := by
  unfold Sys.revision Sys.status
  rw [h]
  rfl

/-- Only the clock of the configuration was looked at. -/
def Untouched (s s' : Sys digest) : Prop :=
  s'.client = s.client ∧ s'.trail = s.trail ∧ (s'.config = s.config ∨
    ∃ c t f, s.config = some c ∧ s'.config = some { c with lastTime := t, clockFault := f })

/-- **An operation of the configuration** returns right after it was called. -/
theorem Path.operated (h : Path codec s₀ w) {meth : Method} {r : Except Exc Return}
    (hlog : w.log = newer ++ e :: older) (hact : e.act = .ret r) (hm : m ∈ older)
    (hf : m.frame = e.frame) (hmeth : m.act = .invoke meth) (hop : meth.operates = true) :
    ∃ a rest, Path codec s₀ a ∧ a.log = older ∧ a.st = m.st ∧ older = m :: rest ∧
      Operates meth m.st e.st r := by
  obtain ⟨a, a', hpa, -, hla, -, -, hpush⟩ := h.entry hlog
  subst hla
  cases hpush with
  | ret i r' _ hends =>
    have hcontra := hends m hm hf meth hmeth
    cases meth with
    | start request => cases hop
    | poll => cases hop
    | disableConfiguration => cases hop
    | _ =>
      have hfalse : _ = false := hcontra
      rw [hop] at hfalse
      cases hfalse
  | refuse i _ hp =>
    have hpoll := hp m hm hf meth hmeth
    rw [hpoll] at hop
    cases hop
  | deliver i _ _ hp =>
    have hpoll := hp m hm hf meth hmeth
    rw [hpoll] at hop
    cases hop
  | operate i m' s r' rest _ hl hoperates =>
    cases hact
    have hmem : ⟨i, .invoke m', a.st⟩ ∈ a.log := by
      rw [hl]
      exact List.mem_cons_self
    obtain rfl := hpa.singular.2 m hm _ hmem hf _ _ hmeth rfl
    cases hmeth
    exact ⟨a, rest, hpa, rfl, rfl, hl, hoperates⟩
  | _ => cases hact

/-- **An activation that raises leaves everything but the clock**; one that returns is one. -/
theorem Path.activation (h₀ : Fresh s₀) (h : Path codec s₀ w) {k receipt : ℕ} {now : Option ℤ}
    {r : Except Exc Return} (hlog : w.log = newer ++ e :: older) (hact : e.act = .ret r) (hm : m ∈ older)
    (hf : m.frame = e.frame) (hmeth : m.act = .invoke (.activate k receipt now)) :
    ∃ rest, older = m :: rest ∧ ((∃ x, r = .error x ∧ Untouched m.st e.st) ∨
      ∃ x t c, x.id = k ∧ now = some t ∧ Activation e m rest x receipt t c) := by
  obtain ⟨a, rest, hpa, hla, hst, hold, hop⟩ := h.operated hlog hact hm hf hmeth rfl
  obtain ⟨i, act, s⟩ := m
  obtain ⟨j, act', s'⟩ := e
  obtain rfl : i = j := hf
  obtain rfl : act = .invoke (.activate k receipt now) := hmeth
  obtain rfl : act' = .ret r := hact
  refine ⟨rest, hold, ?_⟩
  cases hop with
  | refused _ x => exact .inl ⟨x, rfl, rfl, rfl, .inl rfl⟩
  | late x hc =>
    obtain ⟨t, f, htime⟩ := Configuration.time_spec _ now
    exact .inl ⟨x, rfl, rfl, rfl, .inr ⟨_, t, f, hc, congrArg some htime⟩⟩
  | @activate _ c _ _ x t routes hidle ho hc hx ht hr =>
    have hbooked := hpa.booked h₀
    have hledger := (hbooked.ledger c (by rw [hst]; exact hc)).2
    rw [hst] at hledger
    have hl := hledger.activate hc hx hr (hla.trans hold) rfl
    obtain ⟨-, hid, -⟩ := Configuration.approved_spec hx
    exact .inr ⟨x, t, c, hid, rfl, hl.1⟩

/-- What was activated before is another candidate, by another receipt. -/
theorem Path.once (h₀ : Fresh s₀) (h : Path codec s₀ w) {x y : Providers.Candidate digest}
    {receipt r n : ℕ} {t : ℤ} {c : Configuration digest} (hlog : w.log = newer ++ e :: m :: older)
    (hact : Activation e m older x receipt t c) (hbefore : Activated older y r n) :
    y.id ≠ x.id ∧ r ≠ receipt ∧ n ≤ c.state.revision := by
  obtain ⟨hm, hc⟩ := hact.called
  obtain ⟨hf, he⟩ := hact.returned
  obtain ⟨a, rest, hpa, hla, hst, -, -⟩ := h.operated hlog he List.mem_cons_self hf.symm hm rfl
  have hledger := ((hpa.booked h₀).ledger c (by rw [hst]; exact hc)).2
  have hearlier : Activated a.log y r n := by
    rw [hla]
    exact hbefore.later m
  obtain ⟨-, hgone, -, hn, hold⟩ := hledger.spent y r n hearlier
  obtain ⟨bootstrap, happroved, -, -⟩ := hact.approved
  obtain ⟨hstaged, hbase⟩ := hact.staged
  refine ⟨fun heq => ?_, fun heq => hgone _ happroved heq.symm, hn⟩
  have := hold x hstaged heq.symm
  omega

/-- How a call of `disable` ended: refused, or with one revision more. -/
theorem Path.shuts (h : Path codec s₀ w) {r : Except Exc Return} (hlog : w.log = newer ++ e :: older)
    (hact : e.act = .ret r) (hm : m ∈ older) (hf : m.frame = e.frame)
    (hmeth : m.act = .invoke .disableConfiguration) : Ends .disableConfiguration m.st e.st r := by
  obtain ⟨a, a', hpa, -, hla, -, -, hpush⟩ := h.entry hlog
  subst hla
  cases hpush with
  | ret i r' _ hends =>
    cases hact
    exact hends m hm hf _ hmeth
  | refuse i _ hp => cases hp m hm hf _ hmeth
  | deliver i _ _ hp => cases hp m hm hf _ hmeth
  | operate i m' s r' rest hm' hl _ =>
    have hmem : ⟨i, .invoke m', a.st⟩ ∈ a.log := by
      rw [hl]
      exact List.mem_cons_self
    obtain rfl := hpa.singular.2 m hm _ hmem hf _ _ hmeth rfl
    cases hmeth
    cases hm'
  | _ => cases hact

/-! ## The revision -/

/-- From log entry `e'` to the next, `e`, the configuration was activated. -/
def Activates (e e' : GEntry digest) : Prop :=
  e.frame = e'.frame ∧ (∃ k receipt now, e'.act = .invoke (.activate k receipt now)) ∧
    e.act = .ret (.ok (.revision e.st.revision))

/-- **The revision counts**: from one log entry to the next it stays, or rises by one, where a
candidate is activated or `disable` was called. -/
structure Counted (w : GWorld digest) : Prop where
  entries : ∀ newer e e' older, w.log = newer ++ e :: e' :: older → e.st.revision = e'.st.revision ∨
    (e.st.revision = e'.st.revision + 1 ∧ (Activates e e' ∨ e'.act = .invoke .disableConfiguration))
  present : ∀ e older, w.log = e :: older → w.st.revision = e.st.revision ∨
    (w.st.revision = e.st.revision + 1 ∧ e.act = .invoke .disableConfiguration)

theorem Counted.put (h : Counted w) {s : Sys digest} (hs : s.revision = w.st.revision) :
    Counted (w.put s) := by
  refine ⟨h.entries, fun e older hlog => ?_⟩
  show s.revision = e.st.revision ∨ _
  rw [World.put_st, hs]
  exact h.present e older hlog

theorem Counted.cons (h : Counted w) {y : GEntry digest} (hlog : w'.log = y :: w.log)
    (hst : w'.st = y.st) (hy : y.st.revision = w.st.revision ∨ ∃ e' older, w.log = e' :: older ∧
      e'.st = w.st ∧ y.st.revision = w.st.revision + 1 ∧ Activates y e') : Counted w' := by
  refine ⟨fun newer e e' older heq => ?_, fun e older heq => ?_⟩
  · rw [hlog] at heq
    cases newer with
    | cons z newer => exact h.entries newer e e' older (List.cons.inj heq).2
    | nil =>
      obtain ⟨rfl, hold⟩ := List.cons.inj heq
      rcases hy with hsame | ⟨e₁, older₁, hold₁, hst₁, hrise, hact⟩
      · rw [hsame]
        rcases h.present e' older hold with hp | ⟨hp, hd⟩
        · exact .inl hp
        · exact .inr ⟨hp, .inr hd⟩
      · rw [hold₁] at hold
        obtain ⟨rfl, rfl⟩ := List.cons.inj hold
        rw [hst₁]
        exact .inr ⟨hrise, .inl hact⟩
  · rw [hlog] at heq
    obtain ⟨rfl, -⟩ := List.cons.inj heq
    exact .inl (by rw [hst])

theorem counted_operate {i : ℕ} {meth : Method} {s : Sys digest} {r : Except Exc Return}
    {rest : List (GEntry digest)} (hb : Booked w) (h : Counted w)
    (hlog : w.log = ⟨i, .invoke meth, w.st⟩ :: rest) (hop : Operates meth w.st s r) :
    Counted ((w.put s).push i (.ret r)) := by
  have hsame : s.revision = w.st.revision → Counted ((w.put s).push i (.ret r)) :=
    fun hs => h.cons rfl rfl (.inl hs)
  have hstate : ∀ {c c' : Configuration digest}, w.st.config = some c → c'.state = c.state →
      Sys.revision { w.st with config := some c' } = w.st.revision := by
    intro c c' hc hst
    rw [Sys.revision_config hc, ← hst]
    exact Sys.revision_config rfl
  cases hop with
  | refused m x => exact hsame rfl
  | configure hidle ho =>
    apply hsame
    cases hc : w.st.config with
    | none =>
      have hzero : w.st.revision = 0 := by
        unfold Sys.revision Sys.status
        rw [hc]
        rfl
      rw [hzero]
      rfl
    | some c =>
      have hown := (hb.ledger c hc).1
      rw [ho] at hown
      cases hown
  | stage hc hst =>
    obtain ⟨-, -, rfl⟩ := Configuration.stage_spec hst
    exact hsame (hstate hc rfl)
  | restore hc _ hst =>
    obtain ⟨-, -, rfl⟩ := Configuration.stage_spec hst
    exact hsame (hstate hc rfl)
  | observe hc hob =>
    obtain ⟨health, rfl⟩ := Configuration.observe_spec hob
    exact hsame (hstate hc rfl)
  | approve hc hap =>
    obtain ⟨x, -, -, -, -, rfl⟩ := Configuration.approve_spec hap
    exact hsame (hstate hc rfl)
  | reject hc hre =>
    obtain ⟨x, -, -, rfl⟩ := Configuration.reject_spec hre
    exact hsame (hstate hc rfl)
  | late x hc =>
    obtain ⟨t, f, htime⟩ := Configuration.time_spec _ _
    refine hsame (hstate hc ?_)
    rw [htime]
  | @activate _ c k receipt x t routes hidle ho hc hx ht hr =>
    obtain ⟨u, f, htime⟩ := c.time_spec (some t)
    have hrev := Sys.revision_config hc
    have hnext : Sys.revision { w.st.onClient (.rebind routes.1 routes.2 (some .configuration)) with
        config := some ((c.time (some t)).2.publish x receipt) } = c.state.revision + 1 := by
      rw [htime]
      rfl
    refine h.cons rfl rfl (.inr ⟨_, rest, hlog, rfl, by rw [hrev]; exact hnext, rfl, ⟨_, _, _, rfl⟩, ?_⟩)
    have hret : ∀ {k n : ℕ}, k = n → (Act.ret (.ok (Return.revision k)) : Act Op Answer Exc Method Return) =
        .ret (.ok (.revision n)) := fun heq => by rw [heq]
    exact hret hnext.symm

theorem counted_step (hb : Booked w) (hs : Step codec w w') (h : Counted w) : Counted w' := by
  cases hs with
  | enter m => exact h.cons rfl rfl (.inl rfl)
  | ret i r _ _ => exact h.cons rfl rfl (.inl rfl)
  | refuse i _ _ => exact h.cons rfl rfl (.inl rfl)
  | deliver i _ _ _ _ =>
    refine h.cons rfl rfl (.inl ?_)
    show w.st.deliver.revision = w.st.revision
    unfold Sys.deliver
    split <;> rfl
  | ask i op _ => exact h.cons rfl rfl (.inl rfl)
  | answer i op x _ => exact h.cons rfl rfl (.inl rfl)
  | launch i c op _ _ => exact h.cons rfl rfl (.inl rfl)
  | began i c op x _ _ _ _ _ => exact h.cons rfl rfl (.inl rfl)
  | cancel i c j _ _ _ => exact h.cons rfl rfl (.inl rfl)
  | canceled i c j x _ _ _ => exact h.cons rfl rfl (.inl rfl)
  | operate i m s r rest _ hlog hop => exact counted_operate hb h hlog hop
  | time c now hc =>
    obtain ⟨t, f, htime⟩ := c.time_spec now
    apply h.put
    rw [Sys.revision_config hc, htime]
    rfl
  | disable i c s rest _ _ hc hlog hs =>
    refine ⟨h.entries, fun e older heq => ?_⟩
    rw [World.put_log, hlog] at heq
    obtain ⟨rfl, -⟩ := List.cons.inj heq
    refine .inr ⟨?_, rfl⟩
    show c.state.revision + 1 = Sys.revision s + 1
    rw [Sys.revision_config hs]
  | _ => exact h.put rfl

theorem Path.counted (h₀ : Fresh s₀) (h : Path codec s₀ w) : Counted w := by
  refine h.induction (P := Counted) ⟨fun newer e e' older heq => ?_, fun e older heq => by cases heq⟩
    fun _ _ hp h hs => counted_step (hp.booked h₀) hs h
  simp at heq

/-! ## Authority -/

/-- **What a configuration does in a run.** -/
structure Authority (w : GWorld digest) : Prop where
  /-- A call of `activate` raises and leaves everything but the clock, or is an activation. -/
  activations : ∀ newer (e : GEntry digest) older (m : GEntry digest) k receipt now r,
    w.log = newer ++ e :: older → e.act = .ret r →
    m ∈ older → m.frame = e.frame → m.act = .invoke (.activate k receipt now) →
    ∃ rest, older = m :: rest ∧ ((∃ x, r = .error x ∧ Untouched m.st e.st) ∨
      ∃ x t c, x.id = k ∧ now = some t ∧ Activation e m rest x receipt t c)
  /-- Each candidate and each receipt is used once. -/
  once : ∀ newer e m older x y receipt r n t c, w.log = newer ++ e :: m :: older →
    Activation e m older x receipt t c → Activated older y r n →
    y.id ≠ x.id ∧ r ≠ receipt ∧ n ≤ c.state.revision
  /-- The active candidate was activated, and the routes are its own. -/
  standing : ∀ n x, w.st.status = some (.active n x) → Standing w.log x n w.st.client
  /-- The revision counts. -/
  counted : Counted w
  /-- A call of `disable` that returns, or that a callback broke off, made one revision; any
  other one left everything. -/
  shuts : ∀ newer (e : GEntry digest) older (m : GEntry digest) r, w.log = newer ++ e :: older → e.act = .ret r → m ∈ older →
    m.frame = e.frame → m.act = .invoke .disableConfiguration → Ends .disableConfiguration m.st e.st r

theorem Path.authority (h₀ : Fresh s₀) (h : Path codec s₀ w) : Authority w where
  activations _ _ _ _ _ _ _ _ hlog hact hm hf hmeth := h.activation h₀ hlog hact hm hf hmeth
  once _ _ _ _ _ _ _ _ _ _ _ hlog hact hbefore := h.once h₀ hlog hact hbefore
  standing n x hst := by
    obtain ⟨c, hc, hactive⟩ := Option.map_eq_some_iff.1 hst
    exact ((h.booked h₀).ledger c hc).2.standing n x hactive
  counted := h.counted h₀
  shuts _ _ _ _ _ hlog hact hm hf hmeth := h.shuts hlog hact hm hf hmeth

/-! ## An example -/

namespace Example

def sha (_ : Manifest) : String := "e3b0c44298fc1c149afbf4c8996fb92427ae41e4649b934ca495991b7852b855"

def manifest : Manifest where
  provider := unhealthy hostRoute.provider
  artifactSha256 := "2c26b46b68ffc68ff99b453c1d30413413422d706483bfa0f98a5e886266e7ae"
  resources := ⟨1, 0, 1, 1, 1⟩
  dormant := ⟨rfl, rfl⟩
  offers := ⟨by decide, by decide⟩

def evidence : Evidence where
  manifestDigest := sha manifest
  bundleDigest := "fcde2b2edba56bf408601fb721fe9b5c338d10ee429ea04fae5511b68fbf8fb9"
  run := ⟨"m1", .synthetic, "bundle-1", true, true, true, [("case-1", .pass)], true, by decide⟩

def parts : Parts :=
  ⟨[manifest], hostRoute, none, ⟨1000, false, false, [], ⟨1, 1, 1, 1, 1⟩, .zero⟩, [evidence]⟩

/-- The candidate is staged, observed, approved and activated. -/
def activated : List (Input Answer Method) :=
  [.invoke .configure, .invoke (.stage parts), .invoke (.observe 0 "host-llm" (some .healthy) (some 0)),
    .invoke (.approve 0 true), .invoke (.activate 0 1 (some 0))]

/-- `disable` cancels the job of the active call, which raises what is no `Exception`. -/
def broken : List (Input Answer Method) := [.invoke .disableConfiguration, .reply (.raised .interrupt)]

/-- The client before it is claimed. -/
def unclaimed : Sys sha := fresh sha hostRoute (some vmRoute) 1

end Example

/-- **Configuration authority**, in every run: each activation was approved for its candidate at
its revision, and is the only one of its candidate and its receipt; what it activates is vetted;
and the revision counts the activations and the disablings. -/
theorem configuration_authority {cfg : GConfig digest}
    (h : (gateway codec digest).Reachable (fresh digest host localRoute version) cfg) :
    Authority cfg.w :=
  (reachable_path fresh_fresh h).authority fresh_fresh

/-- The last call activated a candidate, without a callback. -/
def activates (c : GConfig digest) : Bool :=
  match c.w.log with
  | ⟨i, .ret (.ok _), _⟩ :: ⟨j, .invoke (.activate ..), _⟩ :: _ => i == j
  | _ => false

theorem configuration_authority_activated :
    ∃ (cfg : GConfig Example.sha) (e m : GEntry Example.sha) (older : List (GEntry Example.sha))
      (x : Providers.Candidate Example.sha) (receipt : ℕ) (t : ℤ) (c : Configuration Example.sha),
      (gateway Example.json Example.sha).Reachable Example.unclaimed cfg ∧ cfg.w.log = e :: m :: older ∧
        Activation e m older x receipt t c := by
  obtain ⟨cfg, hcfg, ht⟩ := Machine.Reachable.of_run (gateway Example.json Example.sha) Example.unclaimed
    Example.activated activates (by rw [Example.json_data]; decide +kernel)
  unfold activates at ht
  split at ht
  · rename_i i v s j k receipt now s' older hlog
    have hij : i = j := by simpa using ht
    obtain ⟨rest, hold, ⟨x, hx, -⟩ | ⟨x, t, c, -, -, hact⟩⟩ := (configuration_authority hcfg).activations
      [] _ _ _ k receipt now _ hlog rfl List.mem_cons_self hij.symm rfl
    · cases hx
    · obtain ⟨-, rfl⟩ := List.cons.inj hold
      exact ⟨cfg, _, _, _, x, receipt, t, c, hcfg, hlog, hact⟩
  · cases ht

/-- The last call was `disable` of the configuration, which raised what no handler catches and a new revision. -/
def breaks (c : GConfig digest) : Bool :=
  match c.w.log with
  | ⟨i, .ret (.error .interrupt), s⟩ :: older => older.any fun m => m.frame == i &&
    (m.act matches .invoke .disableConfiguration) && s.revision == m.st.revision + 1
  | _ => false

/-- **`disable` raises after the revision rose**: the job of the active call is canceled, and its
`cancel` raises what no handler catches. -/
theorem disable_raises :
    ∃ cfg : GConfig Example.sha, (gateway Example.json Example.sha).Reachable Example.unclaimed cfg ∧
      ∃ e older m, cfg.w.log = e :: older ∧ m ∈ older ∧ m.frame = e.frame ∧
        m.act = .invoke .disableConfiguration ∧ e.act = .ret (.error .interrupt) ∧
        e.st.revision = m.st.revision + 1 := by
  obtain ⟨cfg, hcfg, ht⟩ := Machine.Reachable.of_run (gateway Example.json Example.sha) Example.unclaimed
    (Example.activated ++ Example.begun ++ Example.broken) breaks (by rw [Example.json_data]; decide +kernel)
  unfold breaks at ht
  split at ht
  · rename_i i s older hlog
    obtain ⟨m, hm, hcond⟩ := List.any_eq_true.1 ht
    rw [Bool.and_eq_true, Bool.and_eq_true] at hcond
    obtain ⟨⟨hframe, hmeth⟩, hrev⟩ := hcond
    refine ⟨cfg, hcfg, _, older, m, hlog, hm, by simpa using hframe, ?_, rfl, by simpa using hrev⟩
    split at hmeth
    · assumption
    · cases hmeth
  · cases ht

/-! ## The gate -/

/-- The configuration is active. -/
def Sys.Live (s : Sys digest) : Prop := ∃ n x, s.status = some (.active n x)

/-- In the newer part of a log, a candidate was activated. -/
def Reactivated (newer older : List (GEntry digest)) : Prop :=
  ∃ after e between m rest x receipt t c, newer = after ++ e :: between ∧ between ++ older = m :: rest ∧
    Activation e m rest x receipt t c

/-- **Only an activation makes the configuration active.** -/
theorem Step.live (hb : Booked w) (hs : Step codec w w') (h : w'.st.Live) (hn : ¬ w.st.Live) :
    ∃ y m rest x receipt t c, w'.log = y :: w.log ∧ w.log = m :: rest ∧
      Activation y m rest x receipt t c := by
  have hsame : w'.st.status = w.st.status → False := by
    intro heq
    obtain ⟨n, x, hx⟩ := h
    exact hn ⟨n, x, heq ▸ hx⟩
  have hstate : ∀ {c c' : Configuration digest}, w.st.config = some c → w'.st.config = some c' →
      c'.state = c.state → False := by
    intro c c' hc hc' hst
    apply hsame
    unfold Sys.status
    rw [hc, hc', Option.map_some, Option.map_some, hst]
  cases hs with
  | deliver i _ _ _ _ =>
    refine absurd ?_ hsame
    show w.st.deliver.status = w.st.status
    unfold Sys.deliver
    split <;> rfl
  | time c now hc =>
    obtain ⟨t, f, htime⟩ := c.time_spec now
    exact (hstate hc rfl (by rw [htime])).elim
  | disable i c s rest _ _ hc _ _ =>
    obtain ⟨n, x, hx⟩ := h
    cases hx
  | operate i m s r rest _ hlog hop =>
    cases hop with
    | refused m x => exact (hsame rfl).elim
    | configure hidle ho =>
      obtain ⟨n, x, hx⟩ := h
      cases hx
    | stage hc hst =>
      obtain ⟨-, -, rfl⟩ := Configuration.stage_spec hst
      exact (hstate hc rfl rfl).elim
    | restore hc _ hst =>
      obtain ⟨-, -, rfl⟩ := Configuration.stage_spec hst
      exact (hstate hc rfl rfl).elim
    | observe hc hob =>
      obtain ⟨health, rfl⟩ := Configuration.observe_spec hob
      exact (hstate hc rfl rfl).elim
    | approve hc hap =>
      obtain ⟨x, -, -, -, -, rfl⟩ := Configuration.approve_spec hap
      exact (hstate hc rfl rfl).elim
    | reject hc hre =>
      obtain ⟨x, -, -, rfl⟩ := Configuration.reject_spec hre
      exact (hstate hc rfl rfl).elim
    | late x hc =>
      obtain ⟨t, f, htime⟩ := Configuration.time_spec _ _
      exact (hstate hc rfl (by rw [htime])).elim
    | activate hidle ho hc hx ht hr =>
      have hl := ((hb.ledger _ hc).2.activate hc hx hr hlog rfl).1
      exact ⟨_, _, rest, _, _, _, _, rfl, hlog, hl⟩
  | _ => exact (hsame rfl).elim

/-- **Since the configuration was not active**, it was activated, if it is active now. -/
def Since (w : GWorld digest) : Prop :=
  ∀ newer e older, w.log = newer ++ e :: older → ¬ e.st.Live → w.st.Live →
    Reactivated newer (e :: older)

theorem since_step (hb : Booked w) (hs : Step codec w w') (h : Since w) : Since w' := by
  intro newer e older hlog hdead hlive
  rcases hs.log with heq | ⟨y, heq, -, hst⟩
  · by_cases hw : w.st.Live
    · exact h newer e older (heq.symm.trans hlog) hdead hw
    · obtain ⟨z, m, rest, x, receipt, t, c, hz, -⟩ := hs.live hb hlive hw
      rw [heq] at hz
      exact absurd hz (List.cons_ne_self _ _).symm
  · rw [heq] at hlog
    cases newer with
    | nil =>
      obtain ⟨rfl, -⟩ := List.cons.inj hlog
      rw [hst] at hlive
      exact absurd hlive hdead
    | cons z newer =>
      obtain ⟨rfl, hold⟩ := List.cons.inj hlog
      by_cases hw : w.st.Live
      · obtain ⟨after, e', between, hrest⟩ := h newer e older hold hdead hw
        obtain ⟨m, rest, x, receipt, t, c, rfl, hrest⟩ := hrest
        exact ⟨y :: after, e', between, m, rest, x, receipt, t, c, rfl, hrest⟩
      · obtain ⟨z, m, rest, x, receipt, t, c, hz, hm, hact⟩ := hs.live hb hlive hw
        rw [heq] at hz
        obtain ⟨rfl, -⟩ := List.cons.inj hz
        exact ⟨[], y, newer, m, rest, x, receipt, t, c, rfl, hold.symm.trans hm, hact⟩

theorem Path.since (h₀ : Fresh s₀) (h : Path codec s₀ w) : Since w := by
  refine h.induction (P := Since) (fun newer e older heq => ?_)
    fun _ _ hp h hs => since_step (hp.booked h₀) hs h
  simp at heq

/-- What the permit of the configuration allows. -/
theorem permits_spec {c : Configuration digest} {provider : Provider} {service : Service} {now : ℤ}
    (h : c.permits provider service now = true) :
    ∃ n x m o, c.state = .active n x ∧ m ∈ x.manifests ∧ m.provider.providerId = provider.providerId ∧
      m.provider.modelVersion = provider.modelVersion ∧ service.text ∈ m.provider.capabilities ∧
      c.health.get (digest m) = some o ∧ 0 ≤ now - o.observedAtMs ∧
      now - o.observedAtMs ≤ x.policy.healthTtlMs ∧ o.status ≠ .unavailable ∧
      (o.status = .degraded → x.policy.allowDegraded = true) ∧
      ∀ p, (totals x.manifests x.policy p).within (x.policy.budget p) = true := by
  unfold Configuration.permits at h
  split at h
  · cases h
  rename_i n x hst
  split at h
  · cases h
  rename_i m hfind
  rw [Bool.and_eq_true, Bool.and_eq_true] at h
  obtain ⟨⟨hservice, hhealthy⟩, hbudget⟩ := h
  have hmatch := List.find?_some hfind
  simp only [Bool.and_eq_true, decide_eq_true_eq] at hmatch
  have hobs : ∃ o, c.health.get (digest m) = some o ∧ 0 ≤ now - o.observedAtMs ∧
      now - o.observedAtMs ≤ x.policy.healthTtlMs ∧ o.status ≠ .unavailable ∧
      (o.status = .degraded → x.policy.allowDegraded = true) := by
    unfold Configuration.healthy at hhealthy
    split at hhealthy
    · cases hhealthy
    rename_i o ho
    split at hhealthy
    · rename_i hcond
      exact ⟨o, ho, hcond⟩
    · cases hhealthy
  have hwithin : ∀ p, (totals x.manifests x.policy p).within (x.policy.budget p) = true := by
    unfold checkBudgets at hbudget
    split at hbudget
    · rename_i hall
      simp only [List.all_cons, List.all_nil, Bool.and_true, Bool.and_eq_true] at hall
      intro p
      cases p with
      | host => exact hall.1
      | vm => exact hall.2
    · cases hbudget
  obtain ⟨o, ho, hlow, hhigh, havail, hdeg⟩ := hobs
  exact ⟨n, x, m, o, hst, List.mem_of_find?_eq_some hfind, hmatch.1, hmatch.2, by simpa using hservice, ho,
    hlow, hhigh, havail, hdeg, hwithin⟩

/-- **What an attempt is begun on** while a configuration owns the client: candidate `x` is active
since it made revision `n`, the route is as it was rebound then, and `m` is its manifest. -/
structure Gated (codec : Codec) (e : GEntry digest) (older : List (GEntry digest)) (op : Op)
    (call : Call) (x : Providers.Candidate digest) (n : ℕ) (m : Manifest) (o : Observation) : Prop where
  begun : e.st.client.active = some call ∧ Launches codec call op
  active : ∃ c, e.st.config = some c ∧ c.state = .active n x ∧ c.health.get (digest m) = some o
  route : Standing older x n e.st.client ∧ (call.route = .host e.st.client.host ∨
    ∃ l, call.route = .vm l ∧ e.st.client.localRoute = some l)
  manifest : m ∈ x.manifests ∧ m.provider.providerId = call.route.provider.providerId ∧
    m.provider.modelVersion = call.route.provider.modelVersion
  service : call.request.service.text ∈ m.provider.capabilities
  status : o.status ≠ .unavailable ∧ (o.status = .degraded → x.policy.allowDegraded = true)
  age : ∃ t, call.lastTime = some t ∧ 0 ≤ t - o.observedAtMs ∧ t - o.observedAtMs ≤ x.policy.healthTtlMs
  budgets : ∀ p, (totals x.manifests x.policy p).within (x.policy.budget p) = true

theorem Path.gated (h₀ : Fresh s₀) (h : Path codec s₀ w) {op : Op} (hlog : w.log = newer ++ e :: older)
    (hact : e.act = .call op) (hop : op.begins.isSome) (hc : e.st.config.isSome) :
    ∃ call x n m o, Gated codec e older op call x n m o := by
  obtain ⟨a, call, hpa, hla, hst, hadm, hl⟩ := h.launched hlog hact hop
  obtain ⟨c, hc⟩ := Option.isSome_iff_exists.1 hc
  have hledger := ((hpa.booked h₀).ledger c (by rw [hst]; exact hc)).2
  rw [hla, hst] at hledger
  have hrouted := hpa.routed h₀
  rw [hst] at hrouted
  have hpermits := hadm.permit
  unfold Permits at hpermits
  rw [hledger.gate hadm.enabled] at hpermits
  obtain ⟨c', hc', hpermits⟩ := hpermits
  obtain rfl : c = c' := Option.some_inj.1 (hc.symm.trans hc')
  obtain ⟨n, x, m, o, hactive, hm, hid, hver, hservice, ho, hlow, hhigh, havail, hdeg, hwithin⟩ :=
    permits_spec hpermits
  obtain ⟨t, d, ht, -, -⟩ := hadm.time
  rw [ht, Option.getD_some] at hlow hhigh
  refine ⟨call, x, n, m, o, ⟨hadm.active, hl⟩, ⟨c, hc, hactive, ho⟩, ⟨hledger.standing n x hactive, ?_⟩,
    ⟨hm, hid, hver⟩, hservice, ⟨havail, hdeg⟩, ⟨t, ht, hlow, hhigh⟩, hwithin⟩
  cases hroute : call.route with
  | host k => exact .inl (by rw [hrouted.host call k hadm.active hroute])
  | vm l => exact .inr ⟨l, rfl, (hrouted.vm call l hadm.active hroute).1⟩

/-- A configuration stays. -/
theorem Step.config (hs : Step codec w w') (h : w.st.config.isSome) : w'.st.config.isSome := by
  cases hs with
  | deliver i _ _ _ _ =>
    show w.st.deliver.config.isSome
    unfold Sys.deliver
    split <;> exact h
  | time c now hc => rfl
  | disable i c s rest _ _ hc _ _ => rfl
  | operate i m s r rest _ hlog hop =>
    cases hop with
    | refused m x => exact h
    | _ => rfl
  | _ => exact h

theorem Path.config (h : Path codec s₀ w) : ∀ e ∈ w.log, e.st.config.isSome → w.st.config.isSome := by
  refine h.induction (P := fun w => ∀ e ∈ w.log, e.st.config.isSome → w.st.config.isSome)
    (fun e he => by cases he) fun w w' _ hw hs e he hc => ?_
  rcases hs.log with heq | ⟨y, heq, -, hst⟩
  · exact hs.config (hw e (heq ▸ he) hc)
  · rw [heq] at he
    rcases List.mem_cons.1 he with rfl | he
    · rw [hst]
      exact hc
    · exact hs.config (hw e he hc)

/-- **After `disable` returned**, nothing is begun before the next activation. -/
theorem Path.disabled (h₀ : Fresh s₀) (h : Path codec s₀ w) {between : List (GEntry digest)}
    {d : GEntry digest} {op : Op} {v : Return} (hlog : w.log = newer ++ e :: (between ++ d :: older))
    (hact : e.act = .call op) (hop : op.begins.isSome) (hret : d.act = .ret (.ok v)) (hm : m ∈ older)
    (hf : m.frame = d.frame) (hmeth : m.act = .invoke .disableConfiguration) :
    Reactivated between (d :: older) := by
  have hlog' : w.log = (newer ++ e :: between) ++ d :: older := by
    rw [hlog, List.append_assoc, List.cons_append]
  obtain ⟨y, hdead⟩ : ∃ y, d.st.status = some (shut y) := by
    rcases h.shuts hlog' hret hm hf hmeth with ⟨y, -, hy, -⟩ | ⟨⟨x, hx⟩, -⟩
    · exact ⟨y, hy⟩
    · cases hx
  obtain ⟨a, call, hpa, hla, hst, hadm, hl⟩ := h.launched hlog hact hop
  have hconf : e.st.config.isSome := by
    rw [← hst]
    refine hpa.config d (by rw [hla]; simp) ?_
    obtain ⟨c, hc, -⟩ := Option.map_eq_some_iff.1 hdead
    rw [hc]
    rfl
  obtain ⟨call, x, n, m', o, hgated⟩ := h.gated h₀ hlog hact hop hconf
  obtain ⟨c, hc, hactive, -⟩ := hgated.active
  refine hpa.since h₀ between d older hla (fun hlive => ?_) ⟨n, x, ?_⟩
  · obtain ⟨n', x', hx'⟩ := hlive
    rw [hdead] at hx'
    cases hx'
  · rw [hst]
    unfold Sys.status
    rw [hc, Option.map_some, hactive]

/-- **The configuration gates the gateway**, in every run: while it owns the client, an attempt is
begun only on the routes of the active candidate, as far as its manifest, the last observation and
the budgets allow; and none after `disable` returned, until the next activation. -/
theorem configuration_gate {cfg : GConfig digest}
    (h : (gateway codec digest).Reachable (fresh digest host localRoute version) cfg) :
    (∀ newer e older op, cfg.w.log = newer ++ e :: older → e.act = .call op → op.begins.isSome →
      e.st.client.owner = some .configuration → ∃ call x n m o, Gated codec e older op call x n m o) ∧
    (∀ newer e between d older op v m, cfg.w.log = newer ++ e :: (between ++ d :: older) →
      e.act = .call op → op.begins.isSome → d.act = .ret (.ok v) → m ∈ older → m.frame = d.frame →
      m.act = .invoke .disableConfiguration → Reactivated between (d :: older)) := by
  have hpath := reachable_path fresh_fresh h
  refine ⟨fun newer e older op hlog hact hop howner => hpath.gated fresh_fresh hlog hact hop ?_,
    fun _ _ _ _ _ _ _ _ hlog hact hop hret hm hf hmeth =>
      hpath.disabled fresh_fresh hlog hact hop hret hm hf hmeth⟩
  obtain ⟨a, -, hpa, -, hst, -, -⟩ := hpath.launched hlog hact hop
  rw [← hst] at howner ⊢
  by_contra hnone
  have hno := (hpa.booked fresh_fresh).unclaimed (by simpa using hnone)
  exact hno.1 howner

/-- The last entry begins an attempt for a client that a configuration owns. -/
def beginsOwned (c : GConfig digest) : Bool :=
  match c.w.log with
  | ⟨_, .call op, s⟩ :: _ => op.begins.isSome && s.client.owner == some .configuration
  | _ => false

theorem configuration_gate_begun :
    ∃ (cfg : GConfig Example.sha) (e : GEntry Example.sha) (older : List (GEntry Example.sha)) (op : Op)
      (call : Call) (x : Providers.Candidate Example.sha) (n : ℕ) (m : Manifest) (o : Observation),
      (gateway Example.json Example.sha).Reachable Example.unclaimed cfg ∧ cfg.w.log = e :: older ∧
        e.act = .call op ∧ op.begins.isSome ∧ Gated Example.json e older op call x n m o := by
  obtain ⟨cfg, hcfg, ht⟩ := Machine.Reachable.of_run (gateway Example.json Example.sha) Example.unclaimed
    (Example.activated ++ Example.begun.take 4) beginsOwned (by rw [Example.json_data]; decide +kernel)
  unfold beginsOwned at ht
  split at ht
  · rename_i i op s older hlog
    rw [Bool.and_eq_true] at ht
    obtain ⟨hop, howner⟩ := ht
    obtain ⟨call, x, n, m, o, hgated⟩ := (configuration_gate hcfg).1 [] _ older op hlog rfl hop
      (by simpa using howner)
    exact ⟨cfg, _, older, op, call, x, n, m, o, hcfg, hlog, rfl, hop, hgated⟩
  · cases ht

end Gateway

end Arhugula
