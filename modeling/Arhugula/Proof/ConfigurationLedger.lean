import Arhugula.Proof.GatewayTrace

/-!
# The ledger of a provider configuration

What the operations of a `Configuration` do to it, one lemma for each (`stage_spec` and so on),
and what holds of its candidates, receipts and routes wherever a path of the gateway leads
(`Ledger`): each receipt that can be used was issued for its candidate, what was activated once
cannot be activated again, and the routes of the client are those of the last activation.
-/

namespace Arhugula

namespace Providers

variable {digest : Manifest → String}

/-! ## Evaluation -/

/-- **A sound run**: pinned, deterministic, independently evaluated, in consensus, and every
case passes. -/
structure Sound (r : ReplayRun) : Prop where
  pinned : r.pinned = true
  deterministic : r.deterministic = true
  independent : r.independentlyEvaluated = true
  consensus : r.evaluatorConsensus = true
  passes : ∀ o ∈ r.outcomes, o.2 = .pass

/-- `e` has the bundle and the cases of `b`. -/
structure Retains (b e : Evidence) : Prop where
  digest : e.bundleDigest = b.bundleDigest
  bundle : e.run.bundleId = b.run.bundleId
  cases : e.run.outcomes.sameKeys b.run.outcomes = true

/-- **Evidence that was compared** with that of the previous configuration: every run is sound,
what is retained has its bundle and its cases, and new roles need a bootstrap approval. -/
structure Vetted (baseline proposed : List Evidence) (bootstrap : Bool) : Prop where
  sound : ∀ e ∈ proposed, Sound e.run
  retained : ∀ (k : ℕ) (b e : Evidence), baseline[k]? = some b → proposed[k]? = some e → Retains b e
  bootstrap : baseline.length < proposed.length → bootstrap = true

/-- What `promotion` promotes: a sound run of the same bundle, on the same cases. -/
theorem promotion_promotes {active candidate : ReplayRun} {labels : List Label} {ready : Bool}
    (h : (promotion active candidate labels ready).promote = true) :
    Sound candidate ∧ candidate.bundleId = active.bundleId ∧
      candidate.outcomes.sameKeys active.outcomes = true := by
  unfold promotion holdReasons at h
  rw [List.isEmpty_iff, List.filterMap_eq_nil_iff] at h
  simp only [List.forall_mem_cons, ite_eq_right_iff, reduceCtorEq, imp_false, Bool.not_eq_true,
    Bool.not_eq_false', decide_eq_false_iff_not, not_not] at h
  obtain ⟨-, -, -, -, hp, hd, hi, hc, hb, -, hk, -, hf, -⟩ := h
  refine ⟨⟨hp, hd, hi, hc, fun o ho => ?_⟩, hb, hk⟩
  have hne := List.any_eq_false.1 hf o ho
  cases hout : o.2 with
  | pass => rfl
  | fail =>
    rw [hout] at hne
    exact absurd rfl hne

namespace Configuration

/-- A new role is evaluated on its own, and needs a bootstrap approval. -/
theorem evaluateRole_none {e : Evidence} {bootstrap : Bool} (h : evaluateRole none e bootstrap = .ok ()) :
    Sound e.run ∧ bootstrap = true := by
  simp only [evaluateRole] at h
  split at h
  · rename_i hchecks
    simp only [Bool.and_eq_true, List.all_eq_true, decide_eq_true_eq] at hchecks
    obtain ⟨⟨⟨⟨⟨hp, hd⟩, hi⟩, hc⟩, ho⟩, hb⟩ := hchecks
    exact ⟨⟨hp, hd, hi, hc, ho⟩, hb⟩
  · cases h

/-- A retained role is compared with what it replaces. -/
theorem evaluateRole_some {b e : Evidence} {bootstrap : Bool}
    (h : evaluateRole (some b) e bootstrap = .ok ()) : Sound e.run ∧ Retains b e := by
  simp only [evaluateRole] at h
  split at h
  · cases h
  rename_i hbundle
  split at h
  · rename_i hpromote
    obtain ⟨hsound, hid, hk⟩ := promotion_promotes hpromote
    exact ⟨hsound, (not_not.1 hbundle).symm, hid, hk⟩
  · cases h

theorem evaluate_spec {bootstrap : Bool} {baseline proposed : List Evidence}
    (h : evaluate bootstrap baseline proposed = .ok ()) : Vetted baseline proposed bootstrap := by
  fun_induction evaluate bootstrap baseline proposed with
  | case1 baseline => exact ⟨by simp, by simp, by simp⟩
  | case2 e rest ih =>
    cases hrole : evaluateRole none e bootstrap with
    | error x =>
      rw [hrole] at h
      cases h
    | ok u =>
      rw [hrole] at h
      have ih := ih h
      obtain ⟨hsound, hb⟩ := evaluateRole_none hrole
      refine ⟨fun e' he' => ?_, by simp, fun _ => hb⟩
      rcases List.mem_cons.1 he' with rfl | he'
      · exact hsound
      · exact ih.sound e' he'
  | case3 b baselines e rest ih =>
    cases hrole : evaluateRole (some b) e bootstrap with
    | error x =>
      rw [hrole] at h
      cases h
    | ok u =>
      rw [hrole] at h
      have ih := ih h
      obtain ⟨hsound, hretains⟩ := evaluateRole_some hrole
      refine ⟨fun e' he' => ?_, fun k b' e' hb' he' => ?_, fun hlen => ?_⟩
      · rcases List.mem_cons.1 he' with rfl | he'
        · exact hsound
        · exact ih.sound e' he'
      · cases k with
        | zero =>
          cases hb'
          cases he'
          exact hretains
        | succ k => exact ih.retained k b' e' hb' he'
      · exact ih.bootstrap (by simpa using hlen)

/-! ## One lemma for each operation -/

variable {c c' : Configuration digest} {x : Candidate digest} {k receipt : ℕ} {bootstrap : Bool}

theorem owned_spec (h : c.owned k = .ok x) : x ∈ c.staged ∧ x.id = k := by
  unfold owned at h
  split at h
  · rename_i s hs
    cases h
    exact ⟨List.mem_of_find?_eq_some hs, by simpa using List.find?_some hs⟩
  · cases h

theorem stage_spec {manifests : List Manifest} {host : Host} {localRoute : Option Local}
    {policy : Policy} {evidence : List Evidence}
    (h : c.stage manifests host localRoute policy evidence = .ok (x, c')) :
    x.id = c.made ∧ x.baseline = c.state.revision ∧
      c' = { c with staged := x :: c.staged, made := c.made + 1 } := by
  unfold stage at h
  split at h
  · cases h
  split at h
  · cases h
  cases h
  exact ⟨rfl, rfl, rfl⟩

theorem observe_spec {providerId : String} {status : Option Health} {observedAtMs : Option ℤ}
    (h : c.observe k providerId status observedAtMs = .ok c') : ∃ health, c' = { c with health := health } := by
  unfold observe at h
  cases howned : c.owned k with
  | error e =>
    rw [howned] at h
    cases h
  | ok s =>
    rw [howned] at h
    simp only [bind, Except.bind] at h
    split at h
    · split at h
      · cases h
      split at h
      · cases h
      cases h
      exact ⟨_, rfl⟩
    · cases h

theorem approve_spec (h : c.approve k bootstrap = .ok (receipt, c')) :
    ∃ x ∈ c.staged, x.id = k ∧ x.baseline = c.state.revision ∧ receipt = c.made ∧
      c' = { c with approvals := (c.made, ⟨x, bootstrap⟩) :: c.approvals, made := c.made + 1 } := by
  unfold approve at h
  cases howned : c.owned k with
  | error e =>
    rw [howned] at h
    cases h
  | ok s =>
    rw [howned] at h
    simp only [bind, Except.bind] at h
    split at h
    · cases h
    split at h
    · cases h
    rename_i hbase
    split at h
    · cases h
    cases h
    obtain ⟨hmem, hid⟩ := owned_spec howned
    exact ⟨s, hmem, hid, not_not.1 hbase, rfl, rfl⟩

theorem reject_spec (h : c.reject k = .ok c') :
    ∃ x ∈ c.staged, x.id = k ∧ c' = { c with
      staged := c.staged.filter fun y => y.id ≠ x.id
      approvals := c.approvals.filter fun a => a.2.candidate.id ≠ x.id } := by
  unfold reject at h
  cases howned : c.owned k with
  | error e =>
    rw [howned] at h
    cases h
  | ok s =>
    rw [howned] at h
    simp only [bind, Except.bind] at h
    split at h
    · cases h
    cases h
    obtain ⟨hmem, hid⟩ := owned_spec howned
    exact ⟨s, hmem, hid, rfl⟩

theorem time_spec (c : Configuration digest) (now : Option ℤ) :
    ∃ t f, (c.time now).2 = { c with lastTime := t, clockFault := f } := by
  unfold time
  split
  · split
    · exact ⟨_, _, rfl⟩
    · exact ⟨_, _, rfl⟩
  · exact ⟨_, _, rfl⟩

theorem approved_spec (h : c.approved k receipt = .ok x) :
    x ∈ c.staged ∧ x.id = k ∧ x.baseline = c.state.revision ∧
      ∃ a, (receipt, a) ∈ c.approvals ∧ a.candidate.id = x.id ∧
        Vetted c.baseline x.evidence a.bootstrap := by
  unfold approved at h
  cases howned : c.owned k with
  | error e =>
    rw [howned] at h
    cases h
  | ok s =>
    rw [howned] at h
    simp only [bind, Except.bind] at h
    split at h
    · cases h
    rename_i hbase
    split at h
    · cases h
    rename_i r a hfind
    split at h
    · cases h
    rename_i hsame
    cases hev : evaluate a.bootstrap c.baseline s.evidence with
    | error e =>
      rw [hev] at h
      cases h
    | ok u =>
      rw [hev] at h
      cases h
      obtain ⟨hmem, hid⟩ := owned_spec howned
      have hkey : r = receipt := by simpa using List.find?_some hfind
      subst hkey
      exact ⟨hmem, hid, not_not.1 hbase, a, List.mem_of_find?_eq_some hfind, not_not.1 hsame,
        evaluate_spec hev⟩

end Configuration

end Providers

namespace Gateway

open Reentrant Providers

variable {digest : Manifest → String} {codec : Codec} {s₀ : Sys digest} {w w' : GWorld digest}
  {e m : GEntry digest} {log newer older : List (GEntry digest)} {x : Providers.Candidate digest}
  {receipt n : ℕ}

/-! ## Approvals and activations -/

/-- **The receipt was issued** for this candidate, at the revision that the candidate is for. -/
def Issued (log : List (GEntry digest)) (receipt : ℕ) (x : Providers.Candidate digest) (bootstrap : Bool) : Prop :=
  ∃ newer, ∃ e m : GEntry digest, ∃ older c, log = newer ++ e :: m :: older ∧ e.frame = m.frame ∧
    m.act = .invoke (.approve x.id bootstrap) ∧ e.act = .ret (.ok (.receipt receipt)) ∧
    m.st.config = some c ∧ x ∈ c.staged ∧ x.baseline = c.state.revision

/-- **An activation** of `x` with `receipt`, called in `m` and returned from in `e`. -/
structure Activation (e m : GEntry digest) (older : List (GEntry digest)) (x : Providers.Candidate digest)
    (receipt : ℕ) (t : ℤ) (c : Configuration digest) : Prop where
  called : m.act = .invoke (.activate x.id receipt (some t)) ∧ m.st.config = some c
  returned : e.frame = m.frame ∧ e.act = .ret (.ok (.revision (c.state.revision + 1)))
  staged : x ∈ c.staged ∧ x.baseline = c.state.revision
  approved : ∃ bootstrap, (receipt, ⟨x, bootstrap⟩) ∈ c.approvals ∧
    Issued older receipt x bootstrap ∧ Vetted c.baseline x.evidence bootstrap
  -- the candidate is published, its receipt is gone, and the routes are its own
  published : e.st.config = some ((c.time (some t)).2.publish x receipt)
  rebound : ∃ routes, (c.time (some t)).2.rebound x t = .ok routes ∧
    e.st.client = m.st.client.rebind routes.1 routes.2 (some .configuration)

/-- The log shows an activation of `x` with `receipt`, which made revision `n`. -/
def Activated (log : List (GEntry digest)) (x : Providers.Candidate digest) (receipt n : ℕ) : Prop :=
  ∃ newer e m older t c, log = newer ++ e :: m :: older ∧ Activation e m older x receipt t c ∧
    n = c.state.revision + 1

/-- The routes of the client are those of the activation of `x` that made revision `n`. -/
def Standing (log : List (GEntry digest)) (x : Providers.Candidate digest) (n : ℕ) (client : Client) : Prop :=
  ∃ newer e m older receipt t c, log = newer ++ e :: m :: older ∧ Activation e m older x receipt t c ∧
    n = c.state.revision + 1 ∧ e.st.client.host = client.host ∧ e.st.client.localRoute = client.localRoute

theorem Issued.later {bootstrap : Bool} (h : Issued log receipt x bootstrap) (y : GEntry digest) :
    Issued (y :: log) receipt x bootstrap := by
  obtain ⟨newer, e, m, older, c, rfl, hrest⟩ := h
  exact ⟨y :: newer, e, m, older, c, rfl, hrest⟩

theorem Activated.later (h : Activated log x receipt n) (y : GEntry digest) :
    Activated (y :: log) x receipt n := by
  obtain ⟨newer, e, m, older, t, c, rfl, hrest⟩ := h
  exact ⟨y :: newer, e, m, older, t, c, rfl, hrest⟩

theorem Standing.later {client : Client} (h : Standing log x n client) (y : GEntry digest) :
    Standing (y :: log) x n client := by
  obtain ⟨newer, e, m, older, receipt, t, c, rfl, hrest⟩ := h
  exact ⟨y :: newer, e, m, older, receipt, t, c, rfl, hrest⟩

/-- An activation is in the older part of the log, or was just returned from. -/
theorem Activated.cases {y : GEntry digest} (h : Activated (y :: log) x receipt n) :
    Activated log x receipt n ∨ ∃ m older t c, log = m :: older ∧ Activation y m older x receipt t c ∧
      n = c.state.revision + 1 := by
  obtain ⟨newer, e, m, older, t, c, hlog, hact, hn⟩ := h
  cases newer with
  | nil =>
    obtain ⟨rfl, rfl⟩ := List.cons.inj hlog
    exact .inr ⟨m, older, t, c, rfl, hact, hn⟩
  | cons z newer =>
    obtain ⟨rfl, rfl⟩ := List.cons.inj hlog
    exact .inl ⟨newer, e, m, older, t, c, rfl, hact, hn⟩

/-! ## The ledger -/

/-- **The ledger of a configuration**: identities are used once, receipts are for staged
candidates, and what was activated cannot be activated again. -/
structure Ledger (c : Configuration digest) (client : Client) (log : List (GEntry digest)) : Prop where
  staged : ∀ x ∈ c.staged, x.id < c.made
  distinct : ∀ x ∈ c.staged, ∀ y ∈ c.staged, x.id = y.id → x = y
  receipts : ∀ a ∈ c.approvals, a.1 < c.made ∧ a.2.candidate ∈ c.staged ∧
    Issued log a.1 a.2.candidate a.2.bootstrap
  spent : ∀ x r n, Activated log x r n → r < c.made ∧ (∀ a ∈ c.approvals, a.1 ≠ r) ∧ x.id < c.made ∧
    n ≤ c.state.revision ∧ ∀ y ∈ c.staged, y.id = x.id → y.baseline < n
  standing : ∀ n x, c.state = .active n x → Standing log x n client
  gate : client.disabled = false → client.permit = some .configuration

/-- **The books of a gateway**: a configuration owns the client and keeps its ledger, or there
is none and nothing was activated. -/
structure Booked (w : GWorld digest) : Prop where
  unclaimed : w.st.config = none → w.st.client.owner ≠ some .configuration ∧
    ∀ x r n, ¬ Activated w.log x r n
  ledger : ∀ c, w.st.config = some c → w.st.client.owner = some .configuration ∧
    Ledger c w.st.client w.log

/-- A change of the configuration that leaves candidates, receipts and the state. -/
theorem Ledger.same {c c' : Configuration digest} {client : Client} (h : Ledger c client log)
    (hs : c'.staged = c.staged) (ha : c'.approvals = c.approvals) (hst : c'.state = c.state)
    (hm : c'.made = c.made) : Ledger c' client log := by
  refine ⟨?_, ?_, ?_, ?_, ?_, h.gate⟩
  · rw [hs, hm]
    exact h.staged
  · rw [hs]
    exact h.distinct
  · rw [ha, hs, hm]
    exact h.receipts
  · rw [ha, hs, hm, hst]
    exact h.spent
  · rw [hst]
    exact h.standing

/-- A log entry that returns from no activation. -/
theorem Ledger.push {c : Configuration digest} {client : Client} (h : Ledger c client log)
    (y : GEntry digest) (hy : ∀ x r n, Activated (y :: log) x r n → Activated log x r n) :
    Ledger c client (y :: log) where
  staged := h.staged
  distinct := h.distinct
  receipts a ha := by
    obtain ⟨hlt, hmem, hissued⟩ := h.receipts a ha
    exact ⟨hlt, hmem, hissued.later y⟩
  spent x r n hact := h.spent x r n (hy x r n hact)
  standing n x hst := (h.standing n x hst).later y
  gate := h.gate

/-- A change of the client that leaves the routes. -/
theorem Ledger.client {c : Configuration digest} {client client' : Client} (h : Ledger c client log)
    (hh : client'.host = client.host) (hl : client'.localRoute = client.localRoute)
    (hg : client'.disabled = false → client.disabled = false ∧ client'.permit = client.permit) :
    Ledger c client' log := by
  refine ⟨h.staged, h.distinct, h.receipts, h.spent, fun n x hst => ?_, fun hd => ?_⟩
  · obtain ⟨newer, e, m, older, r, t, c₀, hlog, hact, hn, hhost, hloc⟩ := h.standing n x hst
    exact ⟨newer, e, m, older, r, t, c₀, hlog, hact, hn, hhost.trans hh.symm, hloc.trans hl.symm⟩
  · obtain ⟨hdis, hperm⟩ := hg hd
    rw [hperm]
    exact h.gate hdis

/-! ## One step -/

/-- What a step that is no operation of the configuration leaves. -/
theorem Booked.same (h : Booked w) (hc : w'.st.config = w.st.config)
    (ho : w'.st.client.owner = w.st.client.owner) (hh : w'.st.client.host = w.st.client.host)
    (hl : w'.st.client.localRoute = w.st.client.localRoute)
    (hg : w'.st.client.disabled = false →
      w.st.client.disabled = false ∧ w'.st.client.permit = w.st.client.permit)
    (hlog : w'.log = w.log ∨ ∃ y, w'.log = y :: w.log ∧
      ∀ x r n, Activated (y :: w.log) x r n → Activated w.log x r n) : Booked w' := by
  have hact : ∀ x r n, Activated w'.log x r n → Activated w.log x r n := by
    intro x r n hx
    rcases hlog with heq | ⟨y, heq, hy⟩
    · exact heq ▸ hx
    · exact hy x r n (heq ▸ hx)
  refine ⟨fun hnone => ?_, fun c hsome => ?_⟩
  · obtain ⟨howner, hno⟩ := h.unclaimed (hc ▸ hnone)
    exact ⟨ho ▸ howner, fun x r n hx => hno x r n (hact x r n hx)⟩
  · obtain ⟨howner, hledger⟩ := h.ledger c (hc ▸ hsome)
    refine ⟨ho ▸ howner, ?_⟩
    have hclient := hledger.client hh hl hg
    rcases hlog with heq | ⟨y, heq, hy⟩
    · rw [heq]
      exact hclient
    · rw [heq]
      exact hclient.push y hy

/-- An entry that is no return of a revision returns from no activation. -/
theorem activated_of_act {y : GEntry digest} (hy : ∀ n, y.act ≠ .ret (.ok (.revision n)))
    (h : Activated (y :: log) x receipt n) : Activated log x receipt n := by
  rcases h.cases with hold | ⟨m, older, t, c, -, hact, -⟩
  · exact hold
  · exact absurd hact.returned.2 (hy _)

/-! ## The operations of the configuration -/

section Operations

variable {c c' : Configuration digest} {client : Client} {i k : ℕ} {s : Sys digest}

theorem Ledger.new (client : Client) (hno : ∀ x r n, ¬ Activated log x r n)
    (hd : client.disabled = true) : Ledger (@Configuration.new digest) client log where
  staged x hx := by cases hx
  distinct x hx := by cases hx
  receipts a ha := by cases ha
  spent x r n hact := absurd hact (hno x r n)
  standing n x hst := by cases hst
  gate hdis := by
    rw [hd] at hdis
    cases hdis

theorem Ledger.stage {manifests : List Manifest} {host : Host} {localRoute : Option Local}
    {policy : Providers.Policy} {evidence : List Evidence} (h : Ledger c client log)
    (hst : c.stage manifests host localRoute policy evidence = .ok (x, c')) : Ledger c' client log := by
  obtain ⟨hid, hbase, rfl⟩ := Configuration.stage_spec hst
  refine ⟨fun y hy => ?_, fun y hy z hz heq => ?_, fun a ha => ?_, fun y r n hact => ?_, h.standing, h.gate⟩
  · show y.id < c.made + 1
    rcases List.mem_cons.1 hy with rfl | hy
    · omega
    · have := h.staged y hy
      omega
  · rcases List.mem_cons.1 hy with rfl | hold <;> rcases List.mem_cons.1 hz with rfl | hold'
    · rfl
    · have := h.staged z hold'
      omega
    · have := h.staged y hold
      omega
    · exact h.distinct y hold z hold' heq
  · obtain ⟨hlt, hmem, hissued⟩ := h.receipts a ha
    exact ⟨Nat.lt_succ_of_lt hlt, List.mem_cons_of_mem _ hmem, hissued⟩
  · obtain ⟨hr, hgone, hy, hn, hold⟩ := h.spent y r n hact
    refine ⟨Nat.lt_succ_of_lt hr, hgone, Nat.lt_succ_of_lt hy, hn, fun z hz heq => ?_⟩
    rcases List.mem_cons.1 hz with rfl | hz
    · omega
    · exact hold z hz heq

theorem Ledger.approve {bootstrap : Bool} (h : Ledger c client log)
    (hap : c.approve k bootstrap = .ok (receipt, c')) {m : GEntry digest} {rest : List (GEntry digest)}
    (hlog : log = m :: rest) (hm : m.act = .invoke (.approve k bootstrap)) (hst : m.st.config = some c) :
    Ledger c' client (⟨m.frame, .ret (.ok (.receipt receipt)), s⟩ :: log) := by
  obtain ⟨x, hx, rfl, hbase, rfl, rfl⟩ := Configuration.approve_spec hap
  have hpush := h.push ⟨m.frame, .ret (.ok (.receipt c.made)), s⟩
    fun y r n => activated_of_act fun n heq => by cases heq
  refine ⟨fun y hy => Nat.lt_succ_of_lt (h.staged y hy), h.distinct, fun a ha => ?_,
    fun y r n hact => ?_, hpush.standing, h.gate⟩
  · rcases List.mem_cons.1 ha with rfl | ha
    · exact ⟨Nat.lt_succ_self _, hx, [], ⟨m.frame, .ret (.ok (.receipt c.made)), s⟩, m, rest, c,
        by rw [hlog]; rfl, rfl, hm, rfl, hst, hx, hbase⟩
    · obtain ⟨hlt, hmem, hissued⟩ := hpush.receipts a ha
      exact ⟨Nat.lt_succ_of_lt hlt, hmem, hissued⟩
  · obtain ⟨hr, hgone, hy, hn, hold⟩ := hpush.spent y r n hact
    refine ⟨Nat.lt_succ_of_lt hr, fun a ha => ?_, Nat.lt_succ_of_lt hy, hn, hold⟩
    rcases List.mem_cons.1 ha with rfl | ha
    · exact hr.ne'
    · exact hgone a ha

theorem Ledger.reject (h : Ledger c client log) (hre : c.reject k = .ok c') : Ledger c' client log := by
  obtain ⟨x, hx, rfl, rfl⟩ := Configuration.reject_spec hre
  refine ⟨fun y hy => h.staged y (List.mem_filter.1 hy).1, fun y hy z hz =>
    h.distinct y (List.mem_filter.1 hy).1 z (List.mem_filter.1 hz).1, fun a ha => ?_,
    fun y r n hact => ?_, h.standing, h.gate⟩
  · obtain ⟨hmem, hne⟩ := List.mem_filter.1 ha
    obtain ⟨hlt, hcand, hissued⟩ := h.receipts a hmem
    exact ⟨hlt, List.mem_filter.2 ⟨hcand, hne⟩, hissued⟩
  · obtain ⟨hr, hgone, hy, hn, hold⟩ := h.spent y r n hact
    exact ⟨hr, fun a ha => hgone a (List.mem_filter.1 ha).1, hy, hn,
      fun z hz => hold z (List.mem_filter.1 hz).1⟩

theorem Ledger.disable (h : Ledger c client log) : Ledger c.disable client log where
  staged := h.staged
  distinct := h.distinct
  receipts := h.receipts
  spent y r n hact := by
    obtain ⟨hr, hgone, hy, hn, hold⟩ := h.spent y r n hact
    exact ⟨hr, hgone, hy, Nat.le_succ_of_le hn, hold⟩
  standing n x hst := by cases hst
  gate := h.gate

/-- What an activation makes of the ledger, and that it is one. -/
theorem Ledger.activate {t : ℤ} {routes : Host × Option Local} (h : Ledger c s.client log)
    (hc : s.config = some c) (hx : c.approved k receipt = .ok x)
    (hr : (c.time (some t)).2.rebound x t = .ok routes) {rest : List (GEntry digest)}
    (hlog : log = ⟨i, .invoke (.activate k receipt (some t)), s⟩ :: rest) {y : GEntry digest}
    (hy : y = ⟨i, .ret (.ok (.revision (c.state.revision + 1))),
      { s.onClient (.rebind routes.1 routes.2 (some .configuration)) with
        config := some ((c.time (some t)).2.publish x receipt) }⟩) :
    Activation y ⟨i, .invoke (.activate k receipt (some t)), s⟩ rest x receipt t c ∧
      Ledger ((c.time (some t)).2.publish x receipt)
        (s.client.rebind routes.1 routes.2 (some .configuration)) (y :: log) := by
  obtain ⟨hmem, rfl, hbase, ⟨x', bootstrap⟩, ha, hid, hvet⟩ := Configuration.approved_spec hx
  obtain ⟨hlt, hcand, hissued⟩ := h.receipts _ ha
  obtain rfl : x' = x := h.distinct x' hcand x hmem hid
  have hact : Activation y ⟨i, .invoke (.activate x'.id receipt (some t)), s⟩ rest x' receipt t c := by
    subst hy
    refine ⟨⟨rfl, hc⟩, ⟨rfl, rfl⟩, ⟨hmem, hbase⟩, ⟨bootstrap, ha, ?_, hvet⟩, rfl, routes, hr, rfl⟩
    -- the receipt was issued before this call
    obtain ⟨newer, e, m, older, c₀, heq, hframe, hm, hrest⟩ := hissued
    rw [hlog] at heq
    cases newer with
    | nil =>
      obtain ⟨rfl, -⟩ := List.cons.inj heq
      cases hrest.1
    | cons z newer => exact ⟨newer, e, m, older, c₀, (List.cons.inj heq).2, hframe, hm, hrest⟩
  obtain ⟨u, f, htime⟩ := Configuration.time_spec c (some t)
  refine ⟨hact, ?_⟩
  rw [htime]
  refine ⟨h.staged, h.distinct, fun a ha => ?_, fun z r n hz => ?_, fun n z hst => ?_, fun _ => rfl⟩
  · obtain ⟨hlt, hmem, hissued⟩ := h.receipts a (List.mem_filter.1 ha).1
    exact ⟨hlt, hmem, hissued.later y⟩
  · rcases hz.cases with hold | ⟨m, older, t', c₀, heq, hnew, rfl⟩
    · obtain ⟨hr, hgone, hz, hn, hbefore⟩ := h.spent z r n hold
      exact ⟨hr, fun a ha => hgone a (List.mem_filter.1 ha).1, hz, Nat.le_succ_of_le hn, hbefore⟩
    · rw [hlog] at heq
      obtain ⟨rfl, rfl⟩ := List.cons.inj heq
      have hcall := hnew.called.1.symm.trans hact.called.1
      have hconf := Option.some_inj.1 (hnew.called.2.symm.trans hact.called.2)
      injection hcall with hcall
      injection hcall with hk hr
      subst hr hconf
      refine ⟨hlt, fun a ha => ?_, ?_, le_rfl, fun v hv heq => ?_⟩
      · simpa using (List.mem_filter.1 ha).2
      · rw [hk]
        exact h.staged x' hmem
      · obtain rfl : v = x' := h.distinct v hv x' hmem (heq.trans hk)
        show v.baseline < c₀.state.revision + 1
        omega
  · cases hst
    exact ⟨[], y, _, rest, receipt, t, c, by rw [hlog]; rfl, hact, rfl, by subst hy; rfl, by subst hy; rfl⟩

end Operations

/-- The configuration is changed, and nothing else. -/
theorem Booked.setConfig {c c' : Configuration digest} (h : Booked w) (hc : w.st.config = some c)
    {y : GEntry digest} (hl : Ledger c' w.st.client (y :: w.log)) {st : Sys digest}
    (hst : st = { w.st with config := some c' }) {n : ℕ} : Booked ⟨st, y :: w.log, n⟩ := by
  subst hst
  refine ⟨fun hnone => (by cases hnone), fun c₁ hc₁ => ?_⟩
  cases hc₁
  exact ⟨(h.ledger c hc).1, hl⟩

theorem booked_operate {i : ℕ} {meth : Method} {s : Sys digest} {r : Except Exc Return}
    {rest : List (GEntry digest)} (hm : meth.operates = true) (h : Booked w)
    (hlog : w.log = ⟨i, .invoke meth, w.st⟩ :: rest) (hop : Operates meth w.st s r) :
    Booked ((w.put s).push i (.ret r)) := by
  have hquiet : (∀ n, r ≠ .ok (.revision n)) → ∀ x r' n,
      Activated (⟨i, .ret r, s⟩ :: w.log) x r' n → Activated w.log x r' n := by
    intro hr x r' n
    refine activated_of_act fun n heq => ?_
    exact hr n (Act.ret.inj heq)
  cases hop with
  | refused m e =>
    exact h.same rfl rfl rfl rfl (fun hd => ⟨hd, rfl⟩) (.inr ⟨_, rfl, hquiet fun n heq => by cases heq⟩)
  | configure hidle ho =>
    have hnone : w.st.config = none := by
      cases hc : w.st.config with
      | none => rfl
      | some c =>
        have hown := (h.ledger c hc).1
        rw [ho] at hown
        cases hown
    have hno := (h.unclaimed hnone).2
    refine ⟨fun hcontra => (by cases hcontra), fun c hc => ?_⟩
    cases hc
    refine ⟨rfl, .new _ (fun x r n hact => hno x r n ?_) rfl⟩
    exact hquiet (fun n heq => by cases heq) x r n hact
  | stage hc hst =>
    exact h.setConfig hc (((h.ledger _ hc).2.stage hst).push _ (hquiet fun n heq => by cases heq)) rfl
  | restore hc _ hst =>
    exact h.setConfig hc (((h.ledger _ hc).2.stage hst).push _ (hquiet fun n heq => by cases heq)) rfl
  | observe hc hob =>
    obtain ⟨health, rfl⟩ := Configuration.observe_spec hob
    refine h.setConfig hc (Ledger.push ?_ _ (hquiet fun n heq => by cases heq)) rfl
    exact (h.ledger _ hc).2.same rfl rfl rfl rfl
  | approve hc hap => exact h.setConfig hc ((h.ledger _ hc).2.approve hap hlog rfl hc) rfl
  | reject hc hre =>
    exact h.setConfig hc (((h.ledger _ hc).2.reject hre).push _ (hquiet fun n heq => by cases heq)) rfl
  | @late _ c k receipt now e hc =>
    obtain ⟨t, f, htime⟩ := c.time_spec now
    have hsame : Ledger (c.time now).2 w.st.client w.log :=
      (h.ledger c hc).2.same (by rw [htime]) (by rw [htime]) (by rw [htime]) (by rw [htime])
    exact h.setConfig hc (hsame.push _ (hquiet fun n heq => by cases heq)) rfl
  | activate hidle ho hc hx ht hr =>
    have hl := ((h.ledger _ hc).2.activate hc hx hr hlog rfl).2
    refine ⟨fun hcontra => (by cases hcontra), fun c₁ hc₁ => ?_⟩
    cases hc₁
    exact ⟨ho, hl⟩

theorem booked_step (hs : Step codec w w') (h : Booked w) : Booked w' := by
  -- an entry of no activation, in a state with the same configuration and routes
  have hpush : ∀ {w'' : GWorld digest} (y : GEntry digest), (∀ n, y.act ≠ .ret (.ok (.revision n))) →
      w''.log = y :: w.log → w''.st.config = w.st.config → w''.st.client.owner = w.st.client.owner →
      w''.st.client.host = w.st.client.host → w''.st.client.localRoute = w.st.client.localRoute →
      (w''.st.client.disabled = false →
        w.st.client.disabled = false ∧ w''.st.client.permit = w.st.client.permit) → Booked w'' := by
    intro w'' y hy hlog hc ho hh hl hg
    exact h.same hc ho hh hl hg (.inr ⟨y, hlog, fun x r n => activated_of_act hy⟩)
  have hput : ∀ {s : Sys digest}, s.config = w.st.config → s.client.owner = w.st.client.owner →
      s.client.host = w.st.client.host → s.client.localRoute = w.st.client.localRoute →
      (s.client.disabled = false → w.st.client.disabled = false ∧ s.client.permit = w.st.client.permit) →
      Booked (w.put s) := by
    intro s hc ho hh hl hg
    exact h.same hc ho hh hl hg (.inl rfl)
  cases hs with
  | enter m => exact hpush _ (fun n heq => by cases heq) rfl rfl rfl rfl rfl fun hd => ⟨hd, rfl⟩
  | ret i r _ hends =>
    refine h.same rfl rfl rfl rfl (fun hd => ⟨hd, rfl⟩) (.inr ⟨_, rfl, fun x r' n hact => ?_⟩)
    rcases hact.cases with hold | ⟨m, older, t, c, heq, hact, -⟩
    · exact hold
    · have hm : m ∈ w.log := by
        rw [heq]
        exact List.mem_cons_self
      have := hends m hm hact.returned.1.symm _ hact.called.1
      cases this
  | refuse i _ _ => exact hpush _ (fun n heq => by cases heq) rfl rfl rfl rfl rfl fun hd => ⟨hd, rfl⟩
  | deliver i _ _ _ _ =>
    have hst : w.st.deliver.config = w.st.config ∧ w.st.deliver.client.owner = w.st.client.owner ∧
        w.st.deliver.client.host = w.st.client.host ∧
        w.st.deliver.client.localRoute = w.st.client.localRoute ∧
        w.st.deliver.client.disabled = w.st.client.disabled ∧
        w.st.deliver.client.permit = w.st.client.permit := by
      unfold Sys.deliver
      split <;> exact ⟨rfl, rfl, rfl, rfl, rfl, rfl⟩
    obtain ⟨hc, ho, hh, hl, hd, hp⟩ := hst
    refine hpush _ (fun n heq => ?_) rfl hc ho hh hl fun hdis => ⟨hd ▸ hdis, hp⟩
    cases heq
  | ask i op _ => exact hpush _ (fun n heq => by cases heq) rfl rfl rfl rfl rfl fun hd => ⟨hd, rfl⟩
  | answer i op x _ => exact hpush _ (fun n heq => by cases heq) rfl rfl rfl rfl rfl fun hd => ⟨hd, rfl⟩
  | launch i c op _ _ => exact hpush _ (fun n heq => by cases heq) rfl rfl rfl rfl rfl fun hd => ⟨hd, rfl⟩
  | began i c op x _ _ _ _ _ =>
    exact hpush _ (fun n heq => by cases heq) rfl rfl rfl rfl rfl fun hd => ⟨hd, rfl⟩
  | cancel i c j _ _ _ => exact hpush _ (fun n heq => by cases heq) rfl rfl rfl rfl rfl fun hd => ⟨hd, rfl⟩
  | canceled i c j x _ _ _ =>
    exact hpush _ (fun n heq => by cases heq) rfl rfl rfl rfl rfl fun hd => ⟨hd, rfl⟩
  | flag d x =>
    refine hput rfl rfl rfl rfl fun hd => ⟨?_, rfl⟩
    have hor : (w.st.client.disabled || d) = false := hd
    rw [Bool.or_eq_false_iff] at hor
    exact hor.1
  | claim hidle ho =>
    have hnone : w.st.config = none := by
      cases hc : w.st.config with
      | none => rfl
      | some c =>
        have hown := (h.ledger c hc).1
        rw [ho] at hown
        cases hown
    refine ⟨fun _ => ⟨fun hcontra => (by cases hcontra), (h.unclaimed hnone).2⟩, fun c hc => ?_⟩
    rw [show w.st.config = some c from hc] at hnone
    cases hnone
  | rebind host localRoute f hidle ho =>
    refine ⟨fun hnone => ⟨ho, (h.unclaimed hnone).2⟩, fun c hc => ?_⟩
    exact absurd (h.ledger c hc).1 ho
  | time c now hc =>
    obtain ⟨howner, hl⟩ := h.ledger c hc
    obtain ⟨t, f, htime⟩ := c.time_spec now
    refine ⟨fun hcontra => (by cases hcontra), fun c₁ hc₁ => ?_⟩
    cases hc₁
    exact ⟨howner, hl.same (by rw [htime]) (by rw [htime]) (by rw [htime]) (by rw [htime])⟩
  | operate i m s r rest hm hlog hop => exact booked_operate hm h hlog hop
  | disable i c s rest _ ho hc _ _ =>
    refine ⟨fun hcontra => (by cases hcontra), fun c₁ hc₁ => ?_⟩
    cases hc₁
    refine ⟨ho, (h.ledger c hc).2.disable.client rfl rfl fun hd => ?_⟩
    have hor : (w.st.client.disabled || true) = false := hd
    rw [Bool.or_true] at hor
    cases hor
  | _ => exact hput rfl rfl rfl rfl fun hd => ⟨hd, rfl⟩

theorem Path.booked (h₀ : Fresh s₀) (h : Path codec s₀ w) : Booked w := by
  obtain ⟨host, localRoute, version, rfl⟩ := h₀
  refine h.induction (P := Booked) ⟨fun _ => ⟨fun hcontra => (by cases hcontra), fun x r n hact => ?_⟩,
    fun c hc => by cases hc⟩ fun _ _ _ h hs => booked_step hs h
  obtain ⟨newer, e, m, older, t, c, hlog, -⟩ := hact
  simp at hlog

end Gateway

end Arhugula
