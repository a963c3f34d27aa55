import Arhugula.Spec.Wire

/-!
# Provider configurations (`runtime/providers`, `runtime/evaluation.py`)

A `Configuration` stages candidates for the routes of a gateway, takes observations of
their health, issues approvals, and activates a candidate that was approved. What it does
to its own state is here, what it does to the gateway is in `Spec/Gateway.lean`.

A candidate and a receipt are known by their identity, here a number. The SHA-256 digest
of a manifest is a parameter.
-/

namespace Arhugula

namespace Providers

open Gateway (Service)

/-! ## Routes (`runtime/gateway/client.py`) -/

/-- `Endpoint`. -/
structure Endpoint where
  url : String
  peerIdentity : String
  deriving DecidableEq

/-- `Host`. The transport is known by its number. -/
structure Host where
  provider : Provider
  endpoint : Endpoint
  bearer : String
  transport : ℕ
  placed : provider.placement = .host
  deriving DecidableEq

/-- `Local`. The `begin` function is known by its number. -/
structure Local where
  provider : Provider
  begins : ℕ
  placed : provider.placement = .vm
  deriving DecidableEq

/-- A route of a call. -/
inductive Route where
  | host (h : Host)
  | vm (l : Local)
  deriving DecidableEq

def Route.provider : Route → Provider
  | .host h => h.provider
  | .vm l => l.provider

/-! ## Records (`runtime/providers/records.py`) -/

/-- `Resources`. -/
structure Resources where
  ramBytes : ℕ
  acceleratorBytes : ℕ
  diskBytes : ℕ
  cpuMillicores : ℕ
  slots : ℕ
  deriving DecidableEq

namespace Resources

def zero : Resources := ⟨0, 0, 0, 0, 0⟩

def add (a b : Resources) : Resources :=
  ⟨a.ramBytes + b.ramBytes, a.acceleratorBytes + b.acceleratorBytes, a.diskBytes + b.diskBytes,
    a.cpuMillicores + b.cpuMillicores, a.slots + b.slots⟩

/-- Every value is at most the ceiling's. -/
def within (a ceiling : Resources) : Bool :=
  decide (a.ramBytes ≤ ceiling.ramBytes) && decide (a.acceleratorBytes ≤ ceiling.acceleratorBytes) &&
    decide (a.diskBytes ≤ ceiling.diskBytes) && decide (a.cpuMillicores ≤ ceiling.cpuMillicores) &&
    decide (a.slots ≤ ceiling.slots)

end Resources

/-- `Manifest`: it carries no authority, and offers something. -/
structure Manifest where
  provider : Provider
  artifactSha256 : String
  resources : Resources
  dormant : provider.enabled = false ∧ provider.health = .unavailable
  offers : provider.capabilities ≠ [] ∧ 1 ≤ resources.slots
  deriving DecidableEq

/-- `Policy`. -/
structure Policy where
  healthTtlMs : ℕ
  allowDegraded : Bool
  allowFallback : Bool
  sharedMemory : List Placement
  hostBudget : Resources
  vmBudget : Resources
  deriving DecidableEq

def Policy.budget (p : Policy) : Placement → Resources
  | .host => p.hostBudget
  | .vm => p.vmBudget

/-- `check_budgets`: what the manifests of a placement use, a shared accelerator debited
from the memory too. -/
def totals (manifests : List Manifest) (policy : Policy) (placement : Placement) : Resources :=
  let group := (manifests.filter fun m => m.provider.placement = placement).map Manifest.resources
  let sum := group.foldr Resources.add .zero
  if policy.sharedMemory.contains placement then
    { sum with ramBytes := sum.ramBytes + sum.acceleratorBytes }
  else sum

/-- `check_budgets`. -/
def checkBudgets (manifests : List Manifest) (policy : Policy) : Except String Unit :=
  if [Placement.host, .vm].all fun p => (totals manifests policy p).within (policy.budget p) then .ok ()
  else .error "budget-exceeded"

/-! ## Evaluation (`runtime/evaluation.py`) -/

/-- Where a replay comes from. -/
inductive Replay where
  | synthetic | recorded | live
  deriving DecidableEq

/-- The outcome of a case. -/
inductive Outcome where
  | pass | fail
  deriving DecidableEq

/-- `ReplayRun`: at least one case, each with one outcome. -/
structure ReplayRun where
  version : String
  source : Replay
  bundleId : String
  pinned : Bool
  deterministic : Bool
  independentlyEvaluated : Bool
  outcomes : Mapping Outcome
  evaluatorConsensus : Bool
  cases : outcomes ≠ [] ∧ (outcomes.map Prod.fst).Nodup
  deriving DecidableEq

/-- A manual label. -/
inductive Label where
  | approved | rejected
  deriving DecidableEq

/-- What `promotion` returns. -/
structure Promotion where
  promote : Bool
  regressions : List String
  reasons : List String

/-- The reasons of `promotion` for a hold. -/
def holdReasons (active candidate : ReplayRun) (regressions : List String) (labels : List Label)
    (rollbackReady : Bool) : List String :=
  [ (!active.pinned, "baseline-pinned-replay-required"),
    (!active.deterministic, "baseline-deterministic-replay-required"),
    (!active.independentlyEvaluated, "baseline-independent-evaluation-required"),
    (!active.evaluatorConsensus, "baseline-independent-evaluator-disagreement"),
    (!candidate.pinned, "pinned-replay-required"),
    (!candidate.deterministic, "deterministic-replay-required"),
    (!candidate.independentlyEvaluated, "independent-evaluation-required"),
    (!candidate.evaluatorConsensus, "independent-evaluator-disagreement"),
    (decide (candidate.bundleId ≠ active.bundleId), "replay-bundle-mismatch"),
    (decide (candidate.source ≠ active.source), "replay-source-mismatch"),
    (!candidate.outcomes.sameKeys active.outcomes, "replay-coverage-incomplete"),
    (!regressions.isEmpty, "replay-regression"),
    (candidate.outcomes.any fun o => o.2 = .fail, "candidate-failure"),
    (!labels.contains .approved, "manual-approval-required"),
    (!rollbackReady, "rollback-readiness-required"),
    (labels.contains .rejected, "manual-rejection") ].filterMap fun r =>
      if r.1 then some r.2 else none

/-- `promotion`. -/
def promotion (active candidate : ReplayRun) (labels : List Label) (rollbackReady : Bool) :
    Promotion :=
  let regressions := (active.outcomes.filter fun o =>
    o.2 = .pass && candidate.outcomes.get o.1 ≠ some .pass).map Prod.fst
  let reasons := holdReasons active candidate regressions labels rollbackReady
  ⟨reasons.isEmpty, regressions, reasons⟩

/-! ## Candidates (`runtime/providers/configuration.py`) -/

/-- `Evidence`. -/
structure Evidence where
  manifestDigest : String
  bundleDigest : String
  run : ReplayRun
  deriving DecidableEq

/-- The provider that the manifest of a route must have. -/
def unhealthy (p : Provider) : Provider := { p with enabled := false, health := .unavailable }

/-- The routes of a candidate, each with its provider. -/
def routesOf (host : Host) (localRoute : Option Local) : List Provider :=
  host.provider :: (localRoute.map Local.provider).toList

/-- `_stage`: why these parts make no candidate. -/
def bindingError (digest : Manifest → String) (manifests : List Manifest) (host : Host)
    (localRoute : Option Local) (policy : Policy) (evidence : List Evidence) : Option String :=
  let routes := routesOf host localRoute
  if manifests.length ≠ routes.length then some "routes"
  else if localRoute.isSome && !policy.allowFallback then some "fallback-policy"
  else if !((manifests.zip (routes.zip [Placement.host, .vm])).all fun (m, route, placement) =>
      m.provider.placement = placement && unhealthy route = m.provider) then some "route-binding"
  else if !(manifests.map fun m => m.provider.providerId).Nodup then some "duplicate-provider"
  else if evidence.length ≠ manifests.length then some "evidence"
  else if !((manifests.zip evidence).all fun (m, e) =>
      e.manifestDigest = digest m && e.run.version = m.provider.modelVersion) then
    some "evidence-binding"
  else none

/-- `Candidate`, with its identity: its parts belong together. -/
structure Candidate (digest : Manifest → String) where
  id : ℕ
  baseline : ℕ
  manifests : List Manifest
  host : Host
  localRoute : Option Local
  policy : Policy
  evidence : List Evidence
  bound : bindingError digest manifests host localRoute policy evidence = none

/-- `Active` or `Disabled`. -/
inductive Status (digest : Manifest → String) where
  | active (revision : ℕ) (candidate : Candidate digest)
  | disabled (revision : ℕ) (previous : Option (Candidate digest))

variable {digest : Manifest → String}

def Status.revision : Status digest → ℕ
  | .active n _ => n
  | .disabled n _ => n

/-- The candidate that is active, or was before it was disabled. -/
def Status.latest : Status digest → Option (Candidate digest)
  | .active _ c => some c
  | .disabled _ c => c

/-- `_Approval`. -/
structure Approval (digest : Manifest → String) where
  candidate : Candidate digest
  bootstrap : Bool

/-- `_Health`. -/
structure Observation where
  status : Health
  observedAtMs : ℤ
  deriving DecidableEq

/-- `Configuration`: `made` counts the candidates and receipts that were made. -/
structure Configuration (digest : Manifest → String) where
  state : Status digest
  staged : List (Candidate digest)
  approvals : List (ℕ × Approval digest)
  history : List (ℕ × Candidate digest)
  health : Mapping Observation
  lastTime : ℤ
  clockFault : Bool
  made : ℕ

namespace Configuration

/-- A new configuration. -/
def new : Configuration digest := ⟨.disabled 0 none, [], [], [], [], 0, false, 0⟩

variable (c : Configuration digest)

/-- `_owned`: the staged candidate of this identity. -/
def owned (candidate : ℕ) : Except String (Candidate digest) :=
  match c.staged.find? fun s => s.id = candidate with
  | some s => .ok s
  | none => .error "candidate-owner"

/-- `_stage`. -/
def stage (manifests : List Manifest) (host : Host) (localRoute : Option Local) (policy : Policy)
    (evidence : List Evidence) : Except String (Candidate digest × Configuration digest) :=
  match h : bindingError digest manifests host localRoute policy evidence with
  | some e => .error e
  | none =>
    if 256 ≤ c.staged.length then .error "candidate-capacity"
    else
      let candidate : Candidate digest :=
        ⟨c.made, c.state.revision, manifests, host, localRoute, policy, evidence, h⟩
      .ok (candidate, { c with staged := candidate :: c.staged, made := c.made + 1 })

/-- `_health[key] = observation`. -/
def record (key : String) (o : Observation) : Configuration digest :=
  { c with health := (key, o) :: c.health.filter fun item => item.1 ≠ key }

/-- `observe`. `none` stands for a status or a time that is none. -/
def observe (candidate : ℕ) (providerId : String) (status : Option Health)
    (observedAtMs : Option ℤ) : Except String (Configuration digest) := do
  let s ← c.owned candidate
  match s.manifests.find? fun m => m.provider.providerId = providerId, status, observedAtMs with
  | some m, some status, some t =>
    if t < 0 then throw "health-observation"
    else if (c.health.get (digest m)).any fun o => t < o.observedAtMs then throw "health-regression"
    else pure (c.record (digest m) ⟨status, t⟩)
  | _, _, _ => throw "health-observation"

/-- `_baseline`. -/
def baseline : List Evidence := (c.state.latest.map Candidate.evidence).getD []

/-- `_approve`: the receipt. -/
def approve (candidate : ℕ) (bootstrap : Bool) : Except String (ℕ × Configuration digest) := do
  let s ← c.owned candidate
  if bootstrap ≠ decide (c.baseline.length < s.evidence.length) then
    throw "bootstrap-approval-required"
  else if s.baseline ≠ c.state.revision then throw "stale-revision"
  else if 256 ≤ c.approvals.length then throw "approval-capacity"
  else pure (c.made, { c with approvals := (c.made, ⟨s, bootstrap⟩) :: c.approvals, made := c.made + 1 })

/-- `reject`. -/
def reject (candidate : ℕ) : Except String (Configuration digest) := do
  let s ← c.owned candidate
  if s.baseline ≠ c.state.revision then throw "stale-revision"
  else pure { c with
    staged := c.staged.filter fun x => x.id ≠ s.id
    approvals := c.approvals.filter fun a => a.2.candidate.id ≠ s.id }

/-- `_time`. `none` stands for a time that is no integer. -/
def time (now : Option ℤ) : Except String Unit × Configuration digest :=
  match now with
  | some t =>
    if c.clockFault || t < c.lastTime then (.error "clock", { c with clockFault := true })
    else (.ok (), { c with lastTime := t })
  | none => (.error "clock", { c with clockFault := true })

/-- `_healthy`. -/
def healthy (m : Manifest) (policy : Policy) (now : ℤ) : Except String Health :=
  match c.health.get (digest m) with
  | none => .error "health-ineligible"
  | some o =>
    if 0 ≤ now - o.observedAtMs ∧ now - o.observedAtMs ≤ policy.healthTtlMs ∧ o.status ≠ .unavailable
        ∧ (o.status = .degraded → policy.allowDegraded) then .ok o.status
    else .error "health-ineligible"

/-- `_evaluation`, of the evidence `proposed` of one role. -/
def evaluateRole (baseline : Option Evidence) (proposed : Evidence) (bootstrap : Bool) :
    Except String Unit :=
  match baseline with
  | none =>
    let r := proposed.run
    if r.pinned && r.deterministic && r.independentlyEvaluated && r.evaluatorConsensus
        && (r.outcomes.all fun o => o.2 = .pass) && bootstrap then .ok ()
    else .error "bootstrap-evaluation"
  | some b =>
    if b.bundleDigest ≠ proposed.bundleDigest then .error "evaluation-bundle-mismatch"
    else if (promotion b.run proposed.run [.approved] true).promote then .ok ()
    else .error "evaluation-hold"

/-- `_evaluation`, role by role. -/
def evaluate (bootstrap : Bool) : List Evidence → List Evidence → Except String Unit
  | _, [] => .ok ()
  | [], e :: rest => do
    evaluateRole none e bootstrap
    evaluate bootstrap [] rest
  | b :: baselines, e :: rest => do
    evaluateRole (some b) e bootstrap
    evaluate bootstrap baselines rest

/-- `activate`, up to the clock: the candidate. -/
def approved (candidate receipt : ℕ) : Except String (Candidate digest) := do
  let s ← c.owned candidate
  if s.baseline ≠ c.state.revision then throw "stale-revision"
  else match c.approvals.find? fun a => a.1 = receipt with
    | none => throw "approval-required"
    | some (_, a) =>
      if a.candidate.id ≠ s.id then throw "approval-required"
      else do
        evaluate a.bootstrap c.baseline s.evidence
        pure s

/-- The provider of a manifest as it is rebound. -/
def reboundProvider (m : Manifest) (status : Health) : Provider :=
  { m.provider with enabled := true, health := status }

/-- `replace(route, provider=…)` of a host route. -/
def rebindHost (h : Host) (p : Provider) : Except String Host :=
  if hp : p.placement = .host then .ok { h with provider := p, placed := hp } else .error "identity"

/-- `replace(route, provider=…)` of a local route. -/
def rebindLocal (l : Local) (p : Provider) : Except String Local :=
  if hp : p.placement = .vm then .ok { l with provider := p, placed := hp } else .error "identity"

/-- `activate`, from the clock on: the routes, rebound. -/
def rebound (s : Candidate digest) (now : ℤ) : Except String (Host × Option Local) := do
  let status ← s.manifests.mapM fun m => c.healthy m s.policy now
  checkBudgets s.manifests s.policy
  if 256 ≤ c.history.length then throw "revision-capacity"
  else match List.zipWith reboundProvider s.manifests status, s.localRoute with
    | [p], none => do pure (← rebindHost s.host p, none)
    | [p, q], some l => do pure (← rebindHost s.host p, some (← rebindLocal l q))
    | _, _ => throw "routes"

/-- `activate`: the candidate and its receipt are published. -/
def publish (s : Candidate digest) (receipt : ℕ) : Configuration digest :=
  { c with
    state := .active (c.state.revision + 1) s
    history := (c.state.revision + 1, s) :: c.history
    approvals := c.approvals.filter fun a => a.1 ≠ receipt }

/-- `disable`. -/
def disable : Configuration digest :=
  { c with state := .disabled (c.state.revision + 1) c.state.latest }

/-- `_permit`, once the time is taken. -/
def permits (provider : Provider) (service : Service) (now : ℤ) : Bool :=
  match c.state with
  | .disabled .. => false
  | .active _ s =>
    match s.manifests.find? fun m => m.provider.providerId = provider.providerId
        && m.provider.modelVersion = provider.modelVersion with
    | none => false
    | some m => m.provider.capabilities.contains service.text &&
        (c.healthy m s.policy now).isOk && (checkBudgets s.manifests s.policy).isOk

/-- `_permit`. -/
def permit (provider : Provider) (service : Service) (now : ℤ) : Bool × Configuration digest :=
  match c.time (some now) with
  | (.error _, c') => (false, c')
  | (.ok (), c') => (c'.permits provider service now, c')

end Configuration

end Providers

end Arhugula
