import Arhugula.Reentrant.Keeps
import Arhugula.Spec.Gateway

/-!
# The gateway, step by step

What the methods of the client and of its configuration do to the world, cut into steps
(`Step`), each with what is known where it is made: a callback or its answer, a write of
the client's state, a change of the configuration. Every reachable world is on a `Path` of
such steps (`Proof/GatewayMethods.lean`), so that a property of all runs needs one case for
each kind of step, and no walk through the methods.
-/

namespace Arhugula

namespace Gateway

open Reentrant Providers

variable {digest : Manifest → String}

/-! ## Callbacks and what they owe -/

/-- The route that an operation begins an attempt on: `true` for the host route. -/
def Op.begins : Op → Option Bool
  | .hostBegin .. => some true
  | .localBegin .. => some false
  | _ => none

/-- Neither a `begin` nor a `cancel` of a job. -/
def Op.quiet : Op → Bool
  | .hostBegin .. | .localBegin .. | .cancel _ => false
  | _ => true

theorem Op.quiet_begins {op : Op} (h : op.quiet = true) : op.begins = none := by
  cases op <;> first | rfl | cases h

/-- The attempts that were begun for a call, newest first. -/
def begins (log : List (GEntry digest)) (requestId : String) : List Bool :=
  log.filterMap fun e => match e.act with
    | .call op => if e.st.client.active.any fun c => c.request.requestId = requestId then op.begins else none
    | _ => none

/-- What a `begin` returned that is not proven to be cleaned up: a job, or what cannot be
canceled (`none`). -/
def debts : List (GEntry digest) → List (Option ℕ)
  | [] => []
  | e :: log =>
    match e.act with
    | .reply op a =>
      if op.begins.isSome then
        match a with
        | .remote _ => debts log
        | a => a.toJob :: debts log
      else match op, a with
        | .cancel j, .truth true => (debts log).filter fun d => d ≠ some j
        | _, _ => debts log
    | _ => debts log

/-- A callback raised what no handler catches. -/
def Disturbed (log : List (GEntry digest)) : Prop :=
  ∃ e ∈ log, ∃ op, e.act = .reply op (.raised .interrupt)

/-- The entry asks for the active call to end: `cancel`, or `disable` by the owner. -/
def Requests (e : GEntry digest) : Prop :=
  e.act = .invoke .cancel ∨ ∃ mine, e.act = .invoke (.disable mine) ∧ ownerOf mine = e.st.client.owner

/-! ## Where steps are made -/

/-- The operation is the `begin` of this attempt. -/
def Launches (codec : Codec) (c : Call) (op : Op) : Prop :=
  match c.route with
  | .host h => ∃ body, requestBytes codec (some c.request) = .ok body ∧
      op = .hostBegin h.transport ⟨h.endpoint, "Bearer " ++ h.bearer, body, c.request.budgetMs⟩
  | .vm l => op = .localBegin l.begins c.request c.request.budgetMs

section Places

variable (codec : Codec) (i : ℕ) (c : Call) (s : Sys digest) (log : List (GEntry digest))

/-- The clock of activation `i` was read without failure, and up to the last time of the call. -/
def Timely : Prop :=
  ∀ e ∈ log, e.frame = i → ∀ a, e.act = .reply .clock a →
    ∃ u t, a = .time u ∧ 0 ≤ u ∧ c.lastTime = some t ∧ u ≤ t

/-- The permit of the client allows the attempt. -/
def Permits : Prop :=
  match s.client.permit with
  | none => True
  | some (.function f) => ∃ e ∈ log, e.frame = i ∧
      e.act = .reply (.permit f c.route.provider c.request.service (c.lastTime.getD 0)) (.truth true)
  | some .configuration => ∃ cfg, s.config = some cfg ∧
      cfg.permits c.route.provider c.request.service (c.lastTime.getD 0) = true

/-- No end of the call was asked for since activation `i` began. -/
def Unasked : Prop :=
  ∃ newer, ∃ e : GEntry digest, ∃ older m, log = newer ++ e :: older ∧ e.frame = i ∧ e.act = .invoke m ∧
    ∀ x ∈ newer, ¬ Requests x

/-- **Where an attempt is begun**, by activation `i` for call `c`. -/
structure Admitted : Prop where
  active : s.client.active = some c
  idle : c.job = none
  owed : debts log = []
  unclean : s.client.unclean = true
  enabled : s.client.disabled = false
  wanted : c.cancelRequested = false
  routed : c.request = c.routed
  provider : checkProvider c.request c.route.provider s.client.catalogVersion = .ok ()
  time : ∃ t d, c.lastTime = some t ∧ c.deadline = some d ∧ t < d
  permit : Permits i c s log
  host : ∀ h, c.route = .host h → s.client.fault = none ∧ Timely i c log ∧ Unasked i log ∧
    begins log c.request.requestId = [] ∧
    ∃ e ∈ log, e.frame = i ∧ e.act = .reply (.peer h.transport) (.text h.endpoint.peerIdentity)
  vm : ∀ l, c.route = .vm l → (s.client.fault = none ∨ Disturbed log) ∧
    false ∉ begins log c.request.requestId

/-- The success of a terminal. -/
def Terminal.succeeded : Terminal → Option Success
  | .success s | .degraded s _ => some s
  | .failed _ => none

/-- The success was parsed from what the job of the call answered. -/
def Parsed (v : Success) : Prop :=
  ∃ e ∈ log, ∃ j incoming c', e.act = .reply (.poll j) incoming ∧
    e.st.client.active = some c' ∧ c'.request = c.request ∧ c'.route = c.route ∧ c'.job = some j ∧
    received codec c' incoming = .output v.output ∧
    v.providerId = c.route.provider.providerId ∧ v.modelVersion = c.route.provider.modelVersion

/-- **Where a terminal is stored.** -/
structure Stored (t : Terminal) : Prop where
  active : s.client.active = some c
  clean : s.client.fault = none → s.client.unclean = false
  parsed : ∀ v, t.succeeded = some v → Parsed codec c log v

/-- **Where a call falls back**, after failure `f`. -/
structure Falling (h : Host) (l : Local) (f : Failure) : Prop where
  active : s.client.active = some c
  route : c.route = .host h
  fallback : s.client.localRoute = some l
  code : fallsBack f.code = true
  made : f = c.failure f.code
  clean : s.client.unclean = false
  idle : c.job = none
  marked : .finishing c.request.requestId (.failure f) ∈ s.trail

end Places

/-- The client is idle. -/
structure Idle (c : Client) : Prop where
  active : c.active = none
  terminal : c.terminal = none
  fault : c.fault = none

/-- The operations of a configuration: they make no callback. -/
def Method.operates : Method → Bool
  | .configure | .stage _ | .restore .. | .observe .. | .approve .. | .reject _ | .activate .. => true
  | _ => false

/-- **A whole operation of a configuration**, from `s` to `s'`, with `r`. -/
inductive Operates : Method → Sys digest → Sys digest → Except Exc Return → Prop
  | refused {s} (m e) : Operates m s s (.error e)
  | configure {s} (h : Idle s.client) (ho : s.client.owner = none) :
      Operates .configure s { s.onClient (fun c =>
        { c with owner := some .configuration, disabled := true }) with config := some .new } (.ok .unit)
  | stage {s c c' x parts} (hc : s.config = some c)
      (h : c.stage parts.manifests parts.host parts.localRoute parts.policy parts.evidence = .ok (x, c')) :
      Operates (.stage parts) s { s with config := some c' } (.ok (.candidate x.id))
  | restore {s c c' x item revision evidence} (hc : s.config = some c)
      (hi : (c.history.find? fun item => item.1 = revision) = some item)
      (h : c.stage item.2.manifests item.2.host item.2.localRoute item.2.policy evidence = .ok (x, c')) :
      Operates (.restore revision evidence) s { s with config := some c' } (.ok (.candidate x.id))
  | observe {s c c' candidate providerId status observedAtMs} (hc : s.config = some c)
      (h : c.observe candidate providerId status observedAtMs = .ok c') :
      Operates (.observe candidate providerId status observedAtMs) s { s with config := some c' } (.ok .unit)
  | approve {s c c' candidate bootstrap receipt} (hc : s.config = some c)
      (h : c.approve candidate bootstrap = .ok (receipt, c')) :
      Operates (.approve candidate bootstrap) s { s with config := some c' } (.ok (.receipt receipt))
  | reject {s c c' candidate} (hc : s.config = some c) (h : c.reject candidate = .ok c') :
      Operates (.reject candidate) s { s with config := some c' } (.ok .unit)
  -- the clock was read, and nothing else done
  | late {s c candidate receipt now} (e) (hc : s.config = some c) :
      Operates (.activate candidate receipt now) s { s with config := some (c.time now).2 } (.error e)
  | activate {s c candidate receipt x t routes} (h : Idle s.client)
      (ho : s.client.owner = some .configuration) (hc : s.config = some c)
      (hx : c.approved candidate receipt = .ok x) (ht : (c.time (some t)).1 = .ok ())
      (hr : (c.time (some t)).2.rebound x t = .ok routes) :
      Operates (.activate candidate receipt (some t)) s
        { s.onClient (.rebind routes.1 routes.2 (some .configuration)) with
          config := some ((c.time (some t)).2.publish x receipt) } (.ok (.revision (c.state.revision + 1)))

/-- The state of the configuration. -/
def Sys.status (s : Sys digest) : Option (Providers.Status digest) :=
  s.config.map Configuration.state

/-- The state of a configuration after `disable`. -/
def shut (x : Providers.Status digest) : Providers.Status digest :=
  .disabled (x.revision + 1) x.latest

/-- **Any other call of `m`**, from `s` to `s'`, with `r`. A refused `start` leaves the calls
as they were; a poll that ends here had a call to advance. -/
def Ends (m : Method) (s s' : Sys digest) (r : Except Exc Return) : Prop :=
  match m with
  | .start _ => ∀ code, r = .error (.gateway code) →
      s'.client.active = s.client.active ∧ s'.client.terminal = s.client.terminal ∧
        s'.client.history = s.client.history
  | .poll => s.client.active.isSome
  | .disableConfiguration =>
      (∃ x, s.status = some x ∧ s'.status = some (shut x) ∧
        (r = .ok (.revision (x.revision + 1)) ∨ r = .error .interrupt)) ∨
      ((∃ e, r = .error e) ∧ s' = s)
  | m => m.operates = false

/-- Activation `i` is a poll. -/
def Polls (i : ℕ) (log : List (GEntry digest)) : Prop :=
  ∀ e ∈ log, e.frame = i → ∀ m, e.act = .invoke m → m = .poll

/-! ## Steps -/

/-- **One step.** -/
inductive Step (codec : Codec) : GWorld digest → GWorld digest → Prop
  -- calls, returns and callbacks
  | enter (w m) : Step codec w (w.enter m)
  | ret (w i r) (hr : ∀ t, r ≠ .ok (.terminal t))
      (h : ∀ e ∈ w.log, e.frame = i → ∀ m, e.act = .invoke m → Ends m e.st w.st r) :
      Step codec w (w.push i (.ret r))
  | refuse (w i) (h : w.st.client.insideCallback = true ∨ w.st.client.configuring = true)
      (hp : Polls i w.log) :
      Step codec w (w.push i (.ret (.ok (.terminal none))))
  | deliver (w i) (hi : w.st.client.insideCallback = false) (hc : w.st.client.configuring = false)
      (ha : w.st.client.terminal.isSome → w.st.client.active = none) (hp : Polls i w.log) :
      Step codec w ((w.put w.st.deliver).push i (.ret (.ok (.terminal w.st.client.terminal))))
  | ask (w i op) (h : op.quiet = true) : Step codec w (w.push i (.call op))
  | answer (w i op a) (h : op.quiet = true) : Step codec w (w.push i (.reply op a))
  | inside (w b) : Step codec w (w.put (w.st.onClient (.inside b)))
  | configuring (w b) : Step codec w (w.put (w.st.onClient fun c => { c with configuring := b }))
  | flag (w d x) : Step codec w (w.put (w.st.onClient (.flag d x)))
  -- a call
  | accept (w r) (h : Idle w.st.client) (hd : w.st.client.disabled = false)
      (hr : r.requestId ∉ w.st.client.history) (hl : w.st.client.history.length < historyLimit) :
      Step codec w (w.put ((w.st.onClient (.accept r)).mark (.accepted r.requestId)))
  | tick (w c now) (h : w.st.client.active = some c) (h0 : 0 ≤ now) (hl : ∀ t ∈ c.lastTime, t ≤ now) :
      Step codec w (w.put (w.st.onClient (.change (.tick now))))
  | latch (w code) : Step codec w (w.put (w.st.onClient (.latch code)))
  | route (w c) (h : w.st.client.active = some c) (hj : c.job = none) :
      Step codec w (w.put (w.st.onClient (.change fun call => { call with request := c.routed })))
  | soil (w c) (h : w.st.client.active = some c) : Step codec w (w.put (w.st.onClient (.soil true)))
  | absolve (w c) (h : w.st.client.active = some c) (hj : c.job = none) (hd : debts w.log = [])
      (hm : ∀ id f, .finishing id (.failure f) ∈ w.st.trail → f.code ≠ .cleanup) :
      Step codec w (w.put (w.st.onClient (.soil false)))
  | launch (w i c op) (h : Admitted i c w.st w.log) (hop : Launches codec c op) :
      Step codec w (w.push i (.call op))
  | began (w i c op a) (hop : op.begins.isSome) (h : w.st.client.active = some c) (hj : c.job = none)
      (hu : w.st.client.unclean = true) (hd : debts w.log = []) : Step codec w (w.push i (.reply op a))
  | adopt (w i c op a s rest) (h : w.st.client.active = some c) (hj : c.job = none)
      (hlog : w.log = ⟨i, .reply op a, s⟩ :: rest) (hop : op.begins.isSome)
      (ha : ∀ code, a ≠ .remote code) (hd : debts rest = []) (hu : w.st.client.unclean = true)
      (hm : ∀ id f, .finishing id (.failure f) ∈ w.st.trail → f.code ≠ .cleanup)
      (hl : ∃ e ∈ rest, ∃ op', e.act = .call op' ∧ Launches codec c op' ∧
        ∃ c', e.st.client.active = some c' ∧ c'.request = c.request ∧ c'.route = c.route) :
      Step codec w (w.put (w.st.onClient (.change fun call => { call with job := a.toJob })))
  | finishing (w c v) (h : w.st.client.active = some c) :
      Step codec w (w.put ((w.st.onClient fun k => { k with
        active := k.active.map fun call => { call with job := none }
        unclean := k.unclean || v.isCleanup }).mark (.finishing c.request.requestId v)))
  | cancel (w i c j) (h : w.st.client.active = some c) (hj : c.job = none)
      (hu : w.st.client.unclean = true) : Step codec w (w.push i (.call (.cancel j)))
  | canceled (w i c j a) (h : w.st.client.active = some c) (hj : c.job = none)
      (hu : w.st.client.unclean = true) : Step codec w (w.push i (.reply (.cancel j) a))
  | fallBack (w c h l f) (hf : Falling c w.st h l f) :
      Step codec w (w.put (w.st.onClient (.change fun call =>
        { call with primary := some f, route := .vm l })))
  | store (w c t) (h : Stored codec c w.st w.log t) :
      Step codec w (w.put (w.st.store c.request.requestId t))
  -- the configuration
  | claim (w) (h : Idle w.st.client) (ho : w.st.client.owner = none) :
      Step codec w (w.put (w.st.onClient fun c => { c with owner := some .other, disabled := true }))
  | rebind (w host localRoute) (f : Option ℕ) (h : Idle w.st.client)
      (ho : w.st.client.owner ≠ some .configuration) :
      Step codec w (w.put (w.st.onClient (.rebind host localRoute (f.map .function))))
  | time (w c now) (hc : w.st.config = some c) :
      Step codec w (w.put { w.st with config := some (c.time now).2 })
  | operate (w i m s r rest) (hm : m.operates = true) (hlog : w.log = ⟨i, .invoke m, w.st⟩ :: rest)
      (h : Operates m w.st s r) : Step codec w ((w.put s).push i (.ret r))
  | disable (w i c s rest) (hi : w.st.client.insideCallback = false)
      (ho : w.st.client.owner = some .configuration) (hc : w.st.config = some c)
      (hlog : w.log = ⟨i, .invoke .disableConfiguration, s⟩ :: rest) (hs : s.config = some c) :
      Step codec w (w.put { w.st.onClient (.flag true false) with config := some c.disable })

/-- **What can be reached step by step.** -/
inductive Path (codec : Codec) (s : Sys digest) : GWorld digest → Prop
  | start : Path codec s ⟨s, [], 0⟩
  | step {w w'} (h : Path codec s w) (hs : Step codec w w') : Path codec s w'

end Gateway

end Arhugula
