import Arhugula.Reentrant.Machine
import Arhugula.Spec.Providers

/-!
# The gateway client (`runtime/gateway/client.py`)

A `GatewayClient` has one active call at most. A call tries the host route, and falls back
to the local route after some failures. Clocks, transports, local adapters, jobs and
permits are callbacks, made under the client's lock with `_inside_callback` set, so that
every public method they call is refused or only leaves a flag.

`_begin` and `_finish` call each other. A call falls back once, from the host route: so
they are `attempt` and `settle`, each given what it calls, tied together in `beginCall` and
`finish`.

The permit of a `Configuration` (`runtime/providers/configuration.py`) is no callback: it
reads and writes the configuration, which is part of the same state.
-/

namespace Arhugula

namespace Gateway

open Reentrant Providers

/-! ## Records -/

/-- `Failure`. -/
structure Failure where
  code : Code
  providerId : String
  modelVersion : String
  deriving DecidableEq

/-- `Success`. -/
structure Success where
  output : Output
  providerId : String
  modelVersion : String
  deriving DecidableEq

/-- `Success`, `Degraded` or `Failed`. -/
inductive Terminal where
  | success (s : Success)
  | degraded (s : Success) (primary : Failure)
  | failed (failures : List Failure)
  deriving DecidableEq

/-- What an attempt ends with: a failure, or an output. -/
inductive Value where
  | failure (f : Failure)
  | output (o : Output)
  deriving DecidableEq

/-- `Outgoing`. -/
structure Outgoing where
  endpoint : Endpoint
  authorization : String
  body : Bytes
  budgetMs : ℤ
  deriving DecidableEq

/-- `HttpReply`. `none` stands for a field of another type. -/
structure HttpReply where
  status : Option ℤ
  body : Option Bytes
  peerIdentity : Option String
  deriving DecidableEq

/-- `_Call`. The job is known by its number. -/
structure Call where
  request : Request
  route : Route
  deadline : Option ℤ
  lastTime : Option ℤ
  job : Option ℕ
  primary : Option Failure
  cancelRequested : Bool
  deriving DecidableEq

namespace Call

/-- A new call. -/
def new (request : Request) (host : Host) : Call :=
  ⟨request, .host host, none, none, none, none, false⟩

/-- The deadline less the last time. -/
def remaining (c : Call) : ℤ := c.deadline.getD 0 - c.lastTime.getD 0

/-- `_interruption`: the time is `now`. -/
def tick (now : ℤ) (c : Call) : Call :=
  { c with lastTime := some now, deadline := some (c.deadline.getD (now + c.request.budgetMs)) }

/-- `_begin`: the request as this route gets it. -/
def routed (c : Call) : Request :=
  { c.request with
    providerId := c.route.provider.providerId
    modelVersion := c.route.provider.modelVersion
    budgetMs := c.remaining }

/-- `_failure`. -/
def failure (c : Call) (code : Code) : Failure :=
  ⟨code, c.route.provider.providerId, c.route.provider.modelVersion⟩

/-- The failures before the present attempt. -/
def preceding (c : Call) : List Failure := c.primary.toList

end Call

/-- Who attached itself by `claim_configuration`. -/
inductive Owner where
  | configuration
  | other
  deriving DecidableEq

/-- The permit of a client: a function, or the configuration's. -/
inductive Permit where
  | function (f : ℕ)
  | configuration
  deriving DecidableEq

/-- A `GatewayClient`. -/
structure Client where
  host : Host
  localRoute : Option Local
  catalogVersion : ℤ
  history : List String
  active : Option Call
  terminal : Option Terminal
  fault : Option Code
  insideCallback : Bool
  unclean : Bool
  configuring : Bool
  disabled : Bool
  permit : Option Permit
  owner : Option Owner
  deriving DecidableEq

/-- What happened to a call, known by its request: nothing in the client reads these. -/
inductive Mark where
  | accepted (requestId : String)
  | finishing (requestId : String) (value : Value)
  | stored (requestId : String) (t : Terminal)
  | delivered (requestId : String) (t : Terminal)
  deriving DecidableEq

/-- The call that stored a terminal. -/
def Mark.storedId : Mark → Option String
  | .stored requestId _ => some requestId
  | _ => none

/-- The client, its configuration if it has one, and what happened so far, newest first. -/
structure Sys (digest : Manifest → String) where
  client : Client
  config : Option (Configuration digest)
  trail : List Mark

namespace Client

/-- A new client. -/
def new (host : Host) (localRoute : Option Local) (catalogVersion : ℤ) : Client :=
  ⟨host, localRoute, catalogVersion, [], none, none, none, false, false, false, false, none, none⟩

/-- `_inside_callback = b`. -/
def inside (b : Bool) (c : Client) : Client := { c with insideCallback := b }

/-- A change of the active call. -/
def change (f : Call → Call) (c : Client) : Client := { c with active := c.active.map f }

/-- `_fault = code`. -/
def latch (code : Code) (c : Client) : Client := { c with fault := some code }

/-- `_unclean = b`. -/
def soil (b : Bool) (c : Client) : Client := { c with unclean := b }

/-- Flags that a callback may leave: close admission (`d`), cancel the active call (`x`). -/
def flag (d x : Bool) (c : Client) : Client :=
  { c.change fun call => { call with cancelRequested := call.cancelRequested || x } with
    disabled := c.disabled || d }

/-- `start`: the call is accepted. -/
def accept (r : Request) (c : Client) : Client :=
  { c with history := r.requestId :: c.history, active := some (.new r c.host) }

/-- `reconfigure`. -/
def rebind (host : Host) (localRoute : Option Local) (permit : Option Permit) (c : Client) : Client :=
  { c with host := host, localRoute := localRoute, permit := permit, disabled := false }

end Client

namespace Sys

variable {digest : Manifest → String}

/-- A change of the client. -/
def onClient (f : Client → Client) (s : Sys digest) : Sys digest := { s with client := f s.client }

/-- Note what happened. -/
def mark (m : Mark) (s : Sys digest) : Sys digest := { s with trail := m :: s.trail }

/-- A terminal is stored, and the call is over. -/
def store (requestId : String) (t : Terminal) (s : Sys digest) : Sys digest :=
  (s.onClient fun c => { c with terminal := some t, active := none }).mark (.stored requestId t)

/-- The call that stored the terminal which waits to be delivered. -/
def waiting (s : Sys digest) : String := (s.trail.findSome? Mark.storedId).getD ""

/-- A terminal, if there is one, is delivered. -/
def deliver (s : Sys digest) : Sys digest :=
  match s.client.terminal with
  | none => s
  | some t => (s.onClient fun c => { c with terminal := none }).mark (.delivered s.waiting t)

end Sys

/-! ## Callbacks -/

/-- What a method or a callback raises. `exception` is any other `Exception`, `interrupt`
is none: no handler catches it. -/
inductive Exc where
  | gateway (code : Code)
  | configuration (text : String)
  | exception
  | interrupt
  deriving DecidableEq

/-- A callback of the client. `transaction` is the body of a `with client.configuration()`. -/
inductive Op where
  | clock
  | peer (transport : ℕ)
  | permit (f : ℕ) (provider : Provider) (service : Service) (now : ℤ)
  | hostBegin (transport : ℕ) (outgoing : Outgoing)
  | localBegin (f : ℕ) (request : Request) (budgetMs : ℤ)
  | poll (job : ℕ)
  | cancel (job : ℕ)
  | transaction
  deriving DecidableEq

/-- What a callback does. An object that a `begin` returns is a job, whatever its methods
do; `object` is any other value. -/
inductive Answer where
  | raised (e : Exc)
  | time (t : ℤ)
  | text (s : String)
  | truth (b : Bool)
  | remote (code : String)
  | job (j : ℕ)
  | reply (r : HttpReply)
  | bytes (b : Bytes)
  | nothing
  | object
  deriving DecidableEq

/-- The answers that a callback can give: a `begin` returns a job, a `RemoteError`, or
`None`. -/
def Op.admits : Op → Answer → Bool
  | .hostBegin .., .raised _ | .hostBegin .., .remote _ | .hostBegin .., .job _
  | .hostBegin .., .nothing => true
  | .hostBegin .., _ => false
  | .localBegin .., .raised _ | .localBegin .., .remote _ | .localBegin .., .job _
  | .localBegin .., .nothing => true
  | .localBegin .., _ => false
  | _, _ => true

/-- A body of the client. -/
abbrev GM (digest : Manifest → String) (α : Type) := Prog (Sys digest) Op Answer Exc α

variable {digest : Manifest → String}

/-- `try: p except Exception: h`. -/
def onException {α : Type} (p h : GM digest α) : GM digest α :=
  p.catching fun e => if e = .interrupt then .fail e else h

/-- `_invoke`. -/
def invoke (op : Op) : GM digest Answer := do
  Prog.write (Sys.onClient (Client.inside true))
  let a ← Prog.ask op
  Prog.write (Sys.onClient (Client.inside false))
  match a with
  | .raised e => throw e
  | a => pure a

/-- `self._active`. -/
def activeCall : GM digest Call := do
  match ← Prog.read fun s => s.client.active with
  | some c => pure c
  | none => throw .exception

/-- A change of `self._active`. -/
def change (f : Call → Call) : GM digest Unit := Prog.write (Sys.onClient (Client.change f))

/-- `_interruption`, its `try`: the time, or `none`. -/
def readClock : GM digest (Option ℤ) :=
  onException
    (do match ← invoke .clock with
        | .time now => do
          let call ← activeCall
          if now < 0 || call.lastTime.any fun t => now < t then throw .exception
          else pure (some now)
        | _ => throw .exception)
    (pure none)

/-- `_interruption`. -/
def interruption : GM digest (Option Code) := do
  match ← readClock with
  | none => do
    Prog.write (Sys.onClient (Client.latch .clock))
    pure (some .clock)
  | some now => do
    change (Call.tick now)
    let call ← activeCall
    if call.cancelRequested then pure (some .canceled)
    else if call.remaining ≤ 0 then pure (some .timeout)
    else pure none

/-! ## The end of an attempt -/

/-- `_retire`. -/
def retire : GM digest Bool := do
  let call ← activeCall
  change fun c => { c with job := none }
  match call.job with
  | none => Prog.read fun s => !s.client.unclean
  | some job => do
    let proven ← onException
      (do match ← invoke (.cancel job) with
          | .truth b => pure b
          | _ => pure false)
      (pure false)
    Prog.write (Sys.onClient (Client.soil (!proven)))
    pure proven

/-- The failures after which a call falls back. -/
def fallsBack (code : Code) : Bool :=
  code = .unavailable || code = .providerFailed || code = .timeout

/-- `_finish`, for a call that was cleaned up. -/
def conclude (again : GM digest Unit) (value : Value) (interrupted : Option Code) :
    GM digest Unit := do
  let call ← activeCall
  match value with
  | .failure f => do
    let localRoute ← Prog.read fun s => s.client.localRoute
    match call.route, localRoute with
    | .host _, some l =>
      if interrupted.isNone && fallsBack f.code then do
        change fun c => { c with primary := some f, route := .vm l }
        again
      else Prog.write (Sys.store call.request.requestId (.failed (call.preceding ++ [f])))
    | _, _ => Prog.write (Sys.store call.request.requestId (.failed (call.preceding ++ [f])))
  | .output o => do
    let success : Success := ⟨o, call.route.provider.providerId, call.route.provider.modelVersion⟩
    Prog.write (Sys.store call.request.requestId (match call.primary with
      | none => .success success
      | some f => .degraded success f))

/-- `_finish`, where cleanup is not proven. -/
def abandon (value : Value) : GM digest Unit := do
  let call ← activeCall
  let failure : List Failure := match value with
    | .failure f => [f]
    | .output _ => []
  Prog.write (Sys.onClient (Client.latch .cleanup))
  Prog.write (Sys.store call.request.requestId
    (.failed (call.preceding ++ failure ++ [call.failure .cleanup])))

/-- A provider's own cleanup failure. -/
def Value.isCleanup : Value → Bool
  | .failure f => f.code = .cleanup
  | .output _ => false

/-- `_finish`. `again` begins the attempt on the local route. -/
def settle (again : GM digest Unit) (value : Value) : GM digest Unit := do
  let call ← activeCall
  Prog.write (Sys.mark (.finishing call.request.requestId value))
  let proven ← retire
  let clean := proven && !value.isCleanup
  Prog.write (Sys.onClient (Client.soil (!clean)))
  let interrupted ← interruption
  let call ← activeCall
  let value := match interrupted with
    | some code => .failure (call.failure code)
    | none => value
  if clean then conclude again value interrupted else abandon value

/-! ## An attempt -/

/-- `check_provider` (`runtime/gateway/admission.py`). -/
def checkProvider (request : Request) (provider : Provider) (catalogVersion : ℤ) :
    Except Code Unit :=
  if request.catalogVersion ≠ catalogVersion then .error .staleCatalog
  else if request.providerId ≠ provider.providerId ∨ request.modelVersion ≠ provider.modelVersion then
    .error .identity
  else if !provider.capabilities.contains request.service.text then .error .invalidRequest
  else if !provider.enabled || provider.health = .unavailable then .error .unavailable
  else .ok ()

/-- Raise a code as a `GatewayError`. -/
def ofCode {α : Type} : Except Code α → GM digest α
  | .ok a => pure a
  | .error code => throw (.gateway code)

/-- `_begin`: the checks of a request and of the peer; the code of the failure. -/
def checked (codec : Codec) (request : Request) (route : Route) : GM digest (Option Code) :=
  (do let _ ← ofCode (requestBytes codec (some request))
      let version ← Prog.read fun s => s.client.catalogVersion
      ofCode (checkProvider request route.provider version)
      match route with
      | .vm _ => pure none
      | .host h =>
        match ← invoke (.peer h.transport) with
        | .text peer =>
          if peer = h.endpoint.peerIdentity then pure none else throw (.gateway .identity)
        | _ => throw (.gateway .identity) : GM digest (Option Code)).catching fun e =>
    match e with
    | .gateway code => pure (some code)
    | .interrupt => .fail e
    | _ => pure (some .identity)

/-- `_begin`: does the permit return exactly `True`? -/
def permitted (provider : Provider) (service : Service) (now : ℤ) : GM digest Bool :=
  onException
    (do match ← Prog.read fun s => s.client.permit with
        | none => pure true
        | some (.function f) =>
          match ← invoke (.permit f provider service now) with
          | .truth b => pure b
          | _ => pure false
        | some .configuration =>
          match ← Prog.read Sys.config with
          | none => throw .exception
          | some c => do
            Prog.write fun s => { s with config := some (c.permit provider service now).2 }
            pure (c.permit provider service now).1)
    (pure false)

/-- `_begin`: the callback itself. -/
def launch (codec : Codec) (request : Request) (route : Route) : GM digest Answer :=
  match route with
  | .host h => do
    let body ← ofCode (requestBytes codec (some request))
    invoke (.hostBegin h.transport
      { endpoint := h.endpoint, authorization := "Bearer " ++ h.bearer, body := body,
        budgetMs := request.budgetMs })
  | .vm l => invoke (.localBegin l.begins request request.budgetMs)

/-- The job of an answer. -/
def Answer.toJob : Answer → Option ℕ
  | .job j => some j
  | _ => none

/-- `_begin`, once everything is admitted. -/
def commence (codec : Codec) (finish : Value → GM digest Unit) (request : Request) : GM digest Unit := do
  Prog.write (Sys.onClient (Client.soil true))
  let call ← activeCall
  let begun ← onException (some <$> launch codec request call.route) (pure none)
  match begun with
  | none => finish (.failure (call.failure .providerFailed))
  | some (.remote code) => do
    Prog.write (Sys.onClient (Client.soil false))
    finish (.failure (call.failure (Code.ofText code)))
  | some a => do
    change fun c => { c with job := a.toJob }
    match ← interruption with
    | some code => finish (.failure (call.failure code))
    | none => pure ()

/-- `_begin`, from the second look at the clock on. -/
def authorize (codec : Codec) (finish : Value → GM digest Unit) : GM digest Unit := do
  match ← interruption with
  | some code => do
    let call ← activeCall
    finish (.failure (call.failure code))
  | none => do
    let call ← activeCall
    let request := call.routed
    change fun c => { c with request := request }
    let allowed ← permitted call.route.provider request.service (call.lastTime.getD 0)
    let call ← activeCall
    if !allowed || (← Prog.read fun s => s.client.disabled) || call.cancelRequested then
      finish (.failure (call.failure .canceled))
    else commence codec finish request

/-- `_begin`. -/
def attempt (codec : Codec) (finish : Value → GM digest Unit) : GM digest Unit := do
  match ← interruption with
  | some code => do
    let call ← activeCall
    finish (.failure (call.failure code))
  | none => do
    let call ← activeCall
    match ← checked codec call.routed call.route with
    | some code => finish (.failure (call.failure code))
    | none => authorize codec finish

/-- `_begin` on the local route, after which there is no other. -/
def beginLocal (codec : Codec) : GM digest Unit := attempt codec (settle (pure ()))

/-- `_finish`. -/
def finish (codec : Codec) : Value → GM digest Unit := settle (beginLocal codec)

/-- `_begin`. -/
def beginCall (codec : Codec) : GM digest Unit := attempt codec (finish codec)

/-! ## Public methods -/

/-- `start`. -/
def start (codec : Codec) (request : Option Request) : GM digest Unit := do
  let c ← Prog.read Sys.client
  if c.active.isSome || c.terminal.isSome || c.insideCallback || c.configuring then
    throw (.gateway .busy)
  else match c.fault with
    | some code => throw (.gateway code)
    | none =>
      if c.disabled then throw (.gateway .canceled)
      else do
        let raw ← ofCode (requestBytes codec request)
        let request ← ofCode (parseRequest codec (some raw))
        if request.catalogVersion ≠ c.catalogVersion then throw (.gateway .staleCatalog)
        else if request.providerId ≠ c.host.provider.providerId
            ∨ request.modelVersion ≠ c.host.provider.modelVersion then throw (.gateway .identity)
        else if c.history.contains request.requestId then throw (.gateway .replay)
        else if historyLimit ≤ c.history.length then throw (.gateway .exhausted)
        else do
          Prog.write fun s =>
            (s.onClient (Client.accept request)).mark (.accepted request.requestId)
          beginCall codec

/-- `_receive`: the value of a reply. -/
def received (codec : Codec) (call : Call) (incoming : Answer) : Value :=
  let parsed (raw : Option Bytes) : Value :=
    match parseResponse codec raw call.request with
    | .ok (.output o) => .output o
    | .ok (.error code) => .failure (call.failure code)
    | .error code => .failure (call.failure code)
  match call.route with
  | .vm _ => parsed (match incoming with
    | .bytes b => some b
    | _ => none)
  | .host h =>
    match incoming with
    | .reply r =>
      if r.status = none then .failure (call.failure .invalidResponse)
      else if r.peerIdentity ≠ some h.endpoint.peerIdentity then .failure (call.failure .identity)
      else if r.status = some 401 ∨ r.status = some 403 then
        .failure (call.failure .authentication)
      else if r.status = some 504 then .failure (call.failure .timeout)
      else if r.status = some 502 ∨ r.status = some 503 then .failure (call.failure .unavailable)
      else if r.status ≠ some 200 then .failure (call.failure .invalidResponse)
      else parsed r.body
    | _ => .failure (call.failure .invalidResponse)

/-- `poll`, its `try`: what the job has, or the code of the failure. -/
def pollJob (call : Call) : GM digest (Except Code Answer) :=
  (do match call.job with
      | none => throw .exception
      | some job => Except.ok <$> invoke (.poll job) : GM digest (Except Code Answer)).catching
    fun e => match e with
    | .gateway code => pure (.error code)
    | .interrupt => .fail e
    | _ => pure (.error .providerFailed)

/-- `poll`, for an active call. -/
def advanceCall (codec : Codec) : GM digest Unit := do
  match ← interruption with
  | some code => do
    let call ← activeCall
    finish codec (.failure (call.failure code))
  | none => do
    let call ← activeCall
    match ← pollJob call with
    | .error code => finish codec (.failure (call.failure code))
    | .ok incoming =>
      match ← interruption with
      | some code => finish codec (.failure (call.failure code))
      | none => if incoming = .nothing then pure () else finish codec (received codec call incoming)

/-- `poll`. -/
def poll (codec : Codec) : GM digest (Option Terminal) := do
  let c ← Prog.read Sys.client
  if c.insideCallback || c.configuring then pure none
  else do
    if c.active.isSome then advanceCall codec
    let t ← Prog.read fun s => s.client.terminal
    Prog.write Sys.deliver
    pure t

/-- `cancel`. -/
def cancel (codec : Codec) : GM digest Unit := do
  match ← Prog.read fun s => s.client.active with
  | none => pure ()
  | some _ => do
    Prog.write (Sys.onClient (Client.flag false true))
    if ← Prog.read fun s => s.client.insideCallback then pure ()
    else do
      let call ← activeCall
      finish codec (.failure (call.failure .canceled))

/-- `_require_configuration_owner`. -/
def requireOwner (owner : Option Owner) : GM digest Unit := do
  if owner ≠ (← Prog.read fun s => s.client.owner) then throw (.gateway .identity) else pure ()

/-- `disable`. -/
def disable (codec : Codec) (owner : Option Owner) : GM digest Unit := do
  requireOwner owner
  Prog.write (Sys.onClient (Client.flag true false))
  cancel codec

/-- `claim_configuration`. -/
def claimConfiguration (owner : Owner) : GM digest Unit := do
  let c ← Prog.read Sys.client
  if c.owner.isSome || c.active.isSome || c.terminal.isSome || c.insideCallback || c.configuring then
    throw (.gateway .busy)
  else match c.fault with
    | some code => throw (.gateway code)
    | none => Prog.write (Sys.onClient fun c => { c with owner := some owner, disabled := true })

/-- `with client.configuration(owner): body`. -/
def configuration {α : Type} (owner : Option Owner) (body : GM digest α) : GM digest α := do
  requireOwner owner
  let c ← Prog.read Sys.client
  if c.insideCallback || c.configuring then throw (.gateway .busy)
  else do
    Prog.write (Sys.onClient fun c => { c with configuring := true })
    body.lastly (Prog.write (Sys.onClient fun c => { c with configuring := false }))

/-- `reconfigure`. No host stands for a route of another type, no permit for one that cannot
be called. -/
def reconfigure (host : Option Host) (localRoute : Option Local) (permit : Option (Option Permit))
    (owner : Option Owner) : GM digest Unit := do
  requireOwner owner
  let c ← Prog.read Sys.client
  if c.active.isSome || c.terminal.isSome || c.insideCallback then throw (.gateway .busy)
  else match c.fault, host, permit with
    | some code, _, _ => throw (.gateway code)
    | none, none, _ => throw (.gateway .identity)
    | none, some _, none => throw (.gateway .invalidRequest)
    | none, some host, some permit =>
      Prog.write (Sys.onClient (Client.rebind host localRoute permit))

/-! ## The methods of the configuration that reach the gateway -/

/-- A configuration transaction: `f` on the configuration, within the gateway's. -/
def transact {α : Type} (f : Configuration digest → GM digest α) : GM digest α := do
  match ← Prog.read Sys.config with
  | none => throw .exception
  | some _ => configuration (some .configuration) do
    match ← Prog.read Sys.config with
    | none => throw .exception
    | some c => f c

/-- Raise a text as a `ConfigurationError`. -/
def ofText {α : Type} : Except String α → GM digest α
  | .ok a => pure a
  | .error text => throw (.configuration text)

/-- Publish a configuration. -/
def setConfig (c : Configuration digest) : GM digest Unit :=
  Prog.write fun s => { s with config := some c }

/-- `Configuration(gateway)`. -/
def configure : GM digest Unit := do
  claimConfiguration .configuration
  setConfig .new

/-- `activate`: the new revision. -/
def activate (candidate receipt : ℕ) (now : Option ℤ) : GM digest ℕ :=
  transact fun c => do
    let s ← ofText (c.approved candidate receipt)
    setConfig (c.time now).2
    ofText (c.time now).1
    let routes ← ofText ((c.time now).2.rebound s (now.getD 0))
    reconfigure (some routes.1) routes.2 (some (some .configuration)) (some .configuration)
    setConfig ((c.time now).2.publish s receipt)
    pure (c.state.revision + 1)

/-- `disable` of the configuration: the new revision. -/
def disableConfiguration (codec : Codec) : GM digest ℕ :=
  transact fun c => do
    setConfig c.disable
    disable codec (some .configuration)
    pure (c.state.revision + 1)

/-! ## The machine -/

/-- The parts of a candidate. -/
structure Parts where
  manifests : List Manifest
  host : Host
  localRoute : Option Local
  policy : Providers.Policy
  evidence : List Evidence

/-- A call of a public method. `mine`: with the token that `claim_configuration` gave to
another owner than a `Configuration`. -/
inductive Method where
  | start (request : Option Request)
  | poll
  | cancel
  | disable (mine : Bool)
  | claimConfiguration
  | configuration (mine : Bool)
  | reconfigure (host : Option Host) (localRoute : Option Local) (permit : Option (Option ℕ))
      (mine : Bool)
  | configure
  | stage (parts : Parts)
  | restore (revision : ℕ) (evidence : List Evidence)
  | observe (candidate : ℕ) (providerId : String) (status : Option Health) (observedAtMs : Option ℤ)
  | approve (candidate : ℕ) (bootstrap : Bool)
  | reject (candidate : ℕ)
  | activate (candidate receipt : ℕ) (now : Option ℤ)
  | disableConfiguration

/-- What a public method returns. -/
inductive Return where
  | unit
  | terminal (t : Option Terminal)
  | candidate (id : ℕ)
  | receipt (id : ℕ)
  | revision (n : ℕ)
  deriving DecidableEq

/-- The token of an owner that is no configuration. -/
def ownerOf (mine : Bool) : Option Owner := if mine then some .other else none

/-- A call, run. -/
def body (codec : Codec) : Method → GM digest Return
  | .start request => (fun _ => .unit) <$> start codec request
  | .poll => .terminal <$> poll codec
  | .cancel => (fun _ => .unit) <$> cancel codec
  | .disable mine => (fun _ => .unit) <$> disable codec (ownerOf mine)
  | .claimConfiguration => (fun _ => .unit) <$> claimConfiguration .other
  | .configuration mine => configuration (ownerOf mine) do
    match ← Prog.ask .transaction with
    | .raised e => throw e
    | _ => pure .unit
  | .reconfigure host localRoute permit mine => (fun _ => .unit) <$>
      reconfigure host localRoute (permit.map fun f => f.map .function) (ownerOf mine)
  | .configure => (fun _ => .unit) <$> configure
  | .stage parts => transact fun c => do
    let (s, c) ← ofText (c.stage parts.manifests parts.host parts.localRoute parts.policy parts.evidence)
    setConfig c
    pure (.candidate s.id)
  | .restore revision evidence => transact fun c => do
    match c.history.find? fun item => item.1 = revision with
    | none => throw (.configuration "restore-revision")
    | some (_, s) => do
      let (s, c) ← ofText (c.stage s.manifests s.host s.localRoute s.policy evidence)
      setConfig c
      pure (.candidate s.id)
  | .observe candidate providerId status observedAtMs => transact fun c => do
    let c ← ofText (c.observe candidate providerId status observedAtMs)
    setConfig c
    pure .unit
  | .approve candidate bootstrap => transact fun c => do
    let (receipt, c) ← ofText (c.approve candidate bootstrap)
    setConfig c
    pure (.receipt receipt)
  | .reject candidate => transact fun c => do
    let c ← ofText (c.reject candidate)
    setConfig c
    pure .unit
  | .activate candidate receipt now => .revision <$> activate candidate receipt now
  | .disableConfiguration => .revision <$> disableConfiguration codec

/-- A world of the gateway. -/
abbrev GWorld (digest : Manifest → String) := World (Sys digest) Op Answer Exc Method Return

/-- A log entry of the gateway. -/
abbrev GEntry (digest : Manifest → String) := Entry (Sys digest) Op Answer Exc Method Return

/-- **The client and its configuration**: any callback may call any method. -/
def gateway (codec : Codec) (digest : Manifest → String) :
    Machine (Sys digest) Op Answer Exc Method Return where
  body := body codec
  enter _ _ _ := true
  legal _ op a := op.admits a

/-- A client that nothing was done with yet. -/
def fresh (digest : Manifest → String) (host : Host) (localRoute : Option Local)
    (catalogVersion : ℤ) : Sys digest :=
  ⟨.new host localRoute catalogVersion, none, []⟩

end Gateway

end Arhugula
