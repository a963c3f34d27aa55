import Mathlib.Algebra.Order.Ring.Unbundled.Rat
import Arhugula.Spec.Vm

/-!
# The control plane (`runtime/core.py`)

The methods of a `ControlPlane`, each under the source's name. `_dispatch` is
`dispatchBody`, cut where the source has a `try` of its own.
-/

namespace Arhugula

namespace Plane

open Reentrant Vm

/-- The denial codes, and the codes of the other refusals. -/
inductive Code where
  | profileDenied | voiceDisabled | policyDenied | capabilityUnavailable | catalogStale
  | riskBlocked | confirmationRequired | argumentsInvalid | commandDuplicate | contextStale
  | confirmationInvalid | confirmationExpired | journalUnavailable | executorUncertain
  deriving DecidableEq, Repr

def Code.text : Code → String
  | .profileDenied => "profile.denied"
  | .voiceDisabled => "voice.disabled"
  | .policyDenied => "policy.denied"
  | .capabilityUnavailable => "capability.unavailable"
  | .catalogStale => "catalog.stale"
  | .riskBlocked => "risk.blocked"
  | .confirmationRequired => "confirmation.required"
  | .argumentsInvalid => "arguments.invalid"
  | .commandDuplicate => "command.duplicate"
  | .contextStale => "context.stale"
  | .confirmationInvalid => "confirmation.invalid"
  | .confirmationExpired => "confirmation.expired"
  | .journalUnavailable => "journal.unavailable"
  | .executorUncertain => "executor.uncertain"

/-- A call of a public method. `none` stands for an argument of another type. -/
inductive Method where
  | dispatch (p : ℕ) (command : Command) (canceled : Option Bool) (guard : Option Guard)
  | requestConfirmation (p : ℕ) (command : Command) (contextKey : Option String)
  | confirm (p : ℕ) (token : Option String) (channel : String) (contextKey : Option String)
      (approved : Option Bool) (guard : Option Guard)
  | replaceCatalog (p : ℕ) (catalog : List Capability) (expectedVersion newVersion : ℤ)
  | assess (p : ℕ) (command : Command)
  | observeInteraction (p : ℕ) (command : Command) (phase : Phase) (details : Mapping Json)
  deriving DecidableEq

def Method.plane : Method → ℕ
  | .dispatch p .. | .requestConfirmation p .. | .confirm p .. | .replaceCatalog p ..
  | .assess p _ | .observeInteraction p .. => p

/-- What a public method returns. -/
inductive Value where
  | result (r : Result)
  | confirmation (c : Confirmation)
  | version (v : ℤ)
  | denial (d : Option Code)
  | unit
  deriving DecidableEq

/-- `_guard_denial`: only a guard that returns exactly `True` does not deny. -/
def guardDenial (p : ℕ) : Option Guard → VM (Option Code)
  | none => pure none
  | some g =>
    onException
      (do if ← g.run p then pure none else pure (some .contextStale))
      (pure (some .contextStale))

/-! ## Results and events -/

/-- `_snapshot(result, Result)`. -/
def snapshotResult (r : Result) : VM Result :=
  if r.wellFormed then pure r else throw (.contract "result")

/-- `_error`. -/
def error (code : Code) (message : String) : Error := ⟨code.text, message, false⟩

/-- `_result`. -/
def result (p : ℕ) (command : Command) (status : Status) (output : Mapping Json)
    (err : Option Error) : VM Result := do
  let id ← identifiers p
  snapshotResult ⟨id, command.commandId, command.correlationId, status, output, err⟩

/-- `_event`: a start for no result, else the finish of that result. -/
def event (p : ℕ) (command : Command) (res : Option Result) (start : ℤ) : VM Event := do
  let now ← clock p
  let id ← identifiers p
  let revision ← Prog.read fun s => (s.planes p).policy.revision
  let e : Event :=
    { eventId := id
      commandId := command.commandId
      correlationId := command.correlationId
      eventType := if res.isSome then .finished else .started
      timestampMs := now
      status := res.map Result.status
      capabilityId := command.capabilityId
      catalogVersion := command.catalogVersion
      policyRevision := revision
      durationMs := max 0 (now - start : ℤ)
      context := command.context
      details := match res with
        | none => []
        | some r => [("error_code", (r.error.map fun e => Json.str e.code).getD .null),
            ("result_id", .str r.resultId)] }
  if e.wellFormed then pure e else throw (.contract "event")

/-! ## Authorization -/

/-- `_denial`. -/
def denial (s : ControlPlane) (command : Command) (confirmed : Bool) : Option Code :=
  if !s.profile.enabled || s.profile.policyId ≠ s.policy.policyId
      || command.context.profileId ≠ s.profile.profileId then some .profileDenied
  else if command.context.source = .voice && !s.profile.voiceEnabled then some .voiceDisabled
  else if !s.policy.enabled || !s.policy.allowedCapabilities.contains command.capabilityId then
    some .policyDenied
  else match s.capability command.capabilityId with
    | none => some .capabilityUnavailable
    | some capability =>
      if !capability.enabled then some .capabilityUnavailable
      else if capability.catalogVersion ≠ command.catalogVersion then some .catalogStale
      else if capability.risk = .blocked then some .riskBlocked
      else if !confirmed && (capability.risk = .confirm
          || s.policy.confirmationRequired.contains command.capabilityId) then
        some .confirmationRequired
      else if !command.arguments.sameKeys capability.arguments then some .argumentsInvalid
      else if capability.arguments.any fun a =>
          !(command.arguments.get a.1).any a.2.admits then some .argumentsInvalid
      else none

/-- `with self._catalog_use(): p`. -/
def catalogUse {α : Type} (p : ℕ) (body : VM α) : VM α := do
  Prog.write fun s => s.modify p .use
  body.lastly (Prog.write fun s => s.modify p .release)

/-- `_snapshot(command, Command)`. -/
def snapshotCommand (command : Command) : VM Unit :=
  if command.wellFormed then pure () else throw (.contract "command")

/-- `_catalog_snapshot`: at most 256 valid entries, of one revision, each with its own
capability. -/
def catalogSnapshot (catalog : List Capability) : Except Exc (List Capability × Option ℤ) :=
  if !(catalog.take 257).all Capability.wellFormed then .error (.contract "capability")
  else if 256 < catalog.length then .error (.value "catalog.oversize")
  else if !(catalog.map Capability.capabilityId).Nodup then
    .error (.value "duplicate capability IDs")
  else if !(catalog.all fun a => catalog.all fun b => a.catalogVersion = b.catalogVersion) then
    .error (.value "catalog.mixed-revisions")
  else .ok (catalog, (catalog.head?).map Capability.catalogVersion)

/-- `replace_catalog`. -/
def replaceCatalog (p : ℕ) (catalog : List Capability) (expectedVersion newVersion : ℤ) : VM ℤ := do
  if expectedVersion < 1 || newVersion < 1 then throw (.value "catalog.version")
  else match catalogSnapshot catalog with
    | .error e => throw e
    | .ok (replacement, revision) =>
      if revision.any (fun v => v ≠ newVersion) then throw (.value "catalog.version")
      else do
        let s ← Prog.read fun s => s.planes p
        if s.catalogUsers ≠ 0 then throw (.value "catalog.in-use")
        else if expectedVersion ≠ s.catalogVersion || newVersion ≤ s.catalogVersion then
          throw (.value "catalog.stale")
        else do
          Prog.write fun s => s.modify p (.replace replacement newVersion)
          pure newVersion

/-- `assess`. -/
def assess (p : ℕ) (command : Command) : VM (Option Code) := do
  snapshotCommand command
  Prog.read fun s => denial (s.planes p) command false

/-- `observe_interaction`. -/
def observeInteraction (p : ℕ) (command : Command) (phase : Phase) (details : Mapping Json) :
    VM Unit := do
  snapshotCommand command
  let id ← identifiers p
  let now ← clock p
  let e : Interaction :=
    { eventId := id
      interactionId := command.commandId
      correlationId := command.correlationId
      timestampMs := now
      context := command.context
      phase := phase
      details := details }
  if e.wellFormed then append (.interaction e) else throw (.contract "interaction")

/-! ## Dispatch -/

/-- `self._seen.add`. -/
def addSeen (p : ℕ) (id : String) : VM Unit :=
  Prog.write fun s => s.modify p (.see [id])

/-- The command identifiers of the execution events of a history. -/
def executed (history : Journal) : List String :=
  history.filterMap fun
    | .event e => some e.commandId
    | _ => none

/-- The history holds a voice preview of the command. -/
def previewed (history : Journal) (id : String) : Bool :=
  history.any fun
    | .interaction e => e.phase = .preview && e.interactionId = id
    | _ => false

/-- `_dispatch`: read the history into `_seen`; the value is `pending`. -/
def readHistory (p : ℕ) (command : Command) : VM Bool := do
  let history ← readJournal
  Prog.write fun s => s.modify p (.see (executed history))
  pure (previewed history command.commandId)

/-- `_dispatch`: call the executor, and turn whatever it does into a result. -/
def execute (p : ℕ) (command : Command) : VM Result :=
  onException
    (do match ← Prog.ask (.execute p command) with
        | .raised e => throw e
        | .outcome o =>
          match Status.ofOutcome o.status, o.output with
          | none, _ => throw (.contract "invalid executor outcome")
          | some status, some output => result p command status output o.error
          | some _, none => do
            let _ ← identifiers p
            throw (.contract "result")
        | _ => throw (.contract "invalid executor outcome"))
    (result p command .uncertain [] (some (error .executorUncertain
      "Executor did not produce a valid outcome; reconcile before retry")))

/-- `_dispatch`: record the completion; without that evidence, claim no success. -/
def finish (p : ℕ) (command : Command) (start : ℤ) (ran : Bool) (res : Result) : VM Result :=
  onException
    (do append (.event (← event p command (some res) start))
        pure res)
    (result p command (if ran then .uncertain else res.status) []
      (some (error .journalUnavailable "Cannot persist completion; reconcile before retry")))

/-- `_dispatch`, from the recorded intent on. -/
def actuate (p : ℕ) (command : Command) (start : ℤ) (guard : Option Guard) : VM Result := do
  match ← guardDenial p guard with
  | some code =>
    let res ← result p command .blocked []
      (some (error code "Current state no longer authorizes execution"))
    finish p command start false res
  | none =>
    let res ← execute p command
    finish p command start true res

/-- `_dispatch`, once the command is authorized: the intent is recorded first. -/
def intend (p : ℕ) (command : Command) (start : ℤ) (guard : Option Guard) : VM Result := do
  let recorded ← onException
    (do append (.event (← event p command none start))
        pure true)
    (pure false)
  if recorded then actuate p command start guard
  else
    result p command .blocked []
      (some (error .journalUnavailable "Cannot persist execution intent"))

/-- `_dispatch`: the denial, in the order of the source. -/
def authorize (p : ℕ) (command : Command) (duplicate pending confirmed : Bool)
    (guard : Option Guard) : VM (Option Code) :=
  if duplicate then pure (some .commandDuplicate)
  else if pending && !confirmed then pure (some .confirmationRequired)
  else do
    match ← guardDenial p guard with
    | some code => pure (some code)
    | none => Prog.read fun s => denial (s.planes p) command confirmed

/-- `_dispatch`. -/
def dispatchBody (p : ℕ) (command : Command) (canceled confirmed : Bool) (guard : Option Guard) :
    VM Result := do
  let pending ← onException (some <$> readHistory p command) (pure none)
  match pending with
  | none =>
    result p command .blocked []
      (some (error .journalUnavailable "Cannot read execution history"))
  | some pending =>
    let start ← clock p
    let duplicate ← Prog.read fun s => (s.planes p).seen.contains command.commandId
    addSeen p command.commandId
    let denial ← authorize p command duplicate pending confirmed guard
    if canceled && !duplicate then do
      let res ← result p command .canceled [] none
      finish p command start false res
    else match denial with
      | some code => do
        let res ← result p command .blocked []
          (some (error code "VM policy did not authorize execution"))
        finish p command start false res
      | none => intend p command start guard

/-- `dispatch`. -/
def dispatch (p : ℕ) (command : Command) (canceled : Option Bool) (guard : Option Guard) :
    VM Result := do
  snapshotCommand command
  match canceled with
  | none => throw (.contract "canceled must be boolean")
  | some canceled => catalogUse p (dispatchBody p command canceled false guard)

/-! ## Confirmation -/

/-- `request_confirmation`, with the catalog in use. -/
def issuePreview (p : ℕ) (command : Command) (key : String) : VM Confirmation := do
  let s ← Prog.read fun s => s.planes p
  if (denial s command true).isSome then
    throw (.confirmation "command is not eligible for confirmation")
  else do
    let now ← clock p
    Prog.write fun s => s.modify p (.expire now)
    let live ← Prog.read fun s => (s.planes p).confirmations.length
    if 128 ≤ live then throw (.confirmation "too many pending confirmations")
    else do
      let preview : Confirmation := ⟨← uuid4, command, now + 30000⟩
      onException
        (observeInteraction p command .preview
          [("capability_id", .str command.capabilityId)])
        (throw (.confirmation "journal unavailable"))
      Prog.write fun s => s.modify p (.issue preview key)
      pure preview

/-- `request_confirmation`. -/
def requestConfirmation (p : ℕ) (command : Command) (contextKey : Option String) :
    VM Confirmation := do
  snapshotCommand command
  match contextKey.filter (fun k => k ≠ "") with
  | none => throw (.confirmation "invalid context key")
  | some key => catalogUse p (issuePreview p command key)

/-- `_confirmation_blocked`. -/
def confirmationBlocked (p : ℕ) (command : Command) (code : Code) : VM Result := do
  addSeen p command.commandId
  let res ← result p command .blocked [] (some (error code "Confirmation was not valid"))
  onException
    (do let start ← clock p
        append (.event (← event p command (some res) start))
        pure res)
    (result p command .blocked []
      (some (error .journalUnavailable "Cannot record confirmation rejection")))

/-- The channels a confirmation may come from. -/
def channels : List String := ["panel", "keyboard", "voice"]

/-- `confirm`, once the token is consumed. -/
def confirmPreview (p : ℕ) (preview : Confirmation) (originalKey channel : String)
    (contextKey : Option String) (approved : Option Bool) (guard : Option Guard) : VM Result := do
  let command := preview.command
  match channels.contains channel, approved with
  | true, some approved =>
    if contextKey ≠ some originalKey then confirmationBlocked p command .contextStale
    else do
      let now ← clock p
      if preview.expiresAtMs ≤ now then confirmationBlocked p command .confirmationExpired
      else do
        match ← guardDenial p guard with
        | some code => confirmationBlocked p command code
        | none =>
          let observed ← onException
            (do observeInteraction p command .confirmation
                  [("approved", .bool approved), ("channel", .str channel)]
                pure true)
            (pure false)
          if observed then dispatchBody p command (!approved) approved guard
          else confirmationBlocked p command .journalUnavailable
  | _, _ => confirmationBlocked p command .confirmationInvalid

/-- `confirm`. -/
def confirm (p : ℕ) (token : Option String) (channel : String) (contextKey : Option String)
    (approved : Option Bool) (guard : Option Guard) : VM Result :=
  catalogUse p do
    let s ← Prog.read fun s => s.planes p
    match token.bind fun t => (s.confirmations.get t).map fun v => (t, v) with
    | none => throw (.confirmation "unknown or already consumed confirmation")
    | some (token, preview, originalKey) => do
      Prog.write fun s => s.modify p (.take token)
      confirmPreview p preview originalKey channel contextKey approved guard

/-! ## The machine -/

/-- A call of a public method. -/
def body : Method → VM Value
  | .dispatch p command canceled guard => .result <$> dispatch p command canceled guard
  | .requestConfirmation p command key => .confirmation <$> requestConfirmation p command key
  | .confirm p token channel key approved guard =>
    .result <$> confirm p token channel key approved guard
  | .replaceCatalog p catalog expected new => .version <$> replaceCatalog p catalog expected new
  | .assess p command => .denial <$> assess p command
  | .observeInteraction p command phase details =>
    (fun _ => .unit) <$> observeInteraction p command phase details

/-- A world of the planes. -/
abbrev PWorld := World State Op Answer Exc Method Value

/-- A log entry of the planes. -/
abbrev PEntry := Entry State Op Answer Exc Method Value

/-- A fresh token: `uuid4` never gives the same one twice. -/
def freshToken (w : PWorld) : Op → Answer → Bool
  | .uuid4, .text t => w.log.all fun e => match e.act with
    | .reply .uuid4 (.text s) => s ≠ t
    | _ => true
  | _, _ => true

/-- The planes, called as `enter` allows. -/
def machine (enter : PWorld → List (ℕ × Op) → Method → Bool) :
    Machine State Op Answer Exc Method Value where
  body := body
  enter := enter
  legal := freshToken

/-- `ControlPlane.__init__`: a new plane has the version of its catalog, and empty tables. -/
def renew (c : ControlPlane) : ControlPlane :=
  { c with
    catalogVersion := ((c.catalog.head?).map Capability.catalogVersion).getD 1
    catalogUsers := 0
    seen := []
    confirmations := [] }

/-- What a restart leaves: new planes, and the journal. -/
def restart (s : State) : State := { s with planes := fun p => renew (s.planes p) }

/-- The planes of a process that may crash at any time, and then starts again. -/
def restarting (enter : PWorld → List (ℕ × Op) → Method → Bool) :
    Machine State Op Answer Exc Method Value :=
  { machine enter with crash := fun s => some (restart s) }

/-- Any callback may call any plane. -/
def anyPlane (_ : PWorld) (_ : List (ℕ × Op)) (_ : Method) : Bool := true

/-- Clocks and guards call the plane that called them, executors any plane. -/
def ownPlane (_ : PWorld) : List (ℕ × Op) → Method → Bool
  | [], _ => true
  | (_, .clock p) :: _, m | (_, .guard p _) :: _, m => m.plane = p
  | (_, .execute ..) :: _, _ => true
  | _ :: _, _ => false

end Plane

end Arhugula
