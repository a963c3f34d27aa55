import Arhugula.Spec.Loop

/-!
# The operations of the loop (`ops/orchestration/loop.py`)

Those that admit work, count it, review it, reserve it, and those of a reset; and the machine of all of them.
-/

namespace Arhugula

namespace Loop

open Reentrant Durable Strings Lit ReviewBudget

variable {H : Type} [DecidableEq H]

/-! ## Admission -/

/-- `initialize`. -/
def initializeJournal (session model effort handoff goal : Text) : LM H Unit := do
  lease do
    call .journal
    if (← Prog.read (·.journal)) ≠ .absent then refuse "journal already initialized; never reset progress"
    else do
      let (_, buford) ← readControl
      if buford.sessionId ≠ session then refuse "Buford routing identity mismatch"
      else do
        let binding ← fileBinding handoff
        save (initial session model effort binding goal)

/-- `self._startup_budget`. -/
def startupBudget (state : Journal H) (transcript : Text) : LM H Json := do
  match ← Prog.ask (.budget transcript state.sessionId) with
  | .report report => pure report
  | .rejected report => do
    save { state with startupRejection := some report, resetRequested := some true }
    throw .rejected
  | _ => throw .fault

/-- The part of `begin` that checks the startup of this epoch. -/
def startup (state : Journal H) (transcript : Text) : LM H (Journal H) := do
  if state.startupRequired ≠ some true then pure state
  else
    match state.startupReceipt.join with
    | none => refuse "verified startup context receipt required before workflow"
    | some receipt =>
      if receipt.epoch ≠ state.epoch then refuse "verified startup context receipt required before workflow"
      else do
        let report ← startupBudget state transcript
        pure { state with startupWorkflowAdmission := some report }

/-- The arguments of `begin`. -/
structure Begin where
  ticket : Text
  maintenance : Bool
  headroom : Bool
  unit : Option Text
  clearance : Clearance

/-- The key of a ticket, or of one of its units. -/
def unitKey (ticket : Text) : Option Text → Text
  | none => ticket
  | some unit => ticket ++ "::".toList ++ unit

/-- Admitted tickets that are closed and were not counted. -/
def unreconciled (state : Journal H) (data : Export) : List Text :=
  (Dict.keys state.admissions).filter fun t => (closed data).contains t && !(Dict.keys state.completed).contains t

/-- A reset is due. -/
def isResetDue (state : Journal H) (maintenance : Bool) : Bool :=
  state.epochCompleted ≥ 5 || state.reset.isSome ||
    state.isResetRequested && !(maintenance && state.isMaintenanceOnly)

/-- The unit that is asked for, or one of the units of the ticket, is quarantined. -/
def isUnitHeld (state : Journal H) (ticket : Text) (unit : Option Text) : Bool :=
  state.unitQuarantine.contains (unitKey ticket unit) ||
    unit = none && state.unitQuarantine.any fun k => (ticket ++ "::".toList).isPrefixOf k

/-- The grant that `begin` makes. -/
def Begin.grant (b : Begin) (h : Host H) (state : Journal H) (data : Export) (reads : Reads) (control id issuer : Text)
    (reservation : Json) : Grant H where
  id := id
  ticket := b.ticket
  fingerprint := fingerprint h.digest data b.ticket state.goalTicket
  control := control
  maintenance := b.maintenance
  reads := reads
  iteration := state.iteration + 1
  unit := b.unit
  reservation := reservation
  operations := b.clearance.operations
  blockers := openDependencies data b.ticket
  issuer := issuer
  release := b.clearance.release

/-- The journal that `begin` saves. -/
def Begin.admitted (b : Begin) (state : Journal H) (grant : Grant H) : Journal H :=
  { state with
    iteration := state.iteration + 1
    admission := some grant
    admissions := if b.clearance.operations.contains "implementation" then Dict.put state.admissions b.ticket grant
      else state.admissions
    startupRequired := some false }

/-- What `begin` returns. -/
structure Began where
  admission : Text
  ticket : Text
  iteration : ℕ
  reads : Reads
  epochCompleted : ℤ
  deriving DecidableEq

/-- `begin`, once nothing holds it back. -/
def Begin.issue (b : Begin) (h : Host H) (state : Journal H) (data : Export) (reads : Reads) (transcript : Text) :
    LM H Began := do
  given (b.clearance.admits h data b.ticket (openDependencies data b.ticket))
  let issuer ← b.clearance.issuer state.sessionId transcript
  let reservation ← given (recordedWriter state b.ticket)
  if !((data.issues.find? (·.id = b.ticket)).any Issue.isActive) then refuse "ticket is not active"
  else do
    let id ← fetch .identifier fun
      | .identifier id => some id
      | _ => none
    let control ← bindControl h
    let grant := b.grant h state data reads control.sha256 id issuer reservation
    save (b.admitted state grant)
    pure ⟨id, b.ticket, state.iteration + 1, reads, state.epochCompleted⟩

/-- `begin`. -/
def begin (h : Host H) (b : Begin) : LM H Began :=
  lease do
    let state ← readJournal
    let (control, buford) ← readControl
    let (data, reads) ← readLit b.ticket
    if state.isAwaiting then refuse "verified native reset receipt required before fresh-epoch admission"
    else do
      let state ← startup state buford.transcript
      if state.isMaintenanceOnly && !b.maintenance then
        refuse "maintenance recovery requires a genuine native reset before production"
      else if unreconciled state data ≠ [] then refuse "completion-reconciliation-required"
      else if control.repairPaused = some true && !b.maintenance then refuse "production-paused"
      else if buford.sessionId ≠ state.sessionId then refuse "Buford identity changed; bootstrap required"
      else if isResetDue state b.maintenance || !b.headroom then do
        if !b.headroom then save { state with resetRequested := some true }
        refuse "context-reset-required"
      else if b.ticket ∈ excludedScope data state.quarantine then
        refuse "ticket quarantined or dependent on quarantine"
      else if isUnitHeld state b.ticket b.unit then refuse "review unit quarantined; choose an independent unit"
      else b.issue h state data reads buford.transcript

/-- `request_reset`. -/
def requestReset (evidence : Json) : LM H (List Json) :=
  lease do
    let state ← readJournal
    let requests := state.resetRequests.getD []
    let requests := if requests.contains evidence then requests else requests ++ [evidence]
    save { state with resetRequests := some requests, resetRequested := some true }
    pure requests

/-- `finish_startup`. -/
def finishStartup (h : Host H) : LM H Startup :=
  lease do
    let state ← readJournal
    let (_, row) ← readControl
    if row.sessionId ≠ state.sessionId || state.isAwaiting then
      refuse "native bootstrap required before startup measurement"
    else do
      let report ← startupBudget state row.transcript
      let routing ← bindControl h
      save { state with startupReceipt := some (some ⟨report, state.epoch, routing⟩) }
      pure ⟨report, state.epoch, routing⟩

/-! ## Completion and review -/

/-- The record of a completion: evidence alone, or the closeout of a ticket of the trial. -/
def completion (state : Journal H) (ticket evidence : Text) (closeout : Option Text) (reads : Reads) :
    LM H Completion := do
  let evidence ← fileBinding evidence
  let profile ← fetch (.membership ticket) fun
    | .profile name => some name
    | _ => none
  if profile = "trial" then
    match closeout with
    | none => refuse "trial completion requires its closeout record"
    | some path => do
      let parsed ← fetch (.closeout path ticket) fun
        | .closeout c => some c
        | _ => none
      if parsed.requiredOpen ≠ [] then refuse "required obligation open"
      else do
        let bound ← fileBinding path
        pure ⟨evidence, reads, state.epoch, some ⟨bound, parsed.worktrees, parsed.pending⟩⟩
  else if profile ≠ "legacy" then refuse "membership holds completion"
  else if closeout.isSome then refuse "a closeout record is trial bookkeeping; ticket is legacy"
  else pure ⟨evidence, reads, state.epoch, none⟩

/-- The journal that `complete` saves. -/
def completed (state : Journal H) (ticket : Text) (record : Completion) : Journal H :=
  { state with
    completed := Dict.put state.completed ticket record
    admission := if state.admission.any (·.ticket = ticket) then none else state.admission
    reservations := some (state.active.filter (!isOf ticket ·)) }

/-- `complete`. -/
def complete (ticket evidence : Text) (closeout : Option Text) : LM H ℤ :=
  lease do
    let state ← readJournal
    let (data, reads) ← readLit ticket
    if (data.issues.find? (·.id = ticket)).any fun i => !i.isClosed || truthy (i.fields.get "deleted_at") ||
        truthy (i.fields.get "archived_at") then refuse "LIT ticket must actually be closed"
    else if data.relations.any fun r => r.type = "parent-child" && r.dst = ticket then
      refuse "completed parent/epic is not a completed leaf"
    else if (state.completed.find ticket).isSome then pure state.epochCompleted
    else if !(state.admissions.find ticket).any (·.ticket = ticket) then refuse "completion requires this ticket admission"
    else if ticket ∈ excludedScope data state.quarantine then refuse "quarantined work cannot complete"
    else do
      let record ← completion state ticket evidence closeout reads
      if state.active.any fun r => (member r "key").isNone then throw .key
      else do
        save (completed state ticket record)
        pure (completed state ticket record).epochCompleted

/-- The code that a review counts for: the one that was reviewed to its end, where nothing landed since. -/
def landing (product : Text) (facts : Facts) : LM H (CodeBinding × Option Transfer) := do
  match facts.terminal with
  | none => pure (facts.binding, none)
  | some (head, digest) =>
    if head = facts.binding.headSha then pure (facts.binding, none)
    else do
      let (delta, producer) ← fetch (.landing product head facts.binding.headSha) fun
        | .landing delta producer => some (delta, producer)
        | _ => none
      if delta then pure (facts.binding, none)
      else pure (⟨head, digest⟩, some ⟨head, facts.binding.headSha, producer⟩)

/-- The journal that `review` saves. -/
def reviewed (state : Journal H) (ticket key : Text) (unit : Option Text) (result : Review) : Journal H :=
  { state with
    arcUnits := Dict.put state.arcUnits result.arc key
    reviews := Dict.put state.reviews key result
    quarantine := if result.evaluation.decision = .quarantine && unit = none && !state.quarantine.contains ticket then
      state.quarantine ++ [ticket] else state.quarantine
    unitQuarantine := if result.evaluation.decision = .quarantine && unit ≠ none && !state.unitQuarantine.contains key then
      state.unitQuarantine ++ [key] else state.unitQuarantine }

/-- `review`. -/
def review (ticket product arc : Text) (impacts : List Impact) (unit : Option Text) : LM H Review :=
  lease do
    let state ← readJournal
    let (_, reads) ← readLit ticket
    let facts ← fetch (.gate product arc) fun
      | .facts f => some f
      | _ => none
    let key := unitKey ticket unit
    if (state.arcUnits.find arc).getD key ≠ key then refuse "stable review unit cannot be renamed to reset its budget"
    else do
      let old := (state.reviews.find key).map fun r => r.evaluation.observed
      let (code, transfer) ← landing product facts
      let next ← fetch (.nextPass product arc code.headSha code.diffDigest) fun
        | .pass next => some next
        | _ => none
      match evaluate facts.reducer arc code.headSha (old.getD []) impacts next with
      | .error text => refuse text
      | .ok evaluation => do
        let result : Review := ⟨evaluation, facts.binding, arc, product, facts.gate, facts.log, reads, transfer, unit⟩
        save (reviewed state ticket key unit result)
        if evaluation.decision = .quarantine then
          call (.label ticket (if unit = none then "review-quarantined" else "review-unit-quarantined"))
        call (.comment ticket key result)
        pure result

/-! ## Reservations -/

/-- `parse_reservation`. -/
def parseReservation (h : Host H) (record : Json) : Except Exc Ownership.Reservation :=
  match Ownership.parse h.resolve record with
  | .ok r => pure r
  | .error e => throw (.invalid e)

/-- `self._reservations`. -/
def reservations (h : Host H) (state : Journal H) : Except Exc (List Ownership.Reservation) :=
  state.active.mapM (parseReservation h)

/-- `reserve`. -/
def reserve (h : Host H) (record : Json) : LM H Text := do
  let candidate ← given (parseReservation h record)
  lease do
    let state ← readJournal
    let active ← given (reservations h state)
    if Ownership.conflicts active candidate ≠ [] then refuse "reservation-held"
    else do
      save { state with reservations := some (state.active ++ [record]) }
      pure candidate.key

/-- `release`. -/
def release (key : Text) : LM H Unit :=
  lease do
    let state ← readJournal
    if state.active.any fun r => (member r "key").isNone then throw .key
    else if !state.active.any (isOf key) then refuse "no reservation to release"
    else save { state with reservations := some (state.active.filter (!isOf key ·)) }

/-! ## Resets -/

/-- What the supervisor passes of a lane that it clears: its thread, its rollout, and the ceiling. -/
structure Memento where
  thread : Text
  rollout : Text
  ceiling : Json

/-- The arguments of `prepare_clear`. `automatic` is `None`, or has a memento or none. -/
structure Prepare where
  directory : Text
  handles : List ℕ
  automatic : Option (Option Memento)

/-- The session that a package clears. -/
def Prepare.previous (p : Prepare) (session : Text) : Text := (p.automatic.join.map Memento.thread).getD session

/-- The routed session, where another is cleared. -/
def Prepare.inherited (p : Prepare) (session : Text) : Option Text :=
  if p.previous session ≠ session then some session else none

/-- `state["reset"]`, of a package. -/
def Prepare.reset (p : Prepare) (session : Text) (manifest : Binding) : Reset where
  directory := p.directory
  manifest := manifest
  previousSession := p.previous session
  inheritedSession := if p.automatic.join.isSome then some (p.inherited session) else none

/-- The journal that `prepare_clear` saves. -/
def Prepare.sealed (p : Prepare) (state : Journal H) (manifest : Binding) : Journal H :=
  { state with
    reset := some (p.reset state.sessionId manifest)
    ceiling := match p.automatic.join with
      | some m => some m.ceiling
      | none => state.ceiling
    admission := none }

/-- `prepare_clear`. -/
def prepareClear (p : Prepare) : LM H Reset :=
  lease do
    let state ← readJournal
    call (.processes p.handles)
    if (← fileBinding state.handoff.path) ≠ state.handoff then refuse "sealed production handoff changed"
    else do
      let _ ← readLit state.goalTicket
      let (_, buford) ← readControl
      let _ ← identity ((p.automatic.join.map Memento.rollout).getD buford.transcript)
      let manifest ← fetch (.seal p.directory (p.previous state.sessionId) (p.inherited state.sessionId)) fun
        | .sealed manifest => some manifest
        | _ => none
      save (p.sealed state manifest)
      pure (p.reset state.sessionId manifest)

/-- `clear_package`. -/
def clearPackage (reset : Option Reset) : LM H (Reset × Frontier) := do
  match reset with
  | none => refuse "sealed clear package changed"
  | some reset => do
    let frontier ← fetch (.package reset) fun
      | .frontier f => some f
      | _ => none
    pure (reset, frontier)

/-- The lane of a transcript is the one of the journal. -/
def isLane (state : Journal H) (actual : Identity) : Bool :=
  actual.model = some state.model && actual.effort = some state.effort

/-- `ready_clear`. -/
def readyClear (transcript : Text) : LM H Unit := do
  let state ← status
  let actual ← identity transcript
  if state.reset.isNone || actual.status ≠ "complete" ||
      actual.sessionId ≠ state.reset.map Reset.previousSession || !isLane state actual then
    refuse "native clear requires an idle matching lane and sealed package"
  else do
    let _ ← clearPackage state.reset
    pure ()

/-- What the prompt of a package says first. -/
def handoffToken (nonce frontierSha : Text) : Text :=
  "BUFORD_CONTEXT_HANDOFF ".toList ++ nonce ++ ' ' :: frontierSha

/-- The transcript is that of the fresh lane which was given the prompt of the package. -/
def isFresh (h : Host H) (frontier : Frontier) (actual : Identity) (expected frontierSha : Text) (others : List Text) :
    Bool :=
  (match h.moment actual.createdAt, h.moment frontier.preparedAt with
    | some created, some prepared => decide (created.aware = prepared.aware ∧ prepared.seconds ≤ created.seconds)
    | _, _ => false) &&
  (actual.firstUser.any fun first => decide (handoffToken frontier.nonce frontierSha <:+: first)) &&
  actual.firstUser = some expected && actual.userCount = 1 && actual.lane = frontier.lane &&
  actual.sessionId.all fun s => !others.contains s

/-- The journal that names the fresh session. -/
def intended (state : Journal H) (session : Text) : Journal H :=
  match state.nativeReceipt with
  | none => { state with pendingBootstrap := some session }
  | some accepted =>
    { state with
      nativeReceiptHistory := some (state.nativeReceiptHistory.getD [] ++ [(accepted, state.nativeAcceptance)])
      nativeReceipt := none
      nativeAcceptance := none
      pendingBootstrap := some session }

/-- The journal after a bootstrap: an automatic one is provisional, a manual one begins an epoch. -/
def booted (state : Journal H) (automatic : Bool) (session : Text) (last : Bootstrap) : Journal H :=
  if automatic then
    { state with
      startupRequired := some true
      startupReceipt := some none
      admission := none
      awaitingNativeReceipt := some true
      lastBootstrap := some last }
  else
    { state with
      admission := none
      awaitingNativeReceipt := some false
      sessionId := session
      epoch := state.epoch + 1
      epochStart := state.completed.length
      reset := none
      pendingBootstrap := none
      resetRequested := some false
      lastBootstrap := some last }

/-- The evidence of `bootstrap`: the package, the fresh session, the prompt, and the reads. -/
structure Fresh where
  reset : Reset
  frontier : Frontier
  session : Text
  expected : Text
  reads : Reads

/-- `bootstrap`, up to its first save. -/
def bootstrapEvidence (h : Host H) (state : Journal H) (transcript : Text) (began : ℚ) (deadline : Option ℚ) :
    LM H (Fresh × Control × Row) := do
  let (reset, frontier) ← clearPackage state.reset
  let actual ← identity transcript
  if !isLane state actual then refuse "fresh model/effort mismatch"
  else
    match actual.sessionId with
    | none => refuse "native context must have a fresh identity"
    | some session =>
      if session = [] || session = reset.previousSession || some session = reset.inheritedSession.join then
        refuse "native context must have a fresh identity"
      else do
        let (expected, frontierSha) ← fetch (.prompt reset.directory) fun
          | .prompt expected sha => some (expected, sha)
          | _ => none
        let (control, _) ← readControl
        if !isFresh h frontier actual expected frontierSha control.others then
          refuse "actual fresh handoff-bound native lane evidence required"
        else if state.pendingBootstrap.any (· ≠ session) then
          refuse "bootstrap recovery identity differs from durable intent"
        else do
          if !frontier.automatic && state.pendingBootstrap.isNone then do
            let (_, old) ← readControl
            readyClear old.transcript
          let (_, reads) ← readLit state.goalTicket
          let now ← clock
          let late ← isLate deadline
          if now - began > 120 || late then refuse "bootstrap deadline exceeded; remains held"
          else do
            let (control, buford) ← readControl
            if buford.sessionId ≠ state.sessionId && buford.sessionId ≠ session then
              refuse "Buford routing changed by another owner"
            else if state.nativeReceipt.isSome && state.nativeAcceptance.isNone then throw .key
            else pure (⟨reset, frontier, session, expected, reads⟩, control, buford)

/-- `bootstrap`. -/
def bootstrap (h : Host H) (sha256 : Text → Text) (transcript : Text) (deadline : Option ℚ) : LM H Unit := do
  let began ← clock
  lease do
    let state ← readJournal
    let (fresh, control, buford) ← bootstrapEvidence h state transcript began deadline
    let state := intended state fresh.session
    save state
    controlSaver.save (published (control.rerouted buford.sessionId fresh.session transcript))
    let now ← clock
    save (booted state fresh.frontier.automatic fresh.session
      ⟨now - began, fresh.reads, fresh.reset.previousSession, fresh.reset.manifest, fresh.frontier.nonce, transcript,
        sha256 fresh.expected⟩)
    let _ ← status
    pure ()

/-- The receipt is the provisional one of the pending bootstrap. -/
def isAcceptable (state : Journal H) (proof : Proof) : Bool :=
  proof.verified = .bool false && proof.status = .str "provisional" && proof.sessionId = state.pendingBootstrap &&
  (state.lastBootstrap.any fun b => proof.manifest = b.manifest && proof.nonce = b.nonce) && proof.seconds ≤ 120 &&
  proof.epoch = state.epoch + 1 && state.reset.any fun r => r.manifest = proof.manifest

/-- The journal after an acknowledgement. -/
def acknowledged (state : Journal H) (session : Text) (epoch : ℤ) (bound : Binding) (acceptance : Acceptance) : Journal H :=
  { state with
    sessionId := session
    epoch := epoch
    epochStart := state.completed.length
    reset := none
    resetRequested := some false
    pendingBootstrap := none
    nativeReceipt := some bound
    pendingNativeReceipt := some none
    nativeAcceptance := some acceptance
    awaitingNativeReceipt := some false
    maintenanceOnly := some false }

/-- `acknowledge_native_reset`. A receipt without a session, while none is pending, names no session. -/
def acknowledge (receipt : Text) (deadline : Option ℚ) : LM H Unit :=
  lease do
    let state ← readJournal
    let proof ← fetch (.receipt receipt) fun
      | .proof p => some p
      | _ => none
    match state.pendingBootstrap with
    | none => refuse "native reset acceptance receipt mismatch"
    | some session =>
      if !isAcceptable state proof then refuse "native reset acceptance receipt mismatch"
      else if ← isLate deadline then refuse "native reset deadline exceeded before acceptance"
      else do
        let bound ← fileBinding receipt
        let state := { state with pendingNativeReceipt := some (some bound) }
        save state
        let acceptedAt ← clock
        if deadline.any (acceptedAt > ·) then refuse "native reset deadline exceeded before acceptance"
        else save (acknowledged state session proof.epoch bound ⟨acceptedAt, deadline⟩)

/-! ## Maintenance recovery -/

/-- The grant of a recovery, as far as the loop reads it. -/
structure Capability where
  kind : Option String
  sessionId : Text
  transcript : Text
  journal : Binding
  routing : Text
  maintenanceOnly : Bool
  userFrontier : ℕ × Option Text
  deriving DecidableEq

/-- `RecoveryTransfer`. -/
structure RecoveryTransfer (H : Type) where
  binding : Binding
  grant : Capability
  failed : Journal H

/-- The recoveries before this one. -/
def RecoveryTransfer.history (t : RecoveryTransfer H) : List Recovery :=
  t.failed.maintenanceRecoveryHistory.getD [] ++ t.failed.maintenanceRecovery.toList

/-- The journal after a recovery. -/
def RecoveryTransfer.recovered (t : RecoveryTransfer H) : Journal H :=
  { t.failed with
    sessionId := t.grant.sessionId
    reset := none
    resetRequested := some true
    admission := none
    maintenanceOnly := some true
    pendingMaintenance := some none
    pendingBootstrap := none
    pendingNativeReceipt := some none
    awaitingNativeReceipt := some false
    maintenanceRecoveryHistory := some t.history
    maintenanceRecovery := some ⟨t.binding, t.failed.reset⟩ }

/-- The recovery was made. -/
def RecoveryTransfer.isApplied (t : RecoveryTransfer H) (state : Journal H) : Bool :=
  state.maintenanceRecovery.any fun r => r.authority = t.binding

/-- The journal is the failed one, or the failed one with the intent of this recovery. -/
def recoverable (h : Host H) (t : RecoveryTransfer H) (state : Journal H) : LM H Unit := do
  if (state.pendingMaintenance.join).any (· ≠ t.binding) then refuse "maintenance recovery intent changed"
  else if t.isApplied state then
    if state.sessionId ≠ t.grant.sessionId then refuse "maintenance recovery identity changed" else pure ()
  else if state.pendingMaintenance.join = none then
    if state ≠ t.failed then refuse "failed journal changed before recovery"
    else do
      let binding ← bindJournal h
      if binding.sha256 ≠ t.grant.journal.sha256 || binding.bytes ≠ t.grant.journal.bytes then
        refuse "failed journal changed before recovery"
      else pure ()
  else if state ≠ { t.failed with pendingMaintenance := some (some t.binding) } then
    refuse "failed journal changed after recovery intent"
  else pure ()

/-- The routing that a recovery leads to, from the frozen one. -/
def RecoveryTransfer.expected (t : RecoveryTransfer H) (frozen : Control) (buford : Row) : Control :=
  frozen.rerouted buford.sessionId t.grant.sessionId t.grant.transcript

/-- The transcript is at the frontier of the human who granted the recovery. -/
def RecoveryTransfer.isHuman (t : RecoveryTransfer H) (control : Control) (actual : Identity) : Bool :=
  t.grant.maintenanceOnly && actual.sessionId = some t.grant.sessionId && actual.model = some "gpt-6.1-sol".toList &&
  actual.effort = some "high".toList && !control.others.contains t.grant.sessionId &&
  (actual.userCount, actual.lastUserHash) = t.grant.userFrontier

/-- `recover_maintenance`. -/
def recoverMaintenance (h : Host H) (t : RecoveryTransfer H) : LM H Unit :=
  lease do
    let state ← readJournal
    let (control, _) ← readControl
    recoverable h t state
    let frozen ← fetch (.frozen t.grant.routing) fun
      | .frozen c => some c
      | _ => none
    match frozen.bufords with
    | [] => throw .fault
    | buford :: _ =>
      if buford.sessionId ≠ t.failed.sessionId && some buford.sessionId ≠ t.failed.pendingBootstrap then
        refuse "failed Buford routing mismatch"
      else
        let expected := t.expected frozen buford
        if (control.repairPaused ≠ some true && t.grant.kind ≠ some "expired-waiting-title-current-authority") ||
            (control ≠ frozen && control ≠ expected) then
          refuse "maintenance recovery requires unchanged paused protected routing"
        else do
          let actual ← identity t.grant.transcript
          if !t.isHuman control actual then refuse "actual human frontier/Sol/high recovery identity mismatch"
          else if t.isApplied state then
            if control ≠ expected then refuse "recovered Buford routing changed"
            else do
              let _ ← status
              pure ()
          else do
            let _ ← readLit state.goalTicket
            if state.pendingMaintenance.join = none then
              save { state with pendingMaintenance := some (some t.binding) }
            controlSaver.save (published expected)
            save t.recovered
            let _ ← status
            pure ()

/-! ## The machine -/

/-- The operations, and a change of the routing by another writer. -/
inductive Method (H : Type) where
  | initializeJournal (session model effort handoff goal : Text)
  | begin (b : Begin)
  | requestReset (evidence : Json)
  | finishStartup
  | check (admission : Text) (operation : String) (tickets : List Text)
  | transition (admission : Text) (operation : String) (ticket : Text)
  | complete (ticket evidence : Text) (closeout : Option Text)
  | review (ticket product arc : Text) (impacts : List Impact) (unit : Option Text)
  | reserve (record : Json)
  | release (key : Text)
  | prepareClear (p : Prepare)
  | bootstrap (transcript : Text) (deadline : Option ℚ)
  | acknowledge (receipt : Text) (deadline : Option ℚ)
  | recoverMaintenance (t : RecoveryTransfer H)
  | route (control : Slot (Written Control))

/-- What an operation returns. -/
inductive Value where
  | none
  | began (b : Began)
  | requests (requests : List Json)
  | startup (s : Startup)
  | checked (c : Checked)
  | completed (epochCompleted : ℤ)
  | reviewed (r : Review)
  | reserved (key : Text)
  | sealed (r : Reset)
  deriving DecidableEq

/-- The body of each operation. -/
def body (h : Host H) (sha256 : Text → Text) : Method H → LM H Value
  | .initializeJournal session model effort handoff goal => (fun _ => .none) <$> initializeJournal session model effort handoff goal
  | .begin b => .began <$> begin h b
  | .requestReset evidence => .requests <$> requestReset evidence
  | .finishStartup => .startup <$> finishStartup h
  | .check admission operation tickets => .checked <$> check h admission operation tickets
  | .transition admission operation ticket => (fun _ => .none) <$> transition h admission operation ticket
  | .complete ticket evidence closeout => .completed <$> complete ticket evidence closeout
  | .review ticket product arc impacts unit => .reviewed <$> review ticket product arc impacts unit
  | .reserve record => .reserved <$> reserve h record
  | .release key => (fun _ => .none) <$> release key
  | .prepareClear p => .sealed <$> prepareClear p
  | .bootstrap transcript deadline => (fun _ => .none) <$> bootstrap h sha256 transcript deadline
  | .acknowledge receipt deadline => (fun _ => .none) <$> acknowledge receipt deadline
  | .recoverMaintenance t => (fun _ => .none) <$> recoverMaintenance h t
  | .route control => (fun _ => .none) <$> Prog.write fun s => { s with control := control }

/-- **The machine.** A crash frees the lease. -/
def loop (h : Host H) (sha256 : Text → Text) : Machine (Shelf H) (Op H) Answer Exc (Method H) Value where
  body := body h sha256
  enter _ _ _ := true
  crash s := some { s with held := false }

/-- A shelf whose lease is free. -/
def shelf (journal : Slot (Written (Journal H))) (control : Slot (Written Control)) : Shelf H := ⟨journal, false, control⟩

end Loop

end Arhugula
