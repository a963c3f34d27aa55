import Arhugula.Spec.Ownership
import Arhugula.Spec.ReviewBudget

/-!
# The journal of the loop (`ops/orchestration/loop.py`)

The journal, the routing, and the records in them. A key that older journals do not have is an `Option`; where
it may be there and be `None`, the value is one too. The order of the keys of an object is not observed.

The type of a fingerprint is a parameter: fingerprints are compared, and kept.
-/

namespace Arhugula

namespace Loop

open Strings ReviewBudget

/-! ## Objects -/

/-- A dict. -/
abbrev Dict (β : Type) := List (Text × β)

namespace Dict

variable {β : Type}

/-- `d.get(key)`. -/
def find (d : Dict β) (key : Text) : Option β := (List.find? (fun m => m.1 = key) d).map Prod.snd

/-- `d[key] = value`. -/
def put (d : Dict β) (key : Text) (value : β) : Dict β :=
  if d.any (fun m => m.1 = key) then d.map fun m => if m.1 = key then (key, value) else m else d ++ [(key, value)]

/-- The keys. -/
def keys (d : Dict β) : List Text := d.map Prod.fst

end Dict

/-- A JSON file: its value, and how it is spelt where `atomic_json` did not write it. -/
structure Written (D : Type) where
  value : D
  spelling : Text
  deriving DecidableEq

/-- What `atomic_json` writes. -/
def published {D : Type} (value : D) : Written D := ⟨value, []⟩

/-- `file_binding`. -/
structure Binding where
  path : Text
  sha256 : Text
  bytes : ℕ
  deriving DecidableEq

/-- The receipts of one read of LIT. -/
structure Reads where
  exported : Text
  shown : Text
  deriving DecidableEq

/-! ## The journal -/

/-- `state["admission"]`. -/
structure Grant (H : Type) where
  id : Text
  ticket : Text
  fingerprint : H
  control : Text
  maintenance : Bool
  reads : Reads
  iteration : ℕ
  unit : Option Text
  reservation : Json
  operations : List String
  blockers : List Text
  issuer : Text
  release : Option Text
  deriving DecidableEq

/-- What `complete` adds for a ticket of the trial: the record, the worktrees and what is pending. -/
structure Closed where
  closeout : Binding
  worktrees : Dict Text
  pending : List Text
  deriving DecidableEq

/-- `state["completed"][ticket]`. -/
structure Completion where
  evidence : Binding
  reads : Reads
  epoch : ℤ
  closed : Option Closed
  deriving DecidableEq

/-- The binding of the code that is reviewed. -/
structure CodeBinding where
  headSha : Text
  diffDigest : Text
  deriving DecidableEq

/-- `landing_transfer`. -/
structure Transfer where
  reviewedHead : Text
  finalHead : Text
  producer : Binding
  deriving DecidableEq

/-- `state["reviews"][key]`. -/
structure Review where
  evaluation : Evaluation
  binding : CodeBinding
  arc : Text
  product : Text
  gate : Binding
  log : Binding
  reads : Reads
  landingTransfer : Option Transfer
  unit : Option Text
  deriving DecidableEq

/-- `state["reset"]`. -/
structure Reset where
  directory : Text
  manifest : Binding
  previousSession : Text
  inheritedSession : Option (Option Text)
  deriving DecidableEq

/-- `state["startup_receipt"]`. -/
structure Startup where
  report : Json
  epoch : ℤ
  routing : Binding
  deriving DecidableEq

/-- `state["last_bootstrap"]`. -/
structure Bootstrap where
  seconds : ℚ
  reads : Reads
  previousSession : Text
  manifest : Binding
  nonce : Text
  transcript : Text
  receivedPrompt : Text
  deriving DecidableEq

/-- `state["native_acceptance"]`. -/
structure Acceptance where
  acceptedAt : ℚ
  deadline : Option ℚ
  deriving DecidableEq

/-- `state["maintenance_recovery"]`. -/
structure Recovery where
  authority : Binding
  failedReset : Option Reset
  deriving DecidableEq

/-- **The journal.** -/
structure Journal (H : Type) where
  version : ℤ
  sessionId : Text
  model : Text
  effort : Text
  epoch : ℤ
  epochStart : ℤ
  completed : Dict Completion
  reviews : Dict Review
  quarantine : List Text
  unitQuarantine : List Text
  admissions : Dict (Grant H)
  arcUnits : Dict Text
  admission : Option (Grant H)
  reservations : Option (List Json)
  iteration : ℕ
  goalTicket : Text
  handoff : Binding
  reset : Option Reset
  pendingBootstrap : Option Text
  resetRequested : Option Bool
  resetRequests : Option (List Json)
  awaitingNativeReceipt : Option Bool
  startupRequired : Option Bool
  startupReceipt : Option (Option Startup)
  startupRejection : Option Json
  startupWorkflowAdmission : Option Json
  nativeReceipt : Option Binding
  nativeAcceptance : Option Acceptance
  nativeReceiptHistory : Option (List (Binding × Option Acceptance))
  pendingNativeReceipt : Option (Option Binding)
  lastBootstrap : Option Bootstrap
  ceiling : Option Json
  maintenanceOnly : Option Bool
  maintenanceRecovery : Option Recovery
  maintenanceRecoveryHistory : Option (List Recovery)
  pendingMaintenance : Option (Option Binding)
  deriving DecidableEq

namespace Journal

variable {H : Type} (j : Journal H)

/-- `state["reservations"]`, once it was read. -/
def active : List Json := j.reservations.getD []

/-- The completions of the epoch. -/
def epochCompleted : ℤ := j.completed.length - j.epochStart

/-- `state.get("awaiting_native_receipt")`. -/
def isAwaiting : Bool := j.awaitingNativeReceipt.getD false

/-- `state.get("maintenance_only")`. -/
def isMaintenanceOnly : Bool := j.maintenanceOnly.getD false

/-- `state.get("reset_requested")`. -/
def isResetRequested : Bool := j.resetRequested.getD false

/-- `read_journal`, of what the file holds. -/
def opened : Option (Journal H) := if j.version = 2 then some { j with reservations := some j.active } else none

end Journal

/-- The journal that `initialize` saves. -/
def initial {H : Type} (session model effort : Text) (handoff : Binding) (goal : Text) : Journal H where
  version := 2
  sessionId := session
  model := model
  effort := effort
  epoch := 0
  epochStart := 0
  completed := []
  reviews := []
  quarantine := []
  unitQuarantine := []
  admissions := []
  arcUnits := []
  admission := none
  reservations := some []
  iteration := 0
  goalTicket := goal
  handoff := handoff
  reset := none
  pendingBootstrap := none
  resetRequested := none
  resetRequests := none
  awaitingNativeReceipt := none
  startupRequired := none
  startupReceipt := none
  startupRejection := none
  startupWorkflowAdmission := none
  nativeReceipt := none
  nativeAcceptance := none
  nativeReceiptHistory := none
  pendingNativeReceipt := none
  lastBootstrap := none
  ceiling := none
  maintenanceOnly := none
  maintenanceRecovery := none
  maintenanceRecoveryHistory := none
  pendingMaintenance := none

/-! ## The routing -/

/-- A row of the routing. -/
structure Row where
  role : String
  sessionId : Text
  transcript : Text
  fields : Mapping Json
  deriving DecidableEq

/-- The routing. Its pause is `none` where it is no `bool`. -/
structure Control where
  repairPaused : Option Bool
  sessions : List Row
  notificationThread : Option Text
  fields : Mapping Json
  deriving DecidableEq

/-- The rows of the lead. -/
def Control.bufords (c : Control) : List Row := c.sessions.filter (·.role = "buford")

/-- The sessions of the other roles. -/
def Control.others (c : Control) : List Text := (c.sessions.filter (·.role ≠ "buford")).map Row.sessionId

/-- The routing, with the lead at another session. -/
def Control.rerouted (c : Control) (previous session transcript : Text) : Control where
  repairPaused := c.repairPaused
  sessions := reroute c.sessions
  notificationThread := if c.notificationThread = some previous then some session else c.notificationThread
  fields := c.fields
where
  /-- The first row of the lead changes. -/
  reroute : List Row → List Row
    | [] => []
    | r :: rows =>
      if r.role = "buford" then { r with sessionId := session, transcript := transcript } :: rows
      else r :: reroute rows

end Loop

end Arhugula
