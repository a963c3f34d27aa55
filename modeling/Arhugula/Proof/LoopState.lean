import Arhugula.Durable.Transactions
import Arhugula.Spec.LoopMethods

/-!
# What the operations of the loop save

`Saves` lists every change of the journal, under the operation that makes it and with what that operation read
before; `journalLaw` is the law of these changes. `At` is the assertion that stands while an operation runs:
the journal it read, the journal now, and the facts it saw.
-/

namespace Arhugula

namespace Loop

open Reentrant Durable Strings Lit ReviewBudget

variable {H : Type}

/-- A log entry of the loop. -/
abbrev LEntry (H : Type) := Entry (Shelf H) (Op H) Answer Exc (Method H) Value

/-- A world of the loop. -/
abbrev LWorld (H : Type) := World (Shelf H) (Op H) Answer Exc (Method H) Value

/-- A configuration of the loop. -/
abbrev LConfig (H : Type) := Config (Shelf H) (Op H) Answer Exc (Method H) Value

/-- What an activation of the loop does. -/
abbrev LAct (H : Type) := Act (Op H) Answer Exc (Method H) Value

/-- What the path of the journal holds. -/
abbrev JSlot (H : Type) := Slot (Written (Journal H))

/-! ## What an operation saw -/

/-- The path holds a journal that is read as `J`. -/
def Opens (s : JSlot H) (J : Journal H) : Prop := ∃ f, s = .holding f ∧ f.value.opened = some J

/-- An act, and what the shelf was then. -/
def Saw (t : List (LEntry H)) (x : LAct H) (q : Shelf H → Prop) : Prop := ∃ e ∈ t, e.act = x ∧ q e.st

/-- The activation is of this operation, and of no other. -/
structure Runs (t : List (LEntry H)) (meth : Method H) : Prop where
  invoked : Saw t (.invoke meth) fun _ => True
  only : ∀ e ∈ t, ∀ m, e.act = .invoke m → m = meth

/-- The operation read this journal, and no other. -/
structure HasRead (t : List (LEntry H)) (J : Journal H) : Prop where
  read : Saw t (.reply .journal .done) fun s => Opens s.journal J
  only : ∀ e ∈ t, e.act = .reply .journal .done → Opens e.st.journal J

/-- The operation read this export. -/
def Exported (t : List (LEntry H)) (ticket : Text) (data : Export) (reads : Reads) : Prop :=
  Saw t (.reply (.export ticket) (.exported data reads)) fun _ => True

/-- The routing, and the row of the lead. -/
def IsRouting (control : Control) (lead : Row) (s : Shelf H) : Prop :=
  ∃ f, s.control = .holding f ∧ f.value = control ∧ control.bufords = [lead]

/-- The operation read this routing. -/
def Routed (t : List (LEntry H)) (control : Control) (lead : Row) : Prop :=
  Saw t (.reply .control .done) (IsRouting control lead)

/-- The operation read this binding of the routing. -/
def Bound (h : Host H) (t : List (LEntry H)) (b : Binding) : Prop :=
  Saw t (.reply .bindControl .done) fun s => ∃ f, s.control = .holding f ∧ h.control f = b

/-- The operation read this frontier of a sealed package. -/
def Packaged (t : List (LEntry H)) (reset : Reset) (frontier : Frontier) : Prop :=
  Saw t (.reply (.package reset) (.frontier frontier)) fun _ => True

/-! ## What an operation saves -/

/-- **What `begin` found.** -/
structure Admits (h : Host H) (b : Begin) (J : Journal H) (control : Control) (lead : Row) (data : Export)
    (reservation : Json) : Prop where
  awaiting : J.isAwaiting = false
  started : J.startupRequired = some true → ∃ r, J.startupReceipt.join = some r ∧ r.epoch = J.epoch
  maintenance : J.isMaintenanceOnly = true → b.maintenance = true
  reconciled : unreconciled J data = []
  unpaused : control.repairPaused = some true → b.maintenance = true
  lead : lead.sessionId = J.sessionId
  due : isResetDue J b.maintenance = false
  headroom : b.headroom = true
  free : b.ticket ∉ excludedScope data J.quarantine
  unit : isUnitHeld J b.ticket b.unit = false
  cleared : b.clearance.admits h data b.ticket (openDependencies data b.ticket) = .ok ()
  writer : recordedWriter J b.ticket = .ok reservation
  active : (data.issues.find? (·.id = b.ticket)).any Issue.isActive = true

/-- The grant stands for the operation and the tickets, and LIT and the routing are as it recorded them. -/
structure Stands (h : Host H) (t : List (LEntry H)) (J : Journal H) (admission : Text) (operation : String)
    (tickets : List Text) (grant : Grant H) (data : Export) : Prop where
  clear : clear J admission operation tickets = .ok grant
  exported : ∃ reads, Exported t grant.ticket data reads
  fingerprint : fingerprint h.digest data grant.ticket J.goalTicket = grant.fingerprint
  bound : ∃ b, Bound h t b ∧ b.sha256 = grant.control

/-- **The changes of the journal.** -/
inductive Saves (h : Host H) (t : List (LEntry H)) : Method H → Journal H → Journal H → Prop
  | rejected {meth J} (report : Json) (hm : (∃ b, meth = .begin b) ∨ meth = .finishStartup) :
      Saves h t meth J { J with startupRejection := some report, resetRequested := some true }
  | exhausted {b J} (r : Option Json) :
      Saves h t (.begin b) J { J with startupWorkflowAdmission := r, resetRequested := some true }
  | begun {b J} (r : Option Json) (control : Control) (lead : Row) (data : Export) (reads : Reads) (binding : Binding)
      (id issuer : Text) (reservation : Json) (hread : HasRead t J) (hrouted : Routed t control lead)
      (hexported : Exported t b.ticket data reads) (hbound : Bound h t binding)
      (hadmits : Admits h b J control lead data reservation) :
      Saves h t (.begin b) J (b.admitted { J with startupWorkflowAdmission := r }
        (b.grant h J data reads binding.sha256 id issuer reservation))
  | requested {evidence J} (requests : List Json) :
      Saves h t (.requestReset evidence) J { J with resetRequests := some requests, resetRequested := some true }
  | measured {J} (receipt : Startup) :
      Saves h t .finishStartup J { J with startupReceipt := some (some receipt) }
  | moved {admission operation ticket J} (grant : Grant H) (before after : Export) (reads : Reads)
      (hread : HasRead t J) (hstands : Stands h t J admission operation [ticket] grant before)
      (hexported : Exported t ticket after reads)
      (hbeside : fingerprint h.digest (beside after ticket (before.comments.map Lit.Comment.id)) ticket J.goalTicket =
        fingerprint h.digest (beside before ticket (before.comments.map Lit.Comment.id)) ticket J.goalTicket) :
      Saves h t (.transition admission operation ticket) J { J with
        admission := some { grant with fingerprint := fingerprint h.digest after ticket J.goalTicket } }
  | completed {ticket evidence closeout J} (record : Completion) (hnew : J.completed.find ticket = none) :
      Saves h t (.complete ticket evidence closeout) J (completed J ticket record)
  | reviewed {ticket product arc impacts unit J} (result : Review) (g : Gate) (head : Text) (next : Option Text)
      (harc : (J.arcUnits.find arc).getD (unitKey ticket unit) = unitKey ticket unit)
      (hresult : result.arc = arc)
      (hevaluate : evaluate g arc head (((J.reviews.find (unitKey ticket unit)).map fun r => r.evaluation.observed).getD [])
        impacts next = .ok result.evaluation) :
      Saves h t (.review ticket product arc impacts unit) J (reviewed J ticket (unitKey ticket unit) unit result)
  | reserved {record J} (candidate : Ownership.Reservation) (active : List Ownership.Reservation)
      (hparse : parseReservation h record = .ok candidate) (hactive : reservations h J = .ok active)
      (hfree : Ownership.conflicts active candidate = []) :
      Saves h t (.reserve record) J { J with reservations := some (J.active ++ [record]) }
  | released {key J} :
      Saves h t (.release key) J { J with reservations := some (J.active.filter (!isOf key ·)) }
  | sealed {p J} (manifest : Binding) : Saves h t (.prepareClear p) J (p.sealed J manifest)
  | intended {transcript deadline J} (session : Text) (hreset : J.reset.isSome = true)
      (hpending : J.pendingBootstrap = none ∨ J.pendingBootstrap = some session) :
      Saves h t (.bootstrap transcript deadline) J (intended J session)
  | booted {transcript deadline J} (session : Text) (last : Bootstrap) (reset : Reset) (frontier : Frontier)
      (hreset : J.reset = some reset) (hpending : J.pendingBootstrap = some session)
      (hpackage : Packaged t reset frontier) :
      Saves h t (.bootstrap transcript deadline) J (booted J frontier.automatic session last)
  | receipted {receipt deadline J} (bound : Binding) :
      Saves h t (.acknowledge receipt deadline) J { J with pendingNativeReceipt := some (some bound) }
  | acknowledged {receipt deadline J} (session : Text) (bound : Binding) (acceptance : Acceptance)
      (hpending : J.pendingBootstrap = some session) (hreset : J.reset.isSome = true) :
      Saves h t (.acknowledge receipt deadline) J (acknowledged J session (J.epoch + 1) bound acceptance)
  | recovering {tr : RecoveryTransfer H} {J} (hpending : J.pendingMaintenance.join = none) :
      Saves h t (.recoverMaintenance tr) J { J with pendingMaintenance := some (some tr.binding) }
  | recovered {tr : RecoveryTransfer H} {J} (hfailed : J = { tr.failed with pendingMaintenance := some (some tr.binding) }) :
      Saves h t (.recoverMaintenance tr) J tr.recovered

/-- **A change of what the path holds.** -/
inductive Step (h : Host H) (t : List (LEntry H)) : JSlot H → JSlot H → Prop
  | saved {f : Written (Journal H)} {J J' : Journal H} {meth : Method H} (hopened : f.value.opened = some J)
      (hruns : Runs t meth) (hsaves : Saves h t meth J J')
      (hreplaced : Saw t (.reply (.replace (published J')) .done) fun _ => True) :
      Step h t (.holding f) (.holding (published J'))
  | created (session model effort goal : Text) (handoff : Binding) :
      Step h t .absent (.holding (published (initial session model effort handoff goal)))
  | lost {f : Written (Journal H)} : Step h t (.holding f) .uncertain

/-! ## What an operation owes -/

/-- What `begin` owes to the admission that it returns. -/
def Issued (h : Host H) (t : List (LEntry H)) (b : Begin) (r : Began) : Prop :=
  ∃ J control lead data reads reservation, HasRead t J ∧ Routed t control lead ∧ Exported t b.ticket data reads ∧
    Admits h b J control lead data reservation ∧ r.ticket = b.ticket

/-- What `check` and `transition` owe. -/
def Cleared (h : Host H) (t : List (LEntry H)) (admission : Text) (operation : String) (tickets : List Text) : Prop :=
  ∃ J grant data, HasRead t J ∧ Stands h t J admission operation tickets grant data

/-- **What an operation owes to what it returns.** -/
structure Owes (h : Host H) (t : List (LEntry H)) (v : Value) : Prop where
  issued : ∀ b r, Runs t (.begin b) → v = .began r → Issued h t b r
  checked : ∀ admission operation tickets, Runs t (.check admission operation tickets) →
    Cleared h t admission operation tickets
  moved : ∀ admission operation ticket, Runs t (.transition admission operation ticket) →
    Cleared h t admission operation [ticket]

/-- **The law of the journal.** -/
def journalLaw (h : Host H) : Law (Shelf H) (Op H) Answer Exc (Method H) Value (JSlot H) where
  lease := leased
  view s := s.journal
  guarded op := ∃ v, op = .replace v
  step := Step h
  owes := Owes h
  view_put _ _ := rfl
  held_put _ _ := rfl

end Loop

end Arhugula
