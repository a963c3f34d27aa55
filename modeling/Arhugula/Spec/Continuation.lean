import Arhugula.Reentrant.Machine
import Arhugula.Spec.Backlog
import Arhugula.Spec.Ownership

/-!
# The continuation (`ops/orchestration/continuation.py`, `ops/orchestration/handoff.py`, `ops/orchestration/runner.py`)

`continue_work` takes tickets one after the other: it selects one, claims it, has a worker implement it, verifies it,
commits it and closes it. Between these it writes a handoff, which a later run is given; `resolve_stop` is what an
operator does about a handoff that is stopped.

The adapter, the worker, the clock and the two halves of the replacement of the handoff are callbacks: each may raise,
and the process may be killed while one is under way. A run holds the lease, so no other call is made meanwhile. What
`json.dumps` makes of a context is known by its size.
-/

namespace Arhugula

namespace Continuation

open Strings Lit Backlog Reentrant

/-! ## Handoffs -/

/-- What an operator said of a stop. -/
structure Resolution where
  previousStop : Text
  evidence : Text
  time : Text
  deriving DecidableEq

/-- A handoff. -/
structure Record where
  activeTicket : Text
  parentEpic : Text
  branch : Text
  worktree : Text
  model : Text
  effort : Text
  role : Text
  goal : Text
  completedWork : List Text
  verification : List Text
  risks : List Text
  nextTicket : Option Text
  stopReason : Option Text
  workerStop : Bool
  recoveryRequired : Bool
  resolutions : Option (List Resolution)
  deriving DecidableEq

/-- `not text.strip()`. -/
def isBlank (t : Text) : Bool := strip t = []

/-- `interrupted`. -/
def interrupted : Text := "interrupted".toList

/-- The roles of a handoff. -/
def roles : List String := ["implement", "review", "validate", "explore"]

namespace Record

/-- The fields that are texts. -/
def texts (r : Record) : List (String × Text) := [
  ("active_ticket", r.activeTicket), ("parent_epic", r.parentEpic), ("branch", r.branch), ("worktree", r.worktree),
  ("model", r.model), ("effort", r.effort), ("role", r.role), ("goal", r.goal)]

/-- The fields that are lists of texts. -/
def lists (r : Record) : List (String × List Text) := [
  ("completed_work", r.completedWork), ("verification", r.verification), ("risks", r.risks)]

/-- The fields that may be `None`. -/
def options (r : Record) : List (String × Option Text) := [("next_ticket", r.nextTicket), ("stop_reason", r.stopReason)]

/-- `validate`: the text of its error, if there is one. -/
def fault (r : Record) : Option Text :=
  match r.texts.find? fun m => isBlank m.2 || m.2.contains '\x00' with
  | some m => some ("missing/invalid " ++ m.1).toList
  | none =>
  match r.lists.find? fun m => m.2.any isBlank with
  | some m => some ("invalid " ++ m.1).toList
  | none =>
  match r.options.find? fun m => m.2.any isBlank with
  | some m => some ("invalid " ++ m.1).toList
  | none =>
    if r.worktree.head? ≠ some '/' then some "worktree must be absolute".toList
    else if !([ModelClass.terra, ModelClass.astra].any fun c => c.model.toList = r.model && c.effort.toList = r.effort) then
      some "invalid model/effort pair".toList
    else if !roles.any fun role => role.toList = r.role then some "invalid role".toList
    else none

end Record

/-! ## Callbacks -/

/-- What is raised: a `Stop`, or another exception, with its type and text. -/
inductive Exc where
  | stop (text : Text)
  | error (type text : Text)
  deriving DecidableEq

/-- A `Stop`. -/
def Exc.stopped (s : String) : Exc := .stop s.toList

/-- A `ValueError`. -/
def Exc.value (text : Text) : Exc := .error "ValueError".toList text

/-- What `inspect` returns. -/
structure Checkout where
  branch : Text
  head : Text
  worktree : Text
  deriving DecidableEq

/-- What the worker is given. Its stop reason is `None`. -/
structure Context where
  record : Record
  ticketBody : Text
  epicBody : Text
  historyReference : Option Text
  historyCounts : Option (ℕ × ℕ × ℕ)
  deriving DecidableEq

/-- The adapter, the worker, the clock, and the handoff: the new one is made ready and takes the place of the old one,
then the directory is synced. -/
inductive Op where
  | clock
  | next
  | export
  | inspect (head : Option Text) (allowed : List Text)
  | start (ticket : Text)
  | show (ticket : Text)
  | assertClaim (ticket : Text)
  | worker (context : Context)
  | verify
  | comment (ticket body : Text)
  | commit (ticket : Text) (files : List Text)
  | done (ticket : Text)
  | replace (record : Record)
  | sync
  deriving DecidableEq

/-- What a callback does. -/
inductive Answer where
  | raised (e : Exc)
  | none
  | text (t : Text)
  | time (t : ℚ)
  | exported (version : Option Json) (data : Export)
  | checkout (c : Checkout)
  | verdict (passed : Bool) (evidence : Text)
  | receipt (j : Json)
  deriving DecidableEq

/-- The handoff that is on disk, and the one that the run is about. -/
structure State where
  disk : Option Record
  record : Record
  deriving DecidableEq

/-- A body of the continuation. -/
abbrev CM (α : Type) := Prog State Op Answer Exc α

/-- A callback, what it raises raised. -/
def ask (op : Op) : CM Answer := do
  match ← Prog.ask op with
  | .raised e => throw e
  | a => pure a

/-- An answer of another kind. -/
def unexpected {α : Type} : CM α := throw (.error "TypeError".toList [])

def askText (op : Op) : CM Text := do
  match ← ask op with
  | .text t => pure t
  | _ => unexpected

def askTime : CM ℚ := do
  match ← ask .clock with
  | .time t => pure t
  | _ => unexpected

def askExport : CM (Option Json × Export) := do
  match ← ask .export with
  | .exported version data => pure (version, data)
  | _ => unexpected

def askCheckout (head : Option Text) (allowed : List Text) : CM Checkout := do
  match ← ask (.inspect head allowed) with
  | .checkout c => pure c
  | _ => unexpected

/-- A callback whose answer nothing reads. -/
def perform (op : Op) : CM Unit := do
  let _ ← ask op
  pure ()

/-- `record.update`. -/
def amend (f : Record → Record) : CM Unit := Prog.write fun s => { s with record := f s.record }

/-- `write_handoff`. -/
def writeHandoff (r : Record) : CM Unit := do
  match r.fault with
  | some text => throw (.value text)
  | none => do
    perform (.replace r)
    Prog.write fun s => { s with disk := some r }
    perform .sync

/-- `write_handoff(handoff_path, record)`. -/
def persist : CM Unit := do
  let r ← Prog.read (·.record)
  writeHandoff r

/-! ## Selection -/

/-- What is refused. -/
def Refusal.exc : Refusal → Exc
  | .value text => .value text.toList
  | .stop text => .stop text.toList

/-- `select_ticket(adapter.export(), next_output)`. -/
def select (output : Text) : CM (Option (Issue × List Issue)) := do
  let (version, data) ← askExport
  match selectTicket version data output with
  | .ok selected => pure selected
  | .error e => throw (Refusal.exc e)

/-- What a run is given of its surroundings. -/
structure Env where
  glyphs : Glyphs
  size : Context → ℕ
  cwd : Text
  path : Text

/-- The members that make the scope of a ticket. -/
def scopeOf (i : Issue) : List (Option Json) := ["title", "description", "issue_type"].map i.fields.get

/-- What of an assignment may not change. -/
def Route.assigned (r : Route) : Option String × Option String × Option String × Option String :=
  (r.model, r.effort, r.role, r.capability)

/-- `revalidate`. -/
def revalidate (e : Env) (original : Issue) (above : List Issue) (assignment : Route) : CM Unit := do
  match ← select (original.id ++ " active".toList) with
  | none => throw (.stopped "ticket-state-changed")
  | some (current, above') =>
    if current.status ≠ some (.str "in_progress") then throw (.stopped "ticket-state-changed")
    else
      let rerouted := route e.glyphs current above'
      match rerouted.stopReason with
      | some reason => throw (.stopped reason)
      | none =>
        if Route.assigned rerouted ≠ Route.assigned assignment then throw (.stopped "assignment-changed")
        else if above'.map Issue.id ≠ above.map Issue.id ∨ scopeOf current ≠ scopeOf original then
          throw (.stopped "ticket-scope-changed")
        else perform (.assertClaim original.id)

/-! ## Receipts -/

/-- `receipt.get(key)`. -/
def member (j : Json) (key : String) : Option Json :=
  match j with
  | .obj members => Mapping.get members key
  | _ => none

/-- `isinstance(receipt, dict)`. -/
def isDict : Json → Bool
  | .obj _ => true
  | _ => false

/-- A text that is not blank. -/
def spoken : Json → Option Text
  | .str s => if isBlank s.toList then none else some s.toList
  | _ => none

/-- The path of a file that a worker may name. -/
def isFile (name : Text) : Bool :=
  name ≠ [] && !name.contains '\x00' && !name.contains '\n' && name.head? ≠ some '/' &&
    !(Ownership.parts name).any ["..".toList, ".git".toList, ".worktrees".toList].contains && name.head? ≠ some '-' &&
    Ownership.parts name ≠ []

/-- A file of a receipt. -/
def file : Json → Option Text
  | .str s => if isFile s.toList then some s.toList else none
  | _ => none

/-- What is taken from a receipt: its files, its summary and its risks. -/
structure Receipt where
  files : List Text
  summary : Text
  risks : List Text
  deriving DecidableEq

/-- `receipt_files`, with the summary and the risks that it has checked. -/
def receiptFiles (j : Json) : Except Exc Receipt :=
  if !isDict j then .error (.stopped "invalid-worker-receipt")
  else if truthy (member j "stop_reason") then
    match member j "stop_reason" with
    | some (.str s) => .error (.stopped s)
    | _ => .error (.stopped "invalid-worker-receipt")
  else
    match member j "files", (member j "summary").bind spoken, member j "risks" with
    | some (.arr (name :: names)), some summary, some (.arr risks) =>
      match risks.mapM spoken, (name :: names).mapM file with
      | some risks, some files => .ok ⟨files, summary, risks⟩
      | _, _ => .error (.stopped "invalid-worker-receipt")
    | _, _, _ => .error (.stopped "invalid-worker-receipt")

/-- What a worker that stops says of it. -/
def stopRisks (j : Json) : List Text :=
  (((member j "summary").bind spoken).map ("Worker stop: ".toList ++ ·)).toList ++
    match member j "risks" with
    | some (.arr risks) => risks.filterMap spoken
    | _ => []

/-- `bounded_context`. -/
def boundedContext (e : Env) (context : Context) (ceiling : ℕ) : Except Exc Context :=
  if e.size context ≤ ceiling then .ok context
  else
    let r := context.record
    let compact : Context := { context with
      record := { r with
        completedWork := r.completedWork.drop (r.completedWork.length - 3)
        verification := r.verification.drop (r.verification.length - 2) }
      historyReference := some e.path
      historyCounts := some (r.completedWork.length, r.verification.length, r.risks.length) }
    if e.size compact ≤ ceiling then .ok compact
    else
      let bare : Context := { compact with
        record := { compact.record with completedWork := [], verification := [], risks := [] } }
      if e.size bare ≤ ceiling then .ok bare else .error (.stopped "context-limit")

/-! ## A ticket -/

/-- The bounds of a run. -/
structure Settings where
  goal : Text
  limit : ℕ
  seconds : ℚ
  contextBytes : ℕ
  deriving DecidableEq

/-- A ticket that was selected, and the commit that it was selected at. -/
structure Chosen where
  issue : Issue
  above : List Issue
  assignment : Route
  head : Text

/-- `continue_work`, up to the intent. -/
def choose (e : Env) (x : Settings) (prior : Option Record) (began : ℚ) (pending : Text) : CM Chosen := do
  let now ← askTime
  if x.seconds ≤ now - began then throw (.stopped "time-limit")
  else
    match ← select pending with
    | none => throw (.stopped "queue-empty")
    | some (issue, above) => do
      amend fun r => { r with
        activeTicket := issue.id
        nextTicket := some issue.id
        parentEpic := ((above.find? isEpic).map Issue.id).getD issue.id }
      let assignment := route e.glyphs issue above
      match assignment.stopReason with
      | some reason => throw (.stopped reason)
      | none => do
        amend fun r => { r with
          model := (assignment.model.getD "").toList
          effort := (assignment.effort.getD "").toList
          role := (assignment.role.getD "").toList }
        let state ← askCheckout none []
        if prior.any fun p =>
            p.branch ≠ "uninspected".toList && (state.worktree ≠ p.worktree || state.branch ≠ p.branch) then
          throw (.stopped "handoff-worktree-mismatch")
        else do
          amend fun r => { r with branch := state.branch, worktree := state.worktree }
          pure ⟨issue, above, assignment, state.head⟩

/-- `continue_work`, from the intent to the worker. -/
def claim (e : Env) (x : Settings) (c : Chosen) : CM Context := do
  -- the intent is on disk before the claim
  amend fun r => { r with stopReason := some interrupted }
  persist
  perform (.start c.issue.id)
  let r ← Prog.read (·.record)
  let epicBody ← askText (.show r.parentEpic)
  let ticketBody ← askText (.show c.issue.id)
  let _ ← askCheckout (some c.head) []
  revalidate e c.issue c.above c.assignment
  match boundedContext e ⟨{ r with stopReason := none }, ticketBody, epicBody, none, none⟩ x.contextBytes with
  | .ok context => pure context
  | .error e => throw e

/-- What a worker that stops is noted for. -/
def noteStop (j : Json) : CM Unit :=
  if isDict j && truthy (member j "stop_reason") then
    amend fun r => { r with recoveryRequired := false, workerStop := true, risks := r.risks ++ stopRisks j }
  else pure ()

/-- The receipt of a worker, checked. -/
def received (j : Json) : CM Receipt :=
  match receiptFiles j with
  | .error e => throw e
  | .ok receipt => do
    amend fun r => { r with recoveryRequired := false, risks := r.risks ++ receipt.risks }
    pure receipt

/-- `continue_work`, the worker. -/
def implement (context : Context) : CM Receipt := do
  amend fun r => { r with recoveryRequired := true }
  match ← ask (.worker context) with
  | .receipt j => do
    noteStop j
    received j
  | _ => unexpected

/-- `adapter.verify`, at most so many times. -/
def verify (ticket : Text) : ℕ → CM Text
  | 0 => throw (.stopped "verification-failed-twice")
  | n + 1 => do
    match ← ask .verify with
    | .verdict passed evidence => do
      let line := ticket ++ ": ".toList ++ evidence
      amend fun r => { r with verification := r.verification ++ [line] }
      if passed then pure line else verify ticket n
    | _ => unexpected

/-- `continue_work`, from the worker to the commit. -/
def check (e : Env) (c : Chosen) (receipt : Receipt) : CM Unit := do
  let _ ← askCheckout (some c.head) receipt.files
  revalidate e c.issue c.above c.assignment
  let line ← verify c.issue.id 2
  let _ ← askCheckout (some c.head) receipt.files
  revalidate e c.issue c.above c.assignment
  perform (.comment c.issue.id
    ("Verified: ".toList ++ line ++ "\nDecision/handoff: ".toList ++ receipt.summary))

/-- `continue_work`, from the commit to the end of the ticket. -/
def publish (e : Env) (c : Chosen) (receipt : Receipt) : CM Text := do
  amend fun r => { r with recoveryRequired := true }
  persist
  let commit ← askText (.commit c.issue.id receipt.files)
  amend fun r => { r with
    completedWork := r.completedWork ++ [c.issue.id ++ ": ".toList ++ commit ++ ": ".toList ++ receipt.summary] }
  -- what is committed is on disk before the ticket is closed
  persist
  let _ ← askCheckout (some commit) []
  revalidate e c.issue c.above c.assignment
  perform (.done c.issue.id)
  amend fun r => { r with stopReason := none, nextTicket := none, recoveryRequired := false }
  persist
  perform (.comment c.issue.id
    ("Committed ".toList ++ commit ++ "; durable handoff ".toList ++ e.path))
  let pending ← askText .next
  let upcoming ← select pending
  amend fun r => { r with nextTicket := upcoming.map fun u => u.1.id }
  persist
  pure pending

/-- A ticket, from its selection to its end. -/
def ticket (e : Env) (x : Settings) (prior : Option Record) (began : ℚ) (pending : Text) : CM Text := do
  let c ← choose e x prior began pending
  let context ← claim e x c
  let receipt ← implement context
  check e c receipt
  publish e c receipt

/-- At most so many tickets. -/
def tickets (e : Env) (x : Settings) (prior : Option Record) (began : ℚ) : ℕ → Text → CM Unit
  | 0, _ => throw (.stopped "ticket-limit")
  | n + 1, pending => do
    let next ← ticket e x prior began pending
    tickets e x prior began n next

/-! ## A run -/

/-- The record of a run that was given no handoff. -/
def Record.fresh (e : Env) (goal : Text) : Record where
  activeTicket := "none".toList
  parentEpic := "none".toList
  branch := "uninspected".toList
  worktree := e.cwd
  model := "gpt-6-astra".toList
  effort := "high".toList
  role := "implement".toList
  goal := goal
  completedWork := []
  verification := []
  risks := []
  nextTicket := none
  stopReason := none
  workerStop := false
  recoveryRequired := false
  resolutions := none

/-- The record that a run begins with. -/
def Record.begin (e : Env) (goal : Text) : Option Record → Record
  | none => .fresh e goal
  | some prior => { prior with goal := goal, stopReason := none, workerStop := false, recoveryRequired := false }

/-- What of a handoff stops a run. -/
def resume (prior : Record) : CM Unit := do
  if prior.recoveryRequired then do
    amend fun r => { r with recoveryRequired := true }
    throw (.stopped "recovery-required")
  else if prior.workerStop then do
    amend fun r => { r with workerStop := true }
    throw (.stop (prior.stopReason.getD "worker-resolution-required".toList))
  else if prior.stopReason = some interrupted then do
    amend fun r => { r with recoveryRequired := true }
    throw (.stopped "recovery-required")
  else pure ()

/-- What a run does until it stops. -/
def work (e : Env) (x : Settings) (prior : Option Record) (began : ℚ) : CM Unit := do
  match prior with
  | some prior => resume prior
  | none => pure ()
  let pending ← askText .next
  tickets e x prior began x.limit pending

/-- What a run makes of what stops it. -/
def halt : Exc → CM Unit
  | .stop text => amend fun r => { r with stopReason := some text }
  | .error type text => amend fun r => { r with
      stopReason := some "adapter-error".toList
      risks := r.risks ++ [type ++ ": ".toList ++ text] }

/-- What a ticket is told of the end of its run. The handoff says it too, so a failure is passed over. -/
def report (e : Env) (r : Record) : CM Unit :=
  if r.activeTicket = "none".toList then pure ()
  else (perform (.comment r.activeTicket
    ("Stopped: ".toList ++ r.stopReason.getD [] ++ "; handoff ".toList ++ e.path))).catching fun _ => pure ()

/-- The bounds are finite and positive. -/
def Settings.isBounded (x : Settings) : Bool :=
  1 ≤ x.limit && x.limit ≤ 100 && 0 < x.seconds && 1024 ≤ x.contextBytes

/-- `continue_work`. -/
def continueWork (e : Env) (x : Settings) (prior : Option Record) : CM Record := do
  if !x.isBounded then throw (.value "finite positive bounds required (1..100 tickets)".toList)
  else do
    let began ← askTime
    match prior.bind Record.fault with
    | some text => throw (.value text)
    | none => do
      Prog.write fun s => { s with record := .begin e x.goal prior }
      (work e x prior began).catching halt
      persist
      let r ← Prog.read (·.record)
      report e r
      pure r

/-- `resolve_stop`. -/
def resolveStop (r : Record) (evidence now : Text) : Except Exc Record :=
  match r.fault with
  | some text => .error (.value text)
  | none =>
    match r.stopReason with
    | none => .error (.value "a stopped handoff and explicit resolution evidence are required".toList)
    | some stop =>
      if isBlank evidence then
        .error (.value "a stopped handoff and explicit resolution evidence are required".toList)
      else .ok { r with
        resolutions := some (r.resolutions.getD [] ++ [⟨stop, evidence, now⟩])
        stopReason := none
        workerStop := false
        recoveryRequired := false }

/-! ## The machine -/

/-- What is called: a run, or a resolution of the handoff. -/
inductive Method where
  | run (x : Settings)
  | resolve (evidence now : Text)
  deriving DecidableEq

/-- `main` of the runner, and of the handoff. Both hold the lease. -/
def body (e : Env) : Method → CM Record
  | .run x => do
    let prior ← Prog.read (·.disk)
    match prior.bind Record.fault with
    | some text => throw (.value text)
    | none =>
    if prior.any fun p => p.stopReason = some interrupted then
      throw (.stopped "recovery-required: inspect previous handoff and LIT/Git before retry")
    else continueWork e x prior
  | .resolve evidence now => do
    match ← Prog.read (·.disk) with
    | none => throw (.error "FileNotFoundError".toList [])
    | some r =>
      match resolveStop r evidence now with
      | .error e => throw e
      | .ok resolved => do
        writeHandoff resolved
        pure resolved

/-- The continuation, under its lease. What is left of a process that is killed is what is on disk. -/
def machine (e : Env) : Machine State Op Answer Exc Method Record where
  body := body e
  enter := fun _ ctx _ => ctx.isEmpty
  crash := fun s => some { s with record := .fresh e [] }

end Continuation

end Arhugula
