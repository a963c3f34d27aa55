import Arhugula.Durable.Lease
import Arhugula.Durable.Slot
import Arhugula.Spec.LoopRecords

/-!
# The loop (`ops/orchestration/loop.py`)

Each operation runs under the lease of the journal: it reads the journal, the routing and LIT, and saves the
journal, some of them more than once. Other writers change LIT and the routing at any time; the answers of LIT
are free, the routing is state. A crash is one of the process: what it saved stays, the lease is freed.

What the operations read of other files, and of the processes and transcripts of the lane, is the answer of a
callback, taken apart. An answer that a callback does not give stands for what it raises.
-/

namespace Arhugula

namespace Loop

open Reentrant Durable Strings Lit ReviewBudget

/-! ## Calls -/

/-- A `datetime`: whether it has an offset, and its seconds, in UTC where it has one. -/
structure Moment where
  aware : Bool
  seconds : ℚ
  deriving DecidableEq

/-- What the operations use of the library: hashes, `Path.resolve` and `moment`. -/
structure Host (H : Type) where
  digest : Hashed → H
  resolve : Text → Text
  control : Written Control → Binding
  journal : Written (Journal H) → Binding
  moment : Json → Option Moment

/-- What is raised: a `ValueError` with its text, the refusal of a record, the `Stop` of the lease, a
`StartupBudgetRejected`, a `KeyError`, or what a call raises. -/
inductive Exc where
  | value (text : String)
  | invalid (e : Ownership.Invalid)
  | conflict
  | rejected
  | key
  | fault
  deriving DecidableEq

/-- What `identity` reads of a transcript. -/
structure Identity where
  sessionId : Option Text
  model : Option Text
  effort : Option Text
  status : String
  createdAt : Json
  lane : Json × Json × Json
  firstUser : Option Text
  lastUserHash : Option Text
  userCount : ℕ
  deriving DecidableEq

/-- What is read of a sealed `frontier.json`. -/
structure Frontier where
  automatic : Bool
  nonce : Text
  preparedAt : Json
  lane : Json × Json × Json
  deriving DecidableEq

/-- A parsed closeout. -/
structure Closeout where
  worktrees : Dict Text
  requiredOpen : List Text
  pending : List Text
  deriving DecidableEq

/-- What the gate of a product gives for an arc. -/
structure Facts where
  binding : CodeBinding
  gate : Binding
  log : Binding
  /-- `gate.completing_run(rows, arc)`: its head and its digest -/
  terminal : Option (Text × Text)
  reducer : Gate
  deriving DecidableEq

/-- A provisional receipt of a native reset. -/
structure Proof where
  verified : Json
  status : Json
  sessionId : Option Text
  manifest : Binding
  nonce : Text
  seconds : ℚ
  epoch : ℤ
  deriving DecidableEq

/-- The journal, its lease, and the routing. -/
structure Shelf (H : Type) where
  journal : Slot (Written (Journal H))
  held : Bool
  control : Slot (Written Control)

/-- The calls. -/
inductive Op (H : Type) where
  | lock
  | journal
  | bindJournal
  | replace (value : Written (Journal H))
  | sync
  | quarantine
  | control
  | bindControl
  | replaceControl (value : Written Control)
  | syncControl
  | quarantineControl
  | export (ticket : Text)
  | label (ticket : Text) (name : String)
  | comment (ticket key : Text) (review : Review)
  | write
  | identifier
  | clock
  | bind (path : Text)
  | budget (transcript session : Text)
  | transcript (path : Text)
  | holder (transcript : Text)
  | processes (handles : List ℕ)
  | membership (ticket : Text)
  | closeout (path ticket : Text)
  | gate (product arc : Text)
  | landing (product reviewed head : Text)
  | nextPass (product arc head digest : Text)
  | seal (directory previous : Text) (inherited : Option Text)
  | package (reset : Reset)
  | prompt (directory : Text)
  | receipt (path : Text)
  | frozen (path : Text)

/-- What a call does. -/
inductive Answer where
  | done
  | raised
  | exported (data : Export) (reads : Reads)
  | identifier (id : Text)
  | time (t : ℚ)
  | binding (b : Binding)
  | report (r : Json)
  | rejected (r : Json)
  | identity (a : Identity)
  | profile (name : String)
  | closeout (c : Closeout)
  | facts (f : Facts)
  | landing (delta : Bool) (producer : Binding)
  | pass (next : Option Text)
  | sealed (manifest : Binding)
  | frontier (f : Frontier)
  | prompt (expected frontierSha : Text)
  | proof (p : Proof)
  | frozen (c : Control)

/-- A body over the shelf. -/
abbrev LM (H : Type) (α : Type) := Prog (Shelf H) (Op H) Answer Exc α

variable {H : Type}

/-- `raise ValueError(...)`. -/
def refuse {α : Type} (text : String) : LM H α := throw (.value text)

/-- A call that gives no value. -/
def call (op : Op H) : LM H Unit := do
  match ← Prog.ask op with
  | .done => pure ()
  | _ => throw .fault

/-- A call that gives a value. -/
def fetch {α : Type} (op : Op H) (value : Answer → Option α) : LM H α := do
  match value (← Prog.ask op) with
  | some v => pure v
  | none => throw .fault

/-- The lease of the journal. -/
def leased : Lease (Shelf H) (Op H) Answer Exc where
  held s := s.held
  put s b := { s with held := b }
  lock := .lock
  raised
    | .done => none
    | _ => some .fault
  conflict := .conflict

/-- `with Lease(...)`. -/
def lease {α : Type} (p : LM H α) : LM H α := leased.during p

/-- `self._read`. -/
def readJournal : LM H (Journal H) := do
  call .journal
  match ← Prog.read (·.journal) with
  | .holding file =>
    match file.value.opened with
    | some state => pure state
    | none => refuse "invalid loop journal"
  | _ => throw .fault

/-- `atomic_json` of the journal. -/
def journalSaver : Saver (Shelf H) (Op H) Answer Exc (Written (Journal H)) where
  slot s := s.journal
  put s v := { s with journal := v }
  replace := .replace
  sync := .sync
  quarantine := .quarantine
  raised
    | .done => none
    | _ => some .fault
  refused := .value "uncertain publication requires explicit recovery"

/-- `atomic_json` of the routing. -/
def controlSaver : Saver (Shelf H) (Op H) Answer Exc (Written Control) where
  slot s := s.control
  put s v := { s with control := v }
  replace := .replaceControl
  sync := .syncControl
  quarantine := .quarantineControl
  raised
    | .done => none
    | _ => some .fault
  refused := .value "uncertain publication requires explicit recovery"

/-- `self._save`. -/
def save (state : Journal H) : LM H Unit := journalSaver.save (published state)

/-- `self._control`: the routing, and the row of the lead. -/
def readControl : LM H (Control × Row) := do
  call .control
  match ← Prog.read (·.control) with
  | .holding file =>
    if file.value.repairPaused = none then refuse "invalid pause control"
    else
      match file.value.bufords with
      | [row] => pure (file.value, row)
      | _ => refuse "one Buford routing record required"
  | _ => throw .fault

/-- `file_binding(self.control)`. -/
def bindControl (h : Host H) : LM H Binding := do
  call .bindControl
  match ← Prog.read (·.control) with
  | .holding file => pure (h.control file)
  | _ => throw .fault

/-- `file_binding(self.path)`. -/
def bindJournal (h : Host H) : LM H Binding := do
  call .bindJournal
  match ← Prog.read (·.journal) with
  | .holding file => pure (h.journal file)
  | _ => throw .fault

/-- `self.lit.read`. -/
def readLit (ticket : Text) : LM H (Export × Reads) := do
  let (data, reads) ← fetch (.export ticket) fun
    | .exported data reads => some (data, reads)
    | _ => none
  if (data.issues.filter (·.id = ticket)).length ≠ 1 then refuse "invalid LIT ticket/export"
  else pure (data, reads)

/-- `identity`. -/
def identity (transcript : Text) : LM H Identity :=
  fetch (.transcript transcript) fun
    | .identity a => some a
    | _ => none

/-- `file_binding`. -/
def fileBinding (path : Text) : LM H Binding :=
  fetch (.bind path) fun
    | .binding b => some b
    | _ => none

/-- A clock. -/
def clock : LM H ℚ :=
  fetch .clock fun
    | .time t => some t
    | _ => none

/-- The deadline has passed. -/
def isLate (deadline : Option ℚ) : LM H Bool := do
  match deadline with
  | none => pure false
  | some d => return decide ((← clock) > d)

/-- `self.status`, as far as it raises. -/
def status : LM H (Journal H) := do
  let state ← readJournal
  let _ ← readControl
  pure state

/-! ## Clearance -/

/-- `PREPARATION_OPERATIONS`. -/
def preparationOperations : List String :=
  ["artifact-inspection", "environment-work", "review-context-preparation", "test-preparation"]

/-- `IMPLEMENTATION_OPERATIONS`. -/
def implementationOperations : List String :=
  ["artifact-inspection", "environment-work", "implementation", "review-context-preparation", "test-preparation"]

/-- `Preparation`, as `parse` makes it. -/
structure Preparation where
  operations : List String
  release : Text
  named : operations ≠ []
  inside : ∀ o ∈ operations, o ∈ preparationOperations
  released : release ≠ []

/-- `Implementation` or `Preparation`. -/
inductive Clearance where
  | implementation
  | preparation (p : Preparation)

/-- `sorted(clearance.operations)`. -/
def Clearance.operations : Clearance → List String
  | implementation => implementationOperations
  | preparation p => p.operations

/-- `clearance.release`. -/
def Clearance.release : Clearance → Option Text
  | implementation => none
  | preparation p => some p.release

/-- The last issue of an id. -/
def issueOf (data : Export) (id : Text) : Option Issue := data.issues.reverse.find? (·.id = id)

/-- `HUMAN_GATE`. -/
def humanGate : String := "role:human"

/-- `HUMAN_GATE in issue.get("labels", ())`, unless it raises. -/
def gateLabel (i : Issue) : Option Bool :=
  match i.fields.get "labels" with
  | none => some false
  | some (.arr labels) => some (labels.contains (.str humanGate))
  | some (.str text) => some (decide (humanGate.toList <:+: text.toList))
  | some (.obj members) => some (members.any fun m => m.1 = humanGate)
  | some _ => none

/-- The issue is a human gate. -/
def isGate (i : Issue) : Bool := gateLabel i = some true

/-- `moment(fields[name])`. -/
def Host.time (h : Host H) (fields : Mapping Json) (name : String) : Option Moment := (fields.get name).bind h.moment

/-- Two times can be compared: both have an offset, or none has. -/
def comparable : Option Moment → Option Moment → Bool
  | some a, some b => a.aware = b.aware
  | _, _ => false

/-- One time is before another. -/
def isBefore : Option Moment → Option Moment → Bool
  | some a, some b => a.seconds < b.seconds
  | _, _ => false

/-- The first comment of those that were created last. -/
def latest (h : Host H) : List Lit.Comment → Option Lit.Comment
  | [] => none
  | c :: cs =>
    match latest h cs with
    | none => some c
    | some d => if isBefore (h.time c.fields "created_at") (h.time d.fields "created_at") then some d else some c

/-- The comments on a gate up to its closure. -/
def recordedBy (h : Host H) (data : Export) (gate : Issue) : List Lit.Comment :=
  data.comments.filter fun c => c.issueId = gate.id &&
    !isBefore (h.time gate.fields "closed_at") (h.time c.fields "created_at")

/-- `Preparation.admit`. A time that is not there, or cannot be read or compared, raises. -/
def Preparation.admits (p : Preparation) (h : Host H) (data : Export) (ticket : Text) : Except Exc Unit := do
  let all := prerequisites data ticket
  if all.any fun g => ((issueOf data g).bind gateLabel).isNone then throw .key
  let gates := all.filter fun g => (issueOf data g).any isGate
  if gates.any fun g => !(issueOf data g).any Issue.isClosed then throw (.value "hold-retained")
  match data.comments.filter (·.id = p.release) with
  | [cited] =>
    if !gates.contains cited.issueId then throw (.value "release-unverified: not a gate")
    else
      match issueOf data cited.issueId with
      | none => throw .key
      | some gate =>
        let on := data.comments.filter (·.issueId = gate.id)
        if on.any fun c => !comparable (h.time c.fields "created_at") (h.time gate.fields "closed_at") then throw .key
        else if (latest h (recordedBy h data gate)).map Lit.Comment.id ≠ some p.release then
          throw (.value "release-unverified: not the record the gate closed on")
        else pure ()
  | _ => throw (.value "release-unverified: not a gate")

/-- `clearance.admit`. -/
def Clearance.admits (c : Clearance) (h : Host H) (data : Export) (ticket : Text) (blocked : List Text) : Except Exc Unit :=
  match c with
  | implementation => if blocked ≠ [] then throw (.value "dependency-open") else pure ()
  | preparation p => p.admits h data ticket

/-- `clearance.issuer`. -/
def Clearance.issuer (c : Clearance) (session transcript : Text) : LM H Text := do
  match c with
  | implementation => pure session
  | preparation _ => do
    if (← identity transcript).sessionId ≠ some session then refuse "caller-not-issuer: Buford transcript is not the journal session"
    else do
      call (.holder transcript)
      pure session

/-! ## Grants -/

/-- `record[name]`, of a JSON object. -/
def member (record : Json) (name : String) : Option Json :=
  match record with
  | .obj members => Mapping.get members name
  | _ => none

/-- A JSON value is a string. -/
def isText (value : Option Json) (t : Text) : Bool :=
  match value with
  | some (.str s) => s.toList = t
  | _ => false

/-- The record is of a key. -/
def isOf (key : Text) (record : Json) : Bool := isText (member record "key") key

/-- `recorded_writer`. -/
def recordedWriter (state : Journal H) (ticket : Text) : Except Exc Json :=
  if state.active.any fun r => (member r "key").isNone then throw .key
  else if (state.active.filter (isOf ticket)).any fun r => (member r "kind").isNone then throw .key
  else
    match state.active.find? fun r => isOf ticket r && isText (member r "kind") "writer".toList with
    | some r => pure r
    | none => throw (.value "reservation-required: reserve the writer before admission")

/-- `granted`. -/
def granted (state : Journal H) (admission : Text) : Except Exc (Grant H) :=
  match state.admission with
  | some grant => if grant.id = admission then pure grant else throw (.value "fresh LIT admission required")
  | none => throw (.value "fresh LIT admission required")

/-- `clear`. -/
def clear (state : Journal H) (admission : Text) (operation : String) (tickets : List Text) : Except Exc (Grant H) := do
  let grant ← granted state admission
  if tickets.any (· ≠ grant.ticket) then throw (.value "grant-ticket-mismatch")
  if !grant.operations.contains operation then throw (.value "operation-not-admitted")
  if (← recordedWriter state grant.ticket) ≠ grant.reservation then throw (.value "reservation changed; begin again")
  pure grant

/-- What a function that calls nothing gives. -/
def given {α : Type} (r : Except Exc α) : LM H α := Prog.ofExcept r

variable [DecidableEq H]

/-- `self._current`. -/
def current (h : Host H) (state : Journal H) (admission : Text) (operation : String) (tickets : List Text) :
    LM H (Grant H × Export × Reads) := do
  let grant ← given (clear state admission operation tickets)
  let (data, reads) ← readLit grant.ticket
  if fingerprint h.digest data grant.ticket state.goalTicket ≠ grant.fingerprint then
    refuse "LIT changed or pause/routing changed; begin again"
  else do
    let binding ← bindControl h
    if binding.sha256 ≠ grant.control then refuse "LIT changed or pause/routing changed; begin again"
    else pure (grant, data, reads)

/-- What `check` returns. -/
structure Checked where
  ticket : Text
  reads : Reads
  admission : Text
  deriving DecidableEq

/-- `check`. -/
def check (h : Host H) (admission : Text) (operation : String) (tickets : List Text) : LM H Checked :=
  lease do
    let state ← readJournal
    let (grant, _, reads) ← current h state admission operation tickets
    pure ⟨grant.ticket, reads, admission⟩

/-- `transition`. -/
def transition (h : Host H) (admission : Text) (operation : String) (ticket : Text) : LM H Unit :=
  lease do
    let state ← readJournal
    let (grant, before, _) ← current h state admission operation [ticket]
    call .write
    let (after, _) ← readLit ticket
    let known := before.comments.map Lit.Comment.id
    if fingerprint h.digest (beside after ticket known) ticket state.goalTicket ≠
        fingerprint h.digest (beside before ticket known) ticket state.goalTicket then
      refuse "LIT changed beside this run's transition; begin again"
    else
      save { state with admission := some { grant with
        fingerprint := fingerprint h.digest after ticket state.goalTicket } }

end Loop

end Arhugula
