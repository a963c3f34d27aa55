import Arhugula.Spec.Transcript

/-!
# The watch (`ops/orchestration/session_context.py`)

`watchOnce` reads what the transcripts of the configured sessions have grown by, appends the events that come of it to
a log, and saves after each session how far it came. What it writes is a list of writes, each of which is complete or
was not made: a crash leaves the first of them.

A configuration is one that `_load_config` accepts. `sha256` and `json.dumps` of an event's name and of an admission
are parameters. A file is known by its identity and its bytes, the state by the document that was saved. A poll sees
the transcripts as they are at one moment.
-/

namespace Arhugula

namespace Watch

/-! ## Records -/

/-- A session of a configuration. -/
structure Session where
  role : Str
  kind : Kind
  sessionId : Str
  transcript : Str
  ceiling : ℕ
  taskBudget : ℕ
  reserve : ℕ
  deriving DecidableEq

/-- A configuration. -/
structure Config where
  repairPaused : Bool
  notificationThread : Option Str
  sessions : List Session
  nonempty : sessions ≠ []
  roles : (sessions.map Session.role).Nodup

/-- What is saved of a session. -/
structure Saved where
  kind : Kind
  sessionId : Str
  transcript : Str
  offset : ℕ
  summary : Summary
  completionEmitted : ℕ
  compactionEmitted : ℕ
  lastAdmissionKey : Option Str
  admissionRevision : ℕ
  fileIdentity : Option (ℕ × ℕ)

/-- The state of the watch. -/
structure WatchState where
  sessions : List (Str × Saved)
  pendingNotifications : List Str
  sentNotifications : List Str

/-- `state["sessions"].get(role)`. -/
def WatchState.saved (state : WatchState) (role : Str) : Option Saved :=
  (state.sessions.find? fun x => x.1 = role).map Prod.snd

/-- Why an admission is held. -/
inductive Reason where
  | paused | missingSessionId | sessionIdConflict | sessionIdMismatch | sessionNotComplete
  | invalidCeiling | missingRequestMetric | insufficientHeadroom
  deriving DecidableEq, Repr

/-- An admission, as it is recorded. -/
structure Admission where
  allow : Bool
  reasons : List Reason
  latestRequestInputTokens : Option ℕ
  latestResponseOutputTokens : Option ℕ
  estimatedConsumedContextTokens : Option ℕ
  measurementBasis : Kind
  remainingTokens : Option ℤ
  requiredTokens : ℕ
  operationalCeilingTokens : ℕ
  deriving DecidableEq

/-- The type of an event. -/
inductive EventType where
  | completion | compaction | admission
  deriving DecidableEq, Repr

/-- What an event says. -/
inductive Detail where
  | completion (ordinal : ℕ) (time : Json)
  | compaction (ordinal : ℕ) (c : Compaction)
  | admission (a : Admission)

/-- An event. -/
structure Event where
  role : Str
  kind : Kind
  sessionId : Str
  source : Str
  detail : Detail
  eventId : Str

/-- `_event_id`, of the role, the kind and the id of a session, the type and the marker; and the text of an
admission. -/
structure Texts where
  eventId : Str → Kind → Str → EventType → ℕ → Str
  marker : Admission → Str

/-- A file: its device and inode, and its bytes. -/
structure File where
  identity : ℕ × ℕ
  bytes : List UInt8

/-! ## Documents -/

/-- How a value is written in a document, and read from it. -/
structure Form (α : Type) where
  write : α → Json
  read : Json → Option α
  read_write : ∀ a, read (write a) = some a

namespace Form

def json : Form Json := ⟨id, some, fun _ => rfl⟩

def bool : Form Bool where
  write := .bool
  read
    | .bool b => some b
    | _ => none
  read_write _ := rfl

def nat : Form ℕ where
  write n := .int n
  read := Json.nonnegative
  read_write n := by simp [Json.nonnegative]

def str : Form Str where
  write := .str
  read := Json.text
  read_write _ := rfl

/-- `None`, or a value that is not written as `None`. -/
def opt {α : Type} (f : Form α) (h : ∀ a, f.write a ≠ .null) : Form (Option α) where
  write
    | none => .null
    | some a => f.write a
  read
    | .null => some none
    | v => (f.read v).map some
  read_write a := by
    cases a with
    | none => rfl
    | some a =>
      have hread := f.read_write a
      have hne := h a
      dsimp only
      split
      · contradiction
      · rw [hread]
        rfl

/-- Read each of these. -/
def readAll {α : Type} (f : Form α) : List Json → Option (List α)
  | [] => some []
  | v :: vs => do pure ((← f.read v) :: (← readAll f vs))

theorem readAll_map {α : Type} (f : Form α) (l : List α) : readAll f (l.map f.write) = some l := by
  induction l with
  | nil => rfl
  | cons a l ih => simp [readAll, f.read_write, ih]

def list {α : Type} (f : Form α) : Form (List α) where
  write l := .list (l.map f.write)
  read
    | .list items => readAll f items
    | _ => none
  read_write l := f.readAll_map l

/-- One of some values, each known by its name. -/
def named {α : Type} [DecidableEq α] (all : List α) (name : α → String)
    (h : ∀ a, all.find? (fun b => Watch.str (name b) = Watch.str (name a)) = some a) : Form α where
  write a := .str (Watch.str (name a))
  read
    | .str s => all.find? fun b => Watch.str (name b) = s
    | _ => none
  read_write := h

def optNat : Form (Option ℕ) := nat.opt fun _ h => by cases h

def optStr : Form (Option Str) := str.opt fun _ h => by cases h

def kind : Form Kind := named [.codex, .claude] (fun
  | .codex => "codex"
  | .claude => "claude") fun a => by cases a <;> rfl

def status : Form Status := named [.unknown, .active, .complete] (fun
  | .unknown => "unknown"
  | .active => "active"
  | .complete => "complete") fun a => by cases a <;> rfl

def metricError : Form (Option MetricError) := (named [.invalidContextWindow, .conflictingContextWindow,
  .invalidRequestMetric, .missingResponseId] (fun
  | .invalidContextWindow => "invalid-context-window"
  | .conflictingContextWindow => "conflicting-context-window"
  | .invalidRequestMetric => "invalid-request-metric"
  | .missingResponseId => "missing-response-id") fun a => by cases a <;> rfl).opt fun _ h => by cases h

/-- Read a member. -/
def member {α : Type} (f : Form α) (v : Json) (key : String) : Option α := (v.find key).bind f.read

theorem member_write {α : Type} {f : Form α} {v : Json} {key : String} {a : α} (h : v.find key = some (f.write a)) :
    f.member v key = some a := by
  unfold member
  rw [h]
  exact f.read_write a

def compaction : Form Compaction where
  write c := .dict [
    (Watch.str "time", optStr.write c.time), (Watch.str "pre_tokens", optNat.write c.preTokens),
    (Watch.str "post_tokens", optNat.write c.postTokens), (Watch.str "trigger", optStr.write c.trigger)]
  read v := do
    pure ⟨← optStr.member v "time", ← optNat.member v "pre_tokens", ← optNat.member v "post_tokens",
      ← optStr.member v "trigger"⟩
  read_write c := by
    rw [member_write (f := optStr) (a := c.time) rfl, member_write (f := optNat) (a := c.preTokens) rfl,
      member_write (f := optNat) (a := c.postTokens) rfl, member_write (f := optStr) (a := c.trigger) rfl]
    rfl

def startup : Form Startup where
  write s := .dict [
    (Watch.str "estimated_consumed_context_tokens", optNat.write s.estimatedConsumedContextTokens),
    (Watch.str "reported_context_window_tokens", optNat.write s.reportedContextWindowTokens),
    (Watch.str "metric_error", metricError.write s.metricError)]
  read v := do
    pure ⟨← optNat.member v "estimated_consumed_context_tokens", ← optNat.member v "reported_context_window_tokens",
      ← metricError.member v "metric_error"⟩
  read_write s := by
    rw [member_write (f := optNat) (a := s.estimatedConsumedContextTokens) rfl,
      member_write (f := optNat) (a := s.reportedContextWindowTokens) rfl,
      member_write (f := metricError) (a := s.metricError) rfl]
    rfl

/-- The members of a summary that records change. -/
def stateMembers (s : State) : List (Str × Json) := [
  (Watch.str "kind", kind.write s.kind),
  (Watch.str "session_id", optStr.write s.sessionId),
  (Watch.str "identity_conflict", bool.write s.identityConflict),
  (Watch.str "model", optStr.write s.model),
  (Watch.str "effort", s.effort),
  (Watch.str "last_activity", optStr.write s.lastActivity),
  (Watch.str "status", status.write s.status),
  (Watch.str "latest_request_input_tokens", optNat.write s.latestRequestInputTokens),
  (Watch.str "latest_response_output_tokens", optNat.write s.latestResponseOutputTokens),
  (Watch.str "estimated_consumed_context_tokens", optNat.write s.estimatedConsumedContextTokens),
  (Watch.str "cached_input_tokens", optNat.write s.cachedInputTokens),
  (Watch.str "reported_context_window_tokens", optNat.write s.reportedContextWindowTokens),
  (Watch.str "metric_error", metricError.write s.metricError),
  (Watch.str "compactions", compaction.list.write s.compactions),
  (Watch.str "completion_times", json.list.write s.completionTimes),
  (Watch.str "completion_count", nat.write s.completionCount),
  (Watch.str "observed_responses", nat.write s.observedResponses),
  (Watch.str "startup", startup.write s.startup),
  (Watch.str "_seen_response_hashes", str.list.write s.seenResponseHashes),
  (Watch.str "_completed_response_hashes", str.list.write s.completedResponseHashes),
  (Watch.str "_last_response_hash", optStr.write s.lastResponseHash),
  (Watch.str "_active_turn_id", s.activeTurnId),
  (Watch.str "_last_codex_compaction", bool.write s.lastCodexCompaction)]

/-- Read a summary, what records change of it. -/
def readState (v : Json) : Option State := do
  pure
    { kind := ← kind.member v "kind"
      sessionId := ← optStr.member v "session_id"
      identityConflict := ← bool.member v "identity_conflict"
      model := ← optStr.member v "model"
      effort := ← json.member v "effort"
      lastActivity := ← optStr.member v "last_activity"
      status := ← status.member v "status"
      latestRequestInputTokens := ← optNat.member v "latest_request_input_tokens"
      latestResponseOutputTokens := ← optNat.member v "latest_response_output_tokens"
      estimatedConsumedContextTokens := ← optNat.member v "estimated_consumed_context_tokens"
      cachedInputTokens := ← optNat.member v "cached_input_tokens"
      reportedContextWindowTokens := ← optNat.member v "reported_context_window_tokens"
      metricError := ← metricError.member v "metric_error"
      compactions := ← compaction.list.member v "compactions"
      completionTimes := ← json.list.member v "completion_times"
      completionCount := ← nat.member v "completion_count"
      observedResponses := ← nat.member v "observed_responses"
      startup := ← startup.member v "startup"
      seenResponseHashes := ← str.list.member v "_seen_response_hashes"
      completedResponseHashes := ← str.list.member v "_completed_response_hashes"
      lastResponseHash := ← optStr.member v "_last_response_hash"
      activeTurnId := ← json.member v "_active_turn_id"
      lastCodexCompaction := ← bool.member v "_last_codex_compaction" }

/-- A summary. Before the first scan it has no `compaction_count`. -/
def summaryMembers (s : Summary) : List (Str × Json) :=
  stateMembers s.state ++ (Watch.str "partial_tail", bool.write s.partialTail) ::
    s.compactionCount.toList.map fun n => (Watch.str "compaction_count", nat.write n)

theorem readState_write (s : Summary) : readState (.dict (summaryMembers s)) = some s.state := by
  unfold readState
  rw [member_write (f := kind) (a := s.state.kind) rfl,
    member_write (f := optStr) (a := s.state.sessionId) rfl,
    member_write (f := bool) (a := s.state.identityConflict) rfl,
    member_write (f := optStr) (a := s.state.model) rfl,
    member_write (f := json) (a := s.state.effort) rfl,
    member_write (f := optStr) (a := s.state.lastActivity) rfl,
    member_write (f := status) (a := s.state.status) rfl,
    member_write (f := optNat) (a := s.state.latestRequestInputTokens) rfl,
    member_write (f := optNat) (a := s.state.latestResponseOutputTokens) rfl,
    member_write (f := optNat) (a := s.state.estimatedConsumedContextTokens) rfl,
    member_write (f := optNat) (a := s.state.cachedInputTokens) rfl,
    member_write (f := optNat) (a := s.state.reportedContextWindowTokens) rfl,
    member_write (f := metricError) (a := s.state.metricError) rfl,
    member_write (f := compaction.list) (a := s.state.compactions) rfl,
    member_write (f := json.list) (a := s.state.completionTimes) rfl,
    member_write (f := nat) (a := s.state.completionCount) rfl,
    member_write (f := nat) (a := s.state.observedResponses) rfl,
    member_write (f := startup) (a := s.state.startup) rfl,
    member_write (f := str.list) (a := s.state.seenResponseHashes) rfl,
    member_write (f := str.list) (a := s.state.completedResponseHashes) rfl,
    member_write (f := optStr) (a := s.state.lastResponseHash) rfl,
    member_write (f := json) (a := s.state.activeTurnId) rfl,
    member_write (f := bool) (a := s.state.lastCodexCompaction) rfl]
  rfl

/-- Read a member that may be missing. -/
def optional {α : Type} (f : Form α) (v : Json) (key : String) : Option (Option α) :=
  match v.find key with
  | none => some none
  | some j => (f.read j).map some

theorem optional_write {α : Type} {f : Form α} {v : Json} {key : String} {a : α}
    (h : v.find key = some (f.write a)) : f.optional v key = some (some a) := by
  unfold optional
  rw [h]
  show (f.read (f.write a)).map some = _
  rw [f.read_write]
  rfl

def summary : Form Summary where
  write s := .dict (summaryMembers s)
  read v := do
    pure ⟨← readState v, ← bool.member v "partial_tail", ← nat.optional v "compaction_count"⟩
  read_write s := by
    have hcount : nat.optional (.dict (summaryMembers s)) "compaction_count" = some s.compactionCount := by
      obtain ⟨state, tail, count⟩ := s
      cases count with
      | none => rfl
      | some n => exact optional_write rfl
    rw [readState_write, member_write (f := bool) (a := s.partialTail) rfl, hcount]
    rfl

/-- `file_identity`: the device and the inode. -/
def identity : Form (ℕ × ℕ) where
  write i := .list [nat.write i.1, nat.write i.2]
  read
    | .list [a, b] => do pure (← nat.read a, ← nat.read b)
    | _ => none
  read_write i := by
    dsimp only
    rw [nat.read_write, nat.read_write]
    rfl

def saved : Form Saved where
  write s := .dict [
    (Watch.str "kind", kind.write s.kind),
    (Watch.str "session_id", str.write s.sessionId),
    (Watch.str "transcript", str.write s.transcript),
    (Watch.str "offset", nat.write s.offset),
    (Watch.str "summary", summary.write s.summary),
    (Watch.str "completion_emitted", nat.write s.completionEmitted),
    (Watch.str "compaction_emitted", nat.write s.compactionEmitted),
    (Watch.str "last_admission_key", optStr.write s.lastAdmissionKey),
    (Watch.str "admission_revision", nat.write s.admissionRevision),
    (Watch.str "file_identity", (identity.opt fun _ h => by cases h).write s.fileIdentity)]
  read v := do
    pure
      { kind := ← kind.member v "kind"
        sessionId := ← str.member v "session_id"
        transcript := ← str.member v "transcript"
        offset := ← nat.member v "offset"
        summary := ← summary.member v "summary"
        completionEmitted := ← nat.member v "completion_emitted"
        compactionEmitted := ← nat.member v "compaction_emitted"
        lastAdmissionKey := ← optStr.member v "last_admission_key"
        admissionRevision := ← nat.member v "admission_revision"
        fileIdentity := ← (identity.opt fun _ h => by cases h).member v "file_identity" }
  read_write s := by
    rw [member_write (f := kind) (a := s.kind) rfl,
      member_write (f := str) (a := s.sessionId) rfl,
      member_write (f := str) (a := s.transcript) rfl,
      member_write (f := nat) (a := s.offset) rfl,
      member_write (f := summary) (a := s.summary) rfl,
      member_write (f := nat) (a := s.completionEmitted) rfl,
      member_write (f := nat) (a := s.compactionEmitted) rfl,
      member_write (f := optStr) (a := s.lastAdmissionKey) rfl,
      member_write (f := nat) (a := s.admissionRevision) rfl,
      member_write (f := identity.opt fun _ h => by cases h) (a := s.fileIdentity) rfl]
    rfl

/-- The members of a dict that holds a value of each key. -/
def dictionary {α : Type} (f : Form α) : Form (List (Str × α)) where
  write l := .dict (l.map fun m => (m.1, f.write m.2))
  read
    | .dict members => members.mapM fun m => (f.read m.2).map fun a => (m.1, a)
    | _ => none
  read_write l := by
    dsimp only
    induction l with
    | nil => rfl
    | cons m l ih =>
      rw [List.map_cons, List.mapM_cons, ih, f.read_write]
      rfl

/-- `_load_state` and `_save_state`. -/
def watchState : Form WatchState where
  write s := .dict [
    (Watch.str "version", nat.write 1),
    (Watch.str "sessions", saved.dictionary.write s.sessions),
    (Watch.str "pending_notifications", str.list.write s.pendingNotifications),
    (Watch.str "sent_notifications", str.list.write s.sentNotifications)]
  read v := do
    if (← nat.member v "version") = 1 then
      pure
        { sessions := ← saved.dictionary.member v "sessions"
          pendingNotifications := ← str.list.member v "pending_notifications"
          sentNotifications := (← str.list.optional v "sent_notifications").getD [] }
    else none
  read_write s := by
    rw [member_write (f := nat) (a := 1) rfl,
      member_write (f := saved.dictionary) (a := s.sessions) rfl,
      member_write (f := str.list) (a := s.pendingNotifications) rfl,
      optional_write (f := str.list) (a := s.sentNotifications) rfl]
    rfl

end Form

/-! ## A session -/

/-- `_scan_watch_session`: what it was saved with, unless that is of another session. -/
def Saved.of (session : Session) (previous : Option Saved) : Saved :=
  match previous.filter fun p =>
      p.kind = session.kind ∧ p.sessionId = session.sessionId ∧ p.transcript = session.transcript with
  | some previous => previous
  | none =>
    { kind := session.kind
      sessionId := session.sessionId
      transcript := session.transcript
      offset := 0
      summary := .fresh session.kind
      completionEmitted := 0
      compactionEmitted := 0
      lastAdmissionKey := none
      admissionRevision := 0
      fileIdentity := none }

/-- `_scan_watch_session`. -/
def scanWatchSession (h : Host) (files : Str → Option File) (session : Session) (previous : Option Saved) :
    Except Exc Saved :=
  let previous := Saved.of session previous
  match files session.transcript with
  | none => if previous.offset ≠ 0 then .error (.disappeared session.role) else .ok previous
  | some file =>
    if previous.fileIdentity.any fun identity => identity ≠ file.identity then .error (.replaced session.role)
    else if file.bytes.length < previous.offset then .error (.truncated session.role)
    else do
      let (summary, offset) ← scan h file.bytes previous.summary previous.offset
      pure { previous with offset := offset, summary := summary, fileIdentity := some file.identity }

/-- `admit`, and the admission that is recorded. Budgets are natural numbers. -/
def admission (paused : Bool) (session : Session) (s : State) : Admission :=
  let consumed := match s.kind with
    | .claude => s.estimatedConsumedContextTokens
    | .codex => s.latestRequestInputTokens
  let remaining : Option ℤ := consumed.map fun n => (session.ceiling : ℤ) - n
  let required := session.taskBudget + session.reserve
  let reasons : List Reason :=
    (if paused then [Reason.paused] else []) ++
    (if s.sessionId.all fun id => id = [] then [Reason.missingSessionId] else []) ++
    (if s.identityConflict then [Reason.sessionIdConflict] else []) ++
    (if s.sessionId ≠ some session.sessionId ∨ s.identityConflict then [Reason.sessionIdMismatch] else []) ++
    (if s.status ≠ .complete then [Reason.sessionNotComplete] else []) ++
    (if session.ceiling = 0 then [Reason.invalidCeiling] else []) ++
    (if consumed = none ∨ s.metricError.isSome then [Reason.missingRequestMetric] else []) ++
    (if remaining.any fun n : ℤ => n < required then [Reason.insufficientHeadroom] else [])
  { allow := reasons.isEmpty
    reasons := reasons
    latestRequestInputTokens := s.latestRequestInputTokens
    latestResponseOutputTokens := s.latestResponseOutputTokens
    estimatedConsumedContextTokens := consumed
    measurementBasis := s.kind
    remainingTokens := remaining
    requiredTokens := required
    operationalCeilingTokens := session.ceiling }

/-- An event of a session. -/
def Session.event (session : Session) (detail : Detail) (eventId : Str) : Event :=
  ⟨session.role, session.kind, session.sessionId, session.transcript, detail, eventId⟩

/-- `_event_id`. -/
def Session.eventId (t : Texts) (session : Session) (type : EventType) (marker : ℕ) : Str :=
  t.eventId session.role session.kind session.sessionId type marker

/-- `_candidate_events`: one event for each index in `range(a, b)`. -/
def eventsOf {α : Type} (t : Texts) (session : Session) (type : EventType) (detail : ℕ → α → Detail) (items : List α)
    (a b : ℕ) : Except Exc (List Event) :=
  (List.range' a (b - a)).mapM fun index => match items[index]? with
    | some item => .ok (session.event (detail (index + 1) item) (session.eventId t type (index + 1)))
    | none => .error .index

/-- `summary["compaction_count"]`. -/
def Summary.count (s : Summary) : Except Exc ℕ :=
  match s.compactionCount with
  | some n => .ok n
  | none => .error (.key "compaction_count")

/-- `identity_ok`. -/
def Summary.identityOk (s : Summary) (session : Session) : Bool :=
  s.state.sessionId = some session.sessionId && !s.state.identityConflict

/-- `_candidate_events`: the completions and the compactions. -/
def sessionEvents (t : Texts) (session : Session) (saved : Saved) : Except Exc (List Event) := do
  let s := saved.summary.state
  if saved.summary.identityOk session then
    let completions ← eventsOf t session .completion .completion s.completionTimes saved.completionEmitted s.completionCount
    let count ← saved.summary.count
    let compactions ← eventsOf t session .compaction (fun ordinal c => .compaction ordinal c) s.compactions
      saved.compactionEmitted count
    pure (completions ++ compactions)
  else pure []

/-- `_candidate_events`: the admission, where it is another than the last one. -/
def admissionEvents (t : Texts) (session : Session) (saved : Saved) (a : Admission) : List Event × Saved :=
  if saved.lastAdmissionKey = some (t.marker a) then ([], saved)
  else
    ([session.event (.admission a) (session.eventId t .admission (saved.admissionRevision + 1))],
      { saved with admissionRevision := saved.admissionRevision + 1, lastAdmissionKey := some (t.marker a) })

/-- `_candidate_events`. -/
def candidateEvents (t : Texts) (session : Session) (saved : Saved) (a : Admission) :
    Except Exc (List Event × Saved) := do
  let events ← sessionEvents t session saved
  let count ← saved.summary.count
  let last := admissionEvents t session
    { saved with completionEmitted := saved.summary.state.completionCount, compactionEmitted := count } a
  pure (events ++ last.1, last.2)

/-! ## A poll -/

/-- What a poll writes. -/
inductive Write where
  | append (e : Event)
  | save (document : Json)

/-- What the watch keeps on disk: the state, and the log, oldest event first. -/
structure Disk where
  state : Option Json
  log : List Event

/-- Nothing was written yet. -/
def Disk.new : Disk := ⟨none, []⟩

def Disk.write (d : Disk) : Write → Disk
  | .append e => { d with log := d.log ++ [e] }
  | .save document => { d with state := some document }

/-- What a poll has in memory, and what it wrote. -/
structure Memory where
  state : WatchState
  known : List Str
  emitted : List Event
  writes : List Write

namespace Memory

/-- `_append_event`, unless the id is known. -/
def record (m : Memory) (e : Event) : Memory :=
  if m.known.contains e.eventId then m
  else
    { m with
      known := e.eventId :: m.known
      emitted := m.emitted ++ [e]
      writes := m.writes ++ [.append e] }

/-- A notification of an event, where notifications are wanted. -/
def remind (notify : Bool) (m : Memory) (eventId : Str) : Memory :=
  if notify && !m.state.sentNotifications.contains eventId && !m.state.pendingNotifications.contains eventId then
    { m with state := { m.state with pendingNotifications := m.state.pendingNotifications ++ [eventId] } }
  else m

/-- `watch_once`, for one event. -/
def emit (notify : Bool) (m : Memory) (e : Event) : Memory := (m.record e).remind notify e.eventId

/-- `_save_state`. -/
def save (m : Memory) (state : WatchState) : Memory :=
  { m with state := state, writes := m.writes ++ [.save (Form.watchState.write state)] }

/-- What is in memory of a role. -/
def saved (m : Memory) (role : Str) : Option Saved := m.state.saved role

/-- `state["sessions"][role] = saved`, and `_save_state`. -/
def checkpoint (m : Memory) (role : Str) (saved : Saved) : Memory :=
  m.save { m.state with sessions := (role, saved) :: m.state.sessions.filter fun x => x.1 ≠ role }

end Memory

/-- A poll: the configuration, which notifications the queue takes, where they are wanted, and the transcripts. -/
structure Poll where
  config : Config
  notify : Option (Str → Bool)
  files : Str → Option File

/-- `watch_once`, for one session. -/
def pollSession (h : Host) (t : Texts) (p : Poll) (m : Memory) (session : Session) : Except Exc Memory := do
  let saved ← scanWatchSession h p.files session (m.saved session.role)
  let (events, saved) ← candidateEvents t session saved (admission p.config.repairPaused session saved.summary.state)
  pure ((events.foldl (Memory.emit p.notify.isSome) m).checkpoint session.role saved)

/-- `watch_once`, for the sessions one after the other: what is in memory, and what was raised. -/
def pollSessions (h : Host) (t : Texts) (p : Poll) (m : Memory) : List Session → Memory × Option Exc
  | [] => (m, none)
  | session :: sessions =>
    match pollSession h t p m session with
    | .error e => (m, some e)
    | .ok m => pollSessions h t p m sessions

/-- `_deliver_pending`, for the notifications one after the other. -/
def deliver (queue : Str → Bool) (m : Memory) : List Str → Memory × Option Exc
  | [] => (m, none)
  | eventId :: rest =>
    if queue eventId then
      deliver queue (m.save { m.state with
        pendingNotifications := rest
        sentNotifications := m.state.sentNotifications ++ [eventId] }) rest
    else (m, some .notification)

/-- `_load_state`. -/
def loadState (d : Disk) : Option WatchState :=
  match d.state with
  | none => some ⟨[], [], []⟩
  | some document => Form.watchState.read document

/-- `watch_once`: what is in memory at the end, and what was raised. -/
def watchOnce (h : Host) (t : Texts) (p : Poll) (d : Disk) : Memory × Option Exc :=
  match loadState d with
  | none => (⟨⟨[], [], []⟩, [], [], []⟩, some .state)
  | some state =>
    let m : Memory := ⟨state, d.log.map Event.eventId, [], []⟩
    if p.notify.isSome && p.config.notificationThread.isNone then (m, some .thread)
    else match pollSessions h t p m p.config.sessions with
      | (m, some e) => (m, some e)
      | (m, none) => match p.notify with
        | none => (m, none)
        | some queue =>
          if p.config.repairPaused then (m, none) else deliver queue m m.state.pendingNotifications

/-- What a poll leaves on disk. -/
def after (h : Host) (t : Texts) (p : Poll) (d : Disk) : Disk := (watchOnce h t p d).1.writes.foldl Disk.write d

/-- What a poll leaves on disk that is killed after some writes. -/
def crashed (h : Host) (t : Texts) (p : Poll) (d : Disk) (writes : ℕ) : Disk :=
  ((watchOnce h t p d).1.writes.take writes).foldl Disk.write d

/-! ## Runs -/

/-- A poll of a run. It may be killed after some writes. -/
structure Step where
  poll : Poll
  crash : Option ℕ

/-- What a step leaves on disk. -/
def Step.disk (h : Host) (t : Texts) (x : Step) (d : Disk) : Disk :=
  match x.crash with
  | none => after h t x.poll d
  | some writes => crashed h t x.poll d writes

/-- The disk after some steps. -/
def disks (h : Host) (t : Texts) (steps : ℕ → Step) : ℕ → Disk
  | 0 => .new
  | n + 1 => (steps n).disk h t (disks h t steps n)

/-- Transcripts that only grew at their end. -/
def Grows (files files' : Str → Option File) : Prop :=
  ∀ path file, files path = some file →
    ∃ file', files' path = some file' ∧ file'.identity = file.identity ∧ file.bytes <+: file'.bytes

end Watch

end Arhugula
