import Mathlib.Data.List.Lex
import Mathlib.Data.Rat.Defs

/-!
# Transcripts (`ops/orchestration/session_context.py`)

What is measured of a session from its transcript, a file of JSON lines that grows at its end. `feed` takes one record;
`scan` takes what a file has beyond an offset, and ends before a last line that is not complete yet.

A Python `str` is its list of code points, lone surrogates included. A dict is its members; their order is not
observed. What parses a line and what hashes an identifier are parameters.
-/

namespace Arhugula

namespace Watch

/-! ## Values -/

/-- A Python `str`. -/
abbrev Str := List ℕ

/-- A literal. -/
def str (s : String) : Str := s.toList.map Char.toNat

/-- A value that `json.loads` returns. -/
inductive Json where
  | null
  | bool (b : Bool)
  | int (i : ℤ)
  | float (q : ℚ)
  | infinity (negative : Bool)
  | nan
  | str (s : Str)
  | list (items : List Json)
  | dict (members : List (Str × Json))

namespace Json

/-- `isinstance(value, dict)`. -/
def isDict : Json → Bool
  | dict _ => true
  | _ => false

/-- `value[key]`, of a dict that has the key. -/
def find (v : Json) (key : String) : Option Json :=
  match v with
  | dict members => (members.find? fun m => m.1 = Watch.str key).map Prod.snd
  | _ => none

/-- `value.get(key)`, of a dict. -/
def get (v : Json) (key : String) : Json := (v.find key).getD null

/-- `bool(value)`. -/
def truthy : Json → Bool
  | null => false
  | bool b => b
  | int i => i ≠ 0
  | float q => q ≠ 0
  | infinity _ => true
  | nan => true
  | str s => s ≠ []
  | list items => !items.isEmpty
  | dict members => !members.isEmpty

/-- `a or b`. -/
def or (a b : Json) : Json := if a.truthy then a else b

/-- `hash(value)` does not raise. -/
def hashable : Json → Bool
  | list _ | dict _ => false
  | _ => true

/-- A number. -/
def number : Json → Option ℚ
  | bool b => some (if b then 1 else 0)
  | int i => some i
  | float q => some q
  | _ => none

/-- `a == b`, of values that can be hashed. Every `NaN` that was parsed is the same object, which a set finds. -/
def same (a b : Json) : Bool :=
  match a.number, b.number with
  | some x, some y => x = y
  | none, none => match a, b with
    | null, null => true
    | infinity m, infinity n => m = n
    | nan, nan => true
    | str s, str t => s = t
    | _, _ => false
  | _, _ => false

/-- `_nonnegative`. -/
def nonnegative : Json → Option ℕ
  | int i => if 0 ≤ i then some i.toNat else none
  | _ => none

/-- A string. -/
def text : Json → Option Str
  | str s => some s
  | _ => none

/-- A string that is not empty. -/
def nonempty (v : Json) : Option Str := v.text.filter fun s => s ≠ []

end Json

/-- What is raised. Each text of a `ValueError` is one of the first. -/
inductive Exc where
  | recordType
  | truncatedRecord (start : ℕ)
  | invalidJson (start : ℕ)
  | disappeared (role : Str)
  | replaced (role : Str)
  | truncated (role : Str)
  | thread
  | state
  | notification
  -- what is raised otherwise
  | loads
  | encode
  | type
  | attribute
  | key (name : String)
  | index
  deriving DecidableEq

/-- `json.loads` of a line: what it raises is a `UnicodeDecodeError` or a `JSONDecodeError`, or not.
`hashlib.sha256(..).hexdigest()` of the UTF-8 of a text. -/
structure Host where
  loads : List UInt8 → Except Bool Json
  sha256 : Str → Str

/-! ## Summaries -/

inductive Kind where
  | codex | claude
  deriving DecidableEq, Repr

inductive Status where
  | unknown | active | complete
  deriving DecidableEq, Repr

inductive MetricError where
  | invalidContextWindow | conflictingContextWindow | invalidRequestMetric | missingResponseId
  deriving DecidableEq, Repr

/-- A compaction. -/
structure Compaction where
  time : Option Str
  preTokens : Option ℕ
  postTokens : Option ℕ
  trigger : Option Str
  deriving DecidableEq

/-- `STARTUP_FIELDS`. -/
structure Startup where
  estimatedConsumedContextTokens : Option ℕ
  reportedContextWindowTokens : Option ℕ
  metricError : Option MetricError
  deriving DecidableEq

/-- `dict.fromkeys(STARTUP_FIELDS)`. -/
def Startup.none : Startup := ⟨Option.none, Option.none, Option.none⟩

/-- What records change. -/
structure State where
  kind : Kind
  sessionId : Option Str
  identityConflict : Bool
  model : Option Str
  effort : Json
  lastActivity : Option Str
  status : Status
  latestRequestInputTokens : Option ℕ
  latestResponseOutputTokens : Option ℕ
  estimatedConsumedContextTokens : Option ℕ
  cachedInputTokens : Option ℕ
  reportedContextWindowTokens : Option ℕ
  metricError : Option MetricError
  compactions : List Compaction
  completionTimes : List Json
  completionCount : ℕ
  observedResponses : ℕ
  startup : Startup
  seenResponseHashes : List Str
  completedResponseHashes : List Str
  lastResponseHash : Option Str
  activeTurnId : Json
  lastCodexCompaction : Bool

/-- A summary: `partial_tail` and `compaction_count` are set by a scan, and no record reads or changes them. The count
is no member before the first scan. -/
structure Summary where
  state : State
  partialTail : Bool
  compactionCount : Option ℕ

/-- `_fresh`, what records change of it. -/
def State.fresh (kind : Kind) : State where
  kind := kind
  sessionId := none
  identityConflict := false
  model := none
  effort := .null
  lastActivity := none
  status := .unknown
  latestRequestInputTokens := none
  latestResponseOutputTokens := none
  estimatedConsumedContextTokens := none
  cachedInputTokens := none
  reportedContextWindowTokens := none
  metricError := none
  compactions := []
  completionTimes := []
  completionCount := 0
  observedResponses := 0
  startup := .none
  seenResponseHashes := []
  completedResponseHashes := []
  lastResponseHash := none
  activeTurnId := .null
  lastCodexCompaction := false

/-- `_fresh`. -/
def Summary.fresh (kind : Kind) : Summary := ⟨.fresh kind, false, none⟩

namespace State

/-! ## Records -/

/-- `_identity`. -/
def identity (s : State) (value : Json) : State :=
  match value.nonempty with
  | none => s
  | some id => match s.sessionId with
    | none => { s with sessionId := some id }
    | some known => if known ≠ id then { s with identityConflict := true } else s

/-- `_activity`. -/
def activity (s : State) (value : Json) : State :=
  match value.nonempty with
  | none => s
  | some time =>
    if s.lastActivity.all fun last => last < time then { s with lastActivity := some time } else s

/-- `_window`. -/
def window (s : State) (value : Json) : State :=
  match value with
  | .null => s
  | value =>
    match value.nonnegative.filter fun n => n ≠ 0 with
    | none => { s with metricError := some .invalidContextWindow, reportedContextWindowTokens := none }
    | some n =>
      if s.reportedContextWindowTokens.any fun previous => previous ≠ n then
        { s with metricError := some .conflictingContextWindow, reportedContextWindowTokens := none }
      else if s.metricError ≠ some .invalidContextWindow ∧ s.metricError ≠ some .conflictingContextWindow then
        { s with reportedContextWindowTokens := some n }
      else s

/-- `_codex_usage`. -/
def codexUsage (s : State) (usage : Json) : State :=
  let invalid := { s with metricError := some .invalidRequestMetric, latestRequestInputTokens := none }
  if !usage.isDict then s
  else match (usage.get "input_tokens").nonnegative,
      ((usage.find "cached_input_tokens").getD (.int 0)).nonnegative with
    | some input, some cached =>
      if input < cached then invalid
      else
        let output := (usage.get "output_tokens").nonnegative
        { s with
          latestRequestInputTokens := some input
          cachedInputTokens := some cached
          latestResponseOutputTokens := output
          estimatedConsumedContextTokens := output.map fun n => input + n }
    | _, _ => invalid

/-- The four measurements of a request and its response are forgotten. -/
def unmeasured (s : State) : State :=
  { s with
    latestRequestInputTokens := none
    latestResponseOutputTokens := none
    estimatedConsumedContextTokens := none
    cachedInputTokens := none }

/-- `_claude_usage`. -/
def claudeUsage (s : State) (usage : Json) : State :=
  let invalid := { s.unmeasured with metricError := some (s.metricError.getD .invalidRequestMetric) }
  if !usage.isDict then invalid
  else match (usage.get "input_tokens").nonnegative,
      ((usage.find "cache_read_input_tokens").getD (.int 0)).nonnegative,
      ((usage.find "cache_creation_input_tokens").getD (.int 0)).nonnegative,
      (usage.get "output_tokens").nonnegative with
    | some input, some cacheRead, some cacheCreation, some output =>
      let total := input + cacheRead + cacheCreation
      { s with
        metricError := if s.metricError = some .invalidRequestMetric then none else s.metricError
        latestRequestInputTokens := some total
        cachedInputTokens := some (cacheRead + cacheCreation)
        latestResponseOutputTokens := some output
        estimatedConsumedContextTokens := some (total + output) }
    | _, _, _, _ => invalid

/-- `_compaction`. -/
def compaction (s : State) (time pre post trigger : Json) : State :=
  { s with compactions := s.compactions ++ [⟨time.text, pre.nonnegative, post.nonnegative, trigger.text⟩] }

/-- A completion. -/
def completed (s : State) (time : Json) : State :=
  { s with completionTimes := s.completionTimes ++ [time], completionCount := s.completionCount + 1 }

/-- `value.get`: only a dict has it. -/
def hasGet (v : Json) : Except Exc Json := if v.isDict then .ok v else .error .attribute

/-- `event in {..}`, of strings. -/
def among (v : Json) (names : List String) : Except Exc Bool :=
  if v.hashable then .ok (names.any fun name => v.text = some (str name)) else .error .type

/-- Is the value this string? -/
def isText (v : Json) (name : String) : Bool := v.text = some (str name)

/-- `_feed_codex`, of an `event_msg`. -/
def codexEvent (s : State) (record payload : Json) : Except Exc State := do
  let event := payload.get "type"
  if isText event "task_started" then
    pure ({ s with status := .active, activeTurnId := payload.get "turn_id" }.window (payload.get "model_context_window"))
  else if isText event "task_complete" then
    let turn := payload.get "turn_id"
    if !turn.hashable || !s.activeTurnId.hashable then throw .type
    else if s.activeTurnId.same .null || s.activeTurnId.same turn then
      pure ({ s with status := .complete, activeTurnId := .null }.completed (record.get "timestamp"))
    else pure s
  else do
    let aborted ← among event ["turn_aborted", "task_aborted", "task_failed"]
    if aborted then pure { s with status := .unknown, activeTurnId := .null }
    else if isText event "token_count" then
      let info := (payload.get "info").or (.dict [])
      if info.isDict then
        pure ((s.codexUsage (info.get "last_token_usage")).window (info.get "model_context_window"))
      else pure s
    else if isText event "context_compacted" then
      let s := if s.lastCodexCompaction then s else s.compaction (record.get "timestamp") .null .null .null
      pure { s with lastCodexCompaction := false }
    else pure s

/-- `_feed_codex`, its branches. -/
def codexRecord (s : State) (record payload : Json) : Except Exc State := do
  let kind := record.get "type"
  if isText kind "session_meta" then pure (s.window (payload.get "model_context_window"))
  else if isText kind "turn_context" then
    let s := match (payload.get "model").text with
      | some model => { s with model := some model }
      | none => s
    pure { s with effort := payload.get "effort" }
  else if isText kind "token_usage_record" then
    pure (s.codexUsage ((payload.get "usage").or (payload.get "turn_token_usage")))
  else if isText kind "compacted" then
    let prior ← hasGet ((payload.get "latest_token_usage_record").or (.dict []))
    let usage ← hasGet (((prior.get "usage").or (prior.get "turn_token_usage")).or (.dict []))
    pure { s.compaction (record.get "timestamp") (usage.get "input_tokens") .null .null with
      lastCodexCompaction := true }
  else if isText kind "event_msg" then s.codexEvent record payload
  else pure s

/-- `_feed_codex`. -/
def feedCodex (s : State) (record : Json) : Except Exc State :=
  let payload := record.get "payload"
  if !payload.isDict then .ok s
  else
    let id := if isText (record.get "type") "session_meta" then (payload.get "session_id").or (payload.get "id")
      else payload.get "session_id"
    (s.identity id).codexRecord record payload

/-- `identifier.encode()` does not raise. -/
def encodes (s : Str) : Bool := s.all fun c => !(55296 ≤ c && c ≤ 57343)

/-- `_feed_claude`: a response that was not seen before, by the digest of its identifier. -/
def responded (s : State) (digest : Str) : State :=
  if s.seenResponseHashes.contains digest then s
  else
    { s.unmeasured with
      seenResponseHashes := s.seenResponseHashes ++ [digest]
      observedResponses := s.observedResponses + 1
      lastResponseHash := some digest }

/-- `_feed_claude`: the model, the effort, and the usage. -/
def described (s : State) (record message : Json) : State :=
  let s := match (message.get "model").text with
    | some model => { s with model := some model }
    | none => s
  { s with effort := record.get "effort" }.claudeUsage (message.get "usage")

/-- `_feed_claude`: the reason why a response stopped. -/
def stopped (s : State) (record message : Json) (digest : Str) : State :=
  let stop := message.get "stop_reason"
  let status := if isText stop "end_turn" then Status.complete else if isText stop "tool_use" then .active else .unknown
  let s := { s with status := status }
  if isText stop "end_turn" && !s.completedResponseHashes.contains digest then
    { s with completedResponseHashes := s.completedResponseHashes ++ [digest] }.completed (record.get "timestamp")
  else s

/-- `_feed_claude`, of the message of an `assistant`. -/
def claudeResponse (s : State) (record message : Json) (digest : Str) : State :=
  if s.seenResponseHashes.contains digest && s.lastResponseHash ≠ some digest then s
  else ((s.responded digest).described record message).stopped record message digest

/-- `_feed_claude`, its branches. -/
def claudeRecord (h : Host) (s : State) (record : Json) : Except Exc State := do
  let kind := record.get "type"
  if isText kind "user" then pure { s with status := .active }
  else if isText kind "assistant" then
    let message := record.get "message"
    if !message.isDict then pure s
    else match (message.get "id").nonempty with
      | none => pure { s with metricError := some .missingResponseId }
      | some identifier =>
        if encodes identifier then pure (s.claudeResponse record message (h.sha256 identifier)) else throw .encode
  else if isText kind "system" then
    let subtype := record.get "subtype"
    if isText subtype "compact_boundary" then
      let metadata ← hasGet ((record.get "compactMetadata").or (.dict []))
      let s := s.compaction (record.get "timestamp") (metadata.get "preTokens") (metadata.get "postTokens")
        (metadata.get "trigger")
      pure { s.unmeasured with lastResponseHash := none }
    else do
      let failed ← among subtype ["interrupted", "turn_aborted", "task_failed"]
      pure (if failed then { s with status := .unknown } else s)
  else pure s

/-- `_feed_claude`. -/
def feedClaude (h : Host) (s : State) (record : Json) : Except Exc State :=
  (s.identity ((record.get "sessionId").or (record.get "session_id"))).claudeRecord h record

/-- What a session costs at its start, as it is known now. -/
def costs (s : State) : Startup :=
  ⟨s.estimatedConsumedContextTokens, s.reportedContextWindowTokens, s.metricError⟩

/-- `_feed`, by the kind of the transcript. -/
def feedKind (h : Host) (s : State) (record : Json) : Except Exc State :=
  match s.kind with
  | .codex => s.feedCodex record
  | .claude => s.feedClaude h record

/-- `_feed`. -/
def feed (h : Host) (s : State) (record : Json) : Except Exc State :=
  if !record.isDict then .error .recordType
  else do
    let fed ← (s.activity (record.get "timestamp")).feedKind h record
    pure (if s.completionCount = 0 ∧ fed.completionCount = 1 then { fed with startup := fed.costs } else fed)

end State

/-! ## Lines -/

/-- The lines that `readline` returns, one after the other: each ends with its newline, but for a last one that has
none. -/
def splitLines : List UInt8 → List (List UInt8)
  | [] => []
  | b :: bytes =>
    if b = 10 then [10] :: splitLines bytes
    else match splitLines bytes with
      | [] => [[b]]
      | line :: lines => (b :: line) :: lines

/-- `line.endswith(b"\n")`. -/
def ended (line : List UInt8) : Bool := line.getLast? = some 10

/-- `_scan`, of a line that begins at this byte. -/
def feedLine (h : Host) (s : State) (start : ℕ) (line : List UInt8) : Except Exc State :=
  match h.loads line with
  | .error true => .error (.invalidJson start)
  | .error false => .error .loads
  | .ok record => s.feed h record

/-- `_scan`, its loop, from this byte on: the state, `partial_tail`, and the offset. -/
def scanLines (h : Host) (s : State) (offset : ℕ) : List (List UInt8) → Except Exc (State × Bool × ℕ)
  | [] => .ok (s, false, offset)
  | line :: lines =>
    if ended line then do
      let s ← feedLine h s offset line
      scanLines h s (offset + line.length) lines
    else if s.status ≠ .active then .error (.truncatedRecord offset)
    else .ok (s, true, offset)

/-- `_scan`. -/
def scan (h : Host) (bytes : List UInt8) (prior : Summary) (offset : ℕ) : Except Exc (Summary × ℕ) := do
  let (s, partialTail, offset) ← scanLines h prior.state offset (splitLines (bytes.drop offset))
  pure (⟨s, partialTail, some s.compactions.length⟩, offset)

end Watch

end Arhugula
