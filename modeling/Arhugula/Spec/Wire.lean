import Arhugula.Spec.Contracts

/-!
# The gateway wire format (`runtime/gateway/wire.py`, `schemas/gateway-v1.json`)

Requests, replies, and the boundary between them and their bytes. `_check` is spelt out
for the definitions of the packaged schema: a definition that is only checked is a
`Bool`, one whose value is also taken apart gives the record it makes.

The JSON text and base64 are a parameter (`Codec`). A value that no accepted document can
hold (an infinite float, a lone surrogate) is not told apart from text that is no JSON.
-/

namespace Arhugula

namespace Gateway

abbrev Bytes := List UInt8

/-- The codecs of the Python library. -/
structure Codec where
  /-- `json.loads(raw.decode("utf-8"))`, with every member of every object. `NaN` and the
  infinities are refused. -/
  loads : Bytes → Option Json
  /-- `json.dumps(doc, ensure_ascii=False, separators=(",", ":")).encode("utf-8")` -/
  dumps : Json → Bytes
  /-- `base64.b64decode(text, validate=True)` -/
  b64decode : String → Option Bytes
  /-- `base64.b64encode(data).decode()` -/
  b64encode : Bytes → String

/-- `$defs/code`: the codes of a `GatewayError`. -/
inductive Code where
  | authentication | identity | invalidRequest | invalidResponse | unavailable | providerFailed
  | timeout | canceled | replay | exhausted | busy | cleanup | clock | staleCatalog
  deriving DecidableEq, Repr

def Code.text : Code → String
  | .authentication => "authentication"
  | .identity => "identity"
  | .invalidRequest => "invalid_request"
  | .invalidResponse => "invalid_response"
  | .unavailable => "unavailable"
  | .providerFailed => "provider_failed"
  | .timeout => "timeout"
  | .canceled => "canceled"
  | .replay => "replay"
  | .exhausted => "exhausted"
  | .busy => "busy"
  | .cleanup => "cleanup"
  | .clock => "clock"
  | .staleCatalog => "stale_catalog"

/-- The code of a text in the enumeration. -/
def Code.find (s : String) : Option Code :=
  [Code.authentication, .identity, .invalidRequest, .invalidResponse, .unavailable,
    .providerFailed, .timeout, .canceled, .replay, .exhausted, .busy, .cleanup, .clock,
    .staleCatalog].find? fun c => c.text = s

/-- `GatewayError(code).code`. -/
def Code.ofText (s : String) : Code := (Code.find s).getD .invalidResponse

/-- The services of the gateway. -/
inductive Service where
  | llm | evaluator | tts
  deriving DecidableEq, Repr

def Service.text : Service → String
  | .llm => "llm"
  | .evaluator => "evaluator"
  | .tts => "tts"

/-! ## Limits -/

def requestLimit : ℕ := 65536
def textLimit : ℕ := 32768
def textResponseLimit : ℕ := 65536
def audioResponseLimit : ℕ := 1048576
def depthLimit : ℕ := 8
def nodesLimit : ℕ := 4096
def historyLimit : ℕ := 4096
def pcmLimit : ℕ := 480000

/-! ## Records -/

/-- `Candidate`. -/
structure Candidate where
  candidateId : String
  text : String
  deriving DecidableEq

/-- `LlmInput`, `EvaluationInput` or `SpeechInput`. -/
inductive Payload where
  | llm (text context : String) (candidates : List String)
  | evaluation (context : String) (candidates : List Candidate)
  | speech (text voice : String)
  deriving DecidableEq

/-- `Request`. -/
structure Request where
  requestId : String
  providerId : String
  modelVersion : String
  catalogVersion : ℤ
  budgetMs : ℤ
  payload : Payload
  deriving DecidableEq

def Request.service (r : Request) : Service :=
  match r.payload with
  | .llm .. => .llm
  | .evaluation .. => .evaluator
  | .speech .. => .tts

/-- `Score`. The score is a number of either type. -/
structure Score where
  candidateId : String
  score : Json
  deriving DecidableEq

/-- `LlmOutput`, `EvaluationOutput` or `SpeechOutput`. -/
inductive Output where
  | llm (text : String) (candidateId : Option String)
  | evaluation (scores : List Score) (selectedId : Option String)
  | speech (pcm : Bytes)
  deriving DecidableEq

/-- `Reply`: an output, or a `RemoteError`. -/
inductive Reply where
  | output (o : Output)
  | error (code : Code)
  deriving DecidableEq

/-! ## Documents -/

mutual

/-- The values in a document. -/
def nodes : Json → ℕ
  | .arr items => 1 + nodesOfItems items
  | .obj members => 1 + nodesOfMembers members
  | _ => 1

def nodesOfItems : List Json → ℕ
  | [] => 0
  | x :: xs => nodes x + nodesOfItems xs

def nodesOfMembers : List (String × Json) → ℕ
  | [] => 0
  | (_, x) :: xs => nodes x + nodesOfMembers xs

end

mutual

/-- How deep a document is nested. -/
def depth : Json → ℕ
  | .arr [] => 0
  | .arr (x :: xs) => 1 + depthOfItems (x :: xs)
  | .obj [] => 0
  | .obj (x :: xs) => 1 + depthOfMembers (x :: xs)
  | _ => 0

def depthOfItems : List Json → ℕ
  | [] => 0
  | x :: xs => max (depth x) (depthOfItems xs)

def depthOfMembers : List (String × Json) → ℕ
  | [] => 0
  | (_, x) :: xs => max (depth x) (depthOfMembers xs)

end

mutual

/-- `pairs`: no object has a key twice. -/
def uniqueKeys : Json → Bool
  | .arr items => uniqueKeysOfItems items
  | .obj members => decide (members.map Prod.fst).Nodup && uniqueKeysOfMembers members
  | _ => true

def uniqueKeysOfItems : List Json → Bool
  | [] => true
  | x :: xs => uniqueKeys x && uniqueKeysOfItems xs

def uniqueKeysOfMembers : List (String × Json) → Bool
  | [] => true
  | (_, x) :: xs => uniqueKeys x && uniqueKeysOfMembers xs

end

mutual

/-- `_text_size`. -/
def textSize : Json → ℕ
  | .str s => s.utf8ByteSize
  | .arr items => textSizeOfItems items
  | .obj members => textSizeOfMembers members
  | _ => 0

def textSizeOfItems : List Json → ℕ
  | [] => 0
  | x :: xs => textSize x + textSizeOfItems xs

def textSizeOfMembers : List (String × Json) → ℕ
  | [] => 0
  | (_, x) :: xs => textSize x + textSizeOfMembers xs

end

/-- `_load`. `none` stands for a value that is not bytes. -/
def load (codec : Codec) (raw : Option Bytes) (limit : ℕ) : Option Json := do
  let raw ← raw
  if limit < raw.length then none
  else do
    let value ← codec.loads raw
    if uniqueKeys value && decide (depth value ≤ depthLimit) && decide (nodes value ≤ nodesLimit) then
      some value
    else none

/-- A document that was loaded is the text's. -/
theorem load_loads {codec : Codec} {raw : Option Bytes} {limit : ℕ} {doc : Json}
    (h : load codec raw limit = some doc) : ∃ b, raw = some b ∧ codec.loads b = some doc := by
  cases raw with
  | none => cases h
  | some b =>
    simp only [load, Option.bind_eq_bind, Option.bind_some] at h
    split at h
    · cases h
    obtain ⟨v, hv, h⟩ := Option.bind_eq_some_iff.1 h
    split at h
    · cases h
      exact ⟨b, rfl, hv⟩
    · cases h

/-! ## Schemas -/

/-- An object with exactly these keys. -/
def closed (keys : List String) : Json → Option (Mapping Json)
  | .obj members =>
    if members.all (fun m => keys.contains m.1) && keys.all (fun k => members.any fun m => m.1 = k) then
      some members
    else none
  | _ => none

/-- `$defs/text`. -/
def text : Json → Option String
  | .str s => some s
  | _ => none

/-- `$defs/id`. -/
def ident : Json → Option String
  | .str s => if isId s then some s else none
  | _ => none

/-- `$defs/revision`. -/
def revision : Json → Option ℤ
  | .int i => if 1 ≤ i ∧ i ≤ 9007199254740991 then some i else none
  | _ => none

/-- `$defs/service`. -/
def service : Json → Option Service
  | .str s => [Service.llm, .evaluator, .tts].find? fun v => v.text = s
  | _ => none

/-- `$defs/member`. -/
def member : Json → Option (Option String)
  | .null => some none
  | v => (ident v).map some

/-- An array of bounded length. -/
def array {α : Type} (least most : ℕ) (item : Json → Option α) : Json → Option (List α)
  | .arr items => if least ≤ items.length ∧ items.length ≤ most then items.mapM item else none
  | _ => none

/-- `$defs/llm_input`. -/
def llmInput (v : Json) : Option Payload := do
  let m ← closed ["text", "context", "candidates"] v
  let candidates ← array 0 32 ident (← m.get "candidates")
  if candidates.Nodup then pure (.llm (← text (← m.get "text")) (← text (← m.get "context")) candidates)
  else none

/-- `$defs/candidate`. -/
def candidate (v : Json) : Option Candidate := do
  let m ← closed ["candidate_id", "text"] v
  pure ⟨← ident (← m.get "candidate_id"), ← text (← m.get "text")⟩

/-- `$defs/evaluator_input`, and `_unique` of its candidates. -/
def evaluatorInput (v : Json) : Option Payload := do
  let m ← closed ["context", "candidates"] v
  let candidates ← array 1 32 candidate (← m.get "candidates")
  if (candidates.map Candidate.candidateId).Nodup then
    pure (.evaluation (← text (← m.get "context")) candidates)
  else none

/-- `$defs/tts_input`. -/
def ttsInput (v : Json) : Option Payload := do
  let m ← closed ["text", "voice"] v
  let s ← text (← m.get "text")
  if s ≠ "" then pure (.speech s (← ident (← m.get "voice"))) else none

/-- `$defs/score`. -/
def score (v : Json) : Option Score := do
  let m ← closed ["candidate_id", "score"] v
  let s ← m.get "score"
  match s with
  | .int i => if 0 ≤ i ∧ i ≤ 1 then pure ⟨← ident (← m.get "candidate_id"), s⟩ else none
  | .float q => if 0 ≤ q ∧ q ≤ 1 then pure ⟨← ident (← m.get "candidate_id"), s⟩ else none
  | _ => none

/-! ## Requests -/

/-- `_envelope`. -/
def envelope (r : Request) : Mapping Json :=
  [("version", .int 1), ("request_id", .str r.requestId), ("service", .str r.service.text),
    ("provider_id", .str r.providerId), ("model_version", .str r.modelVersion),
    ("catalog_version", .int r.catalogVersion)]

/-- `parse_request`. -/
def decodeRequest (doc : Json) : Option Request := do
  let m ← closed ["version", "request_id", "service", "provider_id", "model_version",
    "catalog_version", "budget_ms", "payload"] doc
  let kind ← service (← m.get "service")
  let raw ← m.get "payload"
  let payload ← match kind with
    | .llm => llmInput raw
    | .evaluator => evaluatorInput raw
    | .tts => ttsInput raw
  match m.get "version", m.get "budget_ms" with
  | some (.int 1), some (.int budget) =>
    if 1 ≤ budget ∧ budget ≤ 30000 ∧ textSize raw ≤ textLimit then
      pure
        { requestId := ← ident (← m.get "request_id")
          providerId := ← ident (← m.get "provider_id")
          modelVersion := ← ident (← m.get "model_version")
          catalogVersion := ← revision (← m.get "catalog_version")
          budgetMs := budget
          payload := payload }
    else none
  | _, _ => none

/-- `parse_request`. -/
def parseRequest (codec : Codec) (raw : Option Bytes) : Except Code Request :=
  match (load codec raw requestLimit).bind decodeRequest with
  | some r => .ok r
  | none => .error .invalidRequest

/-- `asdict(request.payload)`. -/
def Payload.document : Payload → Json
  | .llm text context candidates =>
    .obj [("text", .str text), ("context", .str context), ("candidates", .arr (candidates.map .str))]
  | .evaluation context candidates =>
    .obj [("context", .str context), ("candidates", .arr (candidates.map fun c =>
      .obj [("candidate_id", .str c.candidateId), ("text", .str c.text)]))]
  | .speech text voice => .obj [("text", .str text), ("voice", .str voice)]

/-- `request_bytes`. `none` stands for a value that is no request. -/
def requestBytes (codec : Codec) (request : Option Request) : Except Code Bytes :=
  match request with
  | none => .error .invalidRequest
  | some r =>
    let raw := codec.dumps (.obj (envelope r ++
      [("budget_ms", .int r.budgetMs), ("payload", r.payload.document)]))
    match parseRequest codec (some raw) with
    | .ok _ => .ok raw
    | .error e => .error e

/-! ## Responses -/

/-- `$defs/llm_output`, for a request with these candidates. -/
def llmOutput (candidates : List String) (v : Json) : Option Output := do
  let m ← closed ["text", "candidate_id"] v
  let selected ← member (← m.get "candidate_id")
  if selected.all fun s => candidates.contains s then
    pure (.llm (← text (← m.get "text")) selected)
  else none

/-- `$defs/evaluator_output`, for a request with these candidates. -/
def evaluatorOutput (candidates : List String) (v : Json) : Option Output := do
  let m ← closed ["scores", "selected_id"] v
  let scores ← array 1 32 score (← m.get "scores")
  let ids := scores.map Score.candidateId
  let selected ← member (← m.get "selected_id")
  if ids.Nodup ∧ (∀ s ∈ ids, s ∈ candidates) ∧ (∀ s ∈ candidates, s ∈ ids)
      ∧ selected.all fun s => ids.contains s then
    pure (.evaluation scores selected)
  else none

/-- `$defs/tts_output`, and the audio in it. -/
def ttsOutput (codec : Codec) (v : Json) : Option Output := do
  let m ← closed ["pcm_b64", "sample_rate", "channels", "sample_width"] v
  let encoded ← text (← m.get "pcm_b64")
  if encoded.length < 4 ∨ m.get "sample_rate" ≠ some (.int 24000)
      ∨ m.get "channels" ≠ some (.int 1) ∨ m.get "sample_width" ≠ some (.int 2) then none
  else do
    let pcm ← codec.b64decode encoded
    if 0 < pcm.length ∧ pcm.length ≤ pcmLimit ∧ pcm.length % 2 = 0 ∧ codec.b64encode pcm = encoded then
      pure (.speech pcm)
    else none

/-- `parse_response`: the result of a reply to this request. -/
def decodeResult (codec : Codec) (request : Request) (v : Json) : Option Output :=
  match request.payload with
  | .llm _ _ candidates => llmOutput candidates v
  | .evaluation _ candidates => evaluatorOutput (candidates.map Candidate.candidateId) v
  | .speech .. => ttsOutput codec v

/-- The document has the envelope of the request. -/
def matchesEnvelope (request : Request) (m : Mapping Json) : Bool :=
  (envelope request).all fun item => m.get item.1 = some item.2

/-- The members of an object. -/
def members : Json → Option (Mapping Json)
  | .obj m => some m
  | _ => none

/-- The fields that every response has. -/
def responseFields : List String :=
  ["version", "request_id", "service", "provider_id", "model_version", "catalog_version", "status"]

/-- `parse_response`. -/
def decodeResponse (codec : Codec) (request : Request) (doc : Json) : Option Reply := do
  let m ← members doc
  let _ ← ident (← m.get "request_id")
  let _ ← ident (← m.get "provider_id")
  let _ ← ident (← m.get "model_version")
  let _ ← revision (← m.get "catalog_version")
  let _ ← service (← m.get "service")
  if !matchesEnvelope request m then none
  else match m.get "status" with
    | some (.str "error") => do
      let _ ← closed (responseFields ++ ["code"]) doc
      let code ← text (← m.get "code")
      (Code.find code).map .error
    | some (.str "ok") => do
      let _ ← closed (responseFields ++ ["result"]) doc
      (decodeResult codec request (← m.get "result")).map .output
    | _ => none

/-- `parse_response`. -/
def parseResponse (codec : Codec) (raw : Option Bytes) (request : Request) : Except Code Reply :=
  let limit := if request.service = .tts then audioResponseLimit else textResponseLimit
  match (load codec raw limit).bind (decodeResponse codec request) with
  | some r => .ok r
  | none => .error .invalidResponse

/-- `null` for no value. -/
def optional : Option String → Json
  | none => .null
  | some s => .str s

/-- The result that is written of a reply: `asdict(reply)`, or the audio. -/
def Output.document (codec : Codec) : Output → Json
  | .llm text candidateId => .obj [("text", .str text), ("candidate_id", optional candidateId)]
  | .evaluation scores selectedId =>
    .obj [("scores", .arr (scores.map fun s => .obj [("candidate_id", .str s.candidateId), ("score", s.score)])),
      ("selected_id", optional selectedId)]
  | .speech pcm =>
    .obj [("pcm_b64", .str (codec.b64encode pcm)), ("sample_rate", .int 24000), ("channels", .int 1), ("sample_width", .int 2)]

/-- The document of a reply. -/
def Reply.document (codec : Codec) (request : Request) : Reply → Json
  | .error code => .obj (envelope request ++ [("status", .str "error"), ("code", .str code.text)])
  | .output o => .obj (envelope request ++ [("status", .str "ok"), ("result", o.document codec)])

/-- `response_bytes`. `none` stands for a value that is no reply, such as an error with another code. -/
def responseBytes (codec : Codec) (request : Request) (reply : Option Reply) : Except Code Bytes :=
  match reply with
  | none => .error .invalidResponse
  | some r =>
    let raw := codec.dumps (r.document codec request)
    match parseResponse codec (some raw) request with
    | .ok _ => .ok raw
    | .error e => .error e

/-- **A reply has the envelope of its request.** -/
theorem parseResponse_envelope {codec : Codec} {raw : Option Bytes} {request : Request} {r : Reply}
    (h : parseResponse codec raw request = .ok r) :
    ∃ b m, raw = some b ∧ codec.loads b = some (.obj m) ∧ matchesEnvelope request m = true := by
  unfold parseResponse at h
  dsimp only at h
  split at h
  swap
  · cases h
  rename_i r' hr
  obtain ⟨doc, hdoc, hdecode⟩ := Option.bind_eq_some_iff.1 hr
  obtain ⟨b, hb, hl⟩ := load_loads hdoc
  simp only [decodeResponse, Option.bind_eq_bind, Option.bind_eq_some_iff] at hdecode
  obtain ⟨m, hm, _, -, _, -, _, -, _, -, _, -, _, -, _, -, _, -, _, -, _, -, hdecode⟩ := hdecode
  have hobj : doc = .obj m := by
    cases doc <;> cases hm
    rfl
  rw [hobj] at hl
  refine ⟨b, m, hb, hl, ?_⟩
  by_contra hne
  rw [Bool.not_eq_true] at hne
  rw [hne] at hdecode
  cases hdecode

end Gateway

end Arhugula
