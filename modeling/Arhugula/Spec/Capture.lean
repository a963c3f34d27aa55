import Arhugula.Reentrant.Machine

/-!
# Command capture (`runtime/voice/capture.py`)

A `CommandCapture` records the frames that it is fed until a limit is reached. Its methods run under a
re-entrant lock, and its observer may call them again; while it is notified they are refused.
-/

namespace Arhugula

namespace Capture

open Reentrant

/-! ## Records -/

/-- `BYTES_PER_MS`. -/
def bytesPerMs : ℕ := 32

abbrev Bytes := List UInt8

/-- `Frame`. -/
structure Frame where
  pcm : Bytes
  speech : Bool
  nonempty : pcm ≠ []
  whole : bytesPerMs ∣ pcm.length
  deriving DecidableEq

/-- `CaptureConfig`. -/
structure CaptureConfig where
  maxMs : ℕ
  initialSilenceMs : ℕ
  shortSilenceMs : ℕ
  longSilenceMs : ℕ
  longUtteranceMs : ℕ
  positive : ∀ value ∈ [maxMs, initialSilenceMs, shortSilenceMs, longSilenceMs, longUtteranceMs], 0 < value
  bounded : ∀ value ∈ [initialSilenceMs, shortSilenceMs, longSilenceMs, longUtteranceMs], value ≤ maxMs
  deriving DecidableEq

/-- `CaptureConfig()`. -/
def CaptureConfig.default : CaptureConfig := ⟨15000, 3000, 700, 400, 2000, by decide, by decide⟩

/-- The state of a capture. -/
inductive State where
  | idle | recording | processing
  deriving DecidableEq

def State.text : State → String
  | idle => "idle"
  | recording => "recording"
  | processing => "processing"

/-- The status of a result. -/
inductive Status where
  | idle | recording | processing | canceled | blocked | failed
  deriving DecidableEq

/-- The reason of a result. -/
inductive Reason where
  | started | recording | initialSilence | maxDuration | silence | canceled | completed | staleToken
  | invalidFrame | observationFailed | busy
  | refused (state : State)
  deriving DecidableEq

def Reason.text : Reason → String
  | started => "started"
  | recording => "recording"
  | initialSilence => "initial-silence"
  | maxDuration => "max-duration"
  | silence => "silence"
  | canceled => "canceled"
  | completed => "completed"
  | staleToken => "stale-token"
  | invalidFrame => "invalid-frame"
  | observationFailed => "observation-failed"
  | busy => "capture.busy"
  | refused state => "capture." ++ state.text

/-- `CaptureResult`. -/
structure CaptureResult where
  status : Status
  reason : Reason
  token : Option String
  audio : Bytes := []
  deriving DecidableEq

/-- The phase of a notice: `capture.started` and so on. -/
inductive Phase where
  | started | recording | finished | canceled | completed
  deriving DecidableEq

/-- `CaptureNotice`. -/
structure CaptureNotice where
  token : Option String
  phase : Phase
  status : Status
  reason : Reason
  deriving DecidableEq

/-- A `CommandCapture`. -/
structure CommandCapture where
  config : CaptureConfig
  state : State
  token : Option String
  buffer : Bytes
  speechMs : ℕ
  silenceMs : ℕ
  heardSpeech : Bool
  notifying : Bool
  deriving DecidableEq

namespace CommandCapture

/-- A new capture. -/
def new (config : CaptureConfig) : CommandCapture := ⟨config, .idle, none, [], 0, 0, false, false⟩

/-- The bytes of the longest recording. -/
def limit (config : CaptureConfig) : ℕ := config.maxMs * bytesPerMs

/-- `_notifying = b`. -/
def notify (b : Bool) (c : CommandCapture) : CommandCapture := { c with notifying := b }

/-- `_discard`. -/
def discard (c : CommandCapture) : CommandCapture :=
  { c with state := .idle, token := none, buffer := [], speechMs := 0, silenceMs := 0, heardSpeech := false }

/-- The start of a recording. -/
def start (token : String) (c : CommandCapture) : CommandCapture := { c with state := .recording, token := some token }

/-- The end of a recording. -/
def stop (c : CommandCapture) : CommandCapture := { c with state := .processing }

/-- `frame.pcm[:remaining]`. -/
def included (c : CommandCapture) (frame : Frame) : Bytes := frame.pcm.take (limit c.config - c.buffer.length)

/-- What `feed` takes of a frame. -/
def extend (frame : Frame) (c : CommandCapture) : CommandCapture :=
  let elapsed := (c.included frame).length / bytesPerMs
  { c with
    buffer := c.buffer ++ c.included frame
    speechMs := if frame.speech then c.speechMs + elapsed else c.speechMs
    silenceMs := if frame.speech then 0 else c.silenceMs + elapsed
    heardSpeech := c.heardSpeech || frame.speech }

/-- The silence that ends an utterance. -/
def silenceLimit (c : CommandCapture) : ℕ :=
  if c.config.longUtteranceMs ≤ c.speechMs then c.config.longSilenceMs else c.config.shortSilenceMs

/-- `_result`. -/
def result (status : Status) (reason : Reason) (audio : Bytes) (c : CommandCapture) : CaptureResult :=
  ⟨status, reason, c.token, audio⟩

/-- `_blocked`. -/
def blocked (reason : Reason) (c : CommandCapture) : CaptureResult := c.result .blocked reason []

end CommandCapture

/-! ## Callbacks -/

/-- The observer. -/
inductive Op where
  | observe (notice : CaptureNotice)
  deriving DecidableEq

/-- It returns, or it raises an `Exception`, or what is none. -/
inductive Answer where
  | returned
  | raised (interrupt : Bool)
  deriving DecidableEq

/-- What a method raises. -/
inductive Exc where
  | interrupt
  deriving DecidableEq

/-- A body of the capture. -/
abbrev CM (α : Type) := Prog CommandCapture Op Answer Exc α

/-- `self.observe(notice)`: whether it returned. -/
def observe (notice : CaptureNotice) : CM Bool := do
  match ← Prog.ask (Op.observe notice) with
  | .returned => pure true
  | .raised false => pure false
  | .raised true => throw .interrupt

/-- `_notify`. -/
def notify (phase : Phase) (result : CaptureResult) : CM Bool := do
  Prog.write (·.notify true)
  (observe ⟨result.token, phase, result.status, result.reason⟩).lastly (Prog.write (·.notify false))

/-- `_observed`. -/
def observed (phase : Phase) (result : CaptureResult) : CM CaptureResult := do
  if ← notify phase result then pure result
  else do
    Prog.write .discard
    pure ⟨.failed, .observationFailed, result.token, []⟩

/-- `_discard`, and the token that it returns. -/
def discard : CM (Option String) := do
  let token ← Prog.read (·.token)
  Prog.write .discard
  pure token

/-! ## Methods -/

/-- `key_equal`. The token is what `uuid4` gives. -/
def keyEqual (token : String) : CM CaptureResult := do
  let c ← Prog.read id
  if c.notifying then pure (c.blocked .busy)
  else if c.state ≠ .idle then pure (c.blocked .busy)
  else do
    Prog.write (.start token)
    observed .started ⟨.recording, .started, some token, []⟩

/-- `_discard`, and the result that says so. -/
def drop (phase : Phase) (status : Status) (reason : Reason) : CM CaptureResult := do
  let token ← discard
  observed phase ⟨status, reason, token, []⟩

/-- `_finish`. -/
def finish (reason : Reason) : CM CaptureResult := do
  let c ← Prog.read id
  if !c.heardSpeech then drop .finished .idle .initialSilence
  else do
    Prog.write .stop
    observed .finished (c.result .processing reason c.buffer)

/-- `feed`. `none` is what is not a `Frame`. -/
def feed : Option Frame → CM CaptureResult
  | none => do
    let c ← Prog.read id
    if c.notifying then pure (c.blocked .busy)
    else do
      if c.state ≠ .idle then Prog.write .discard
      pure ⟨.failed, .invalidFrame, c.token, []⟩
  | some frame => do
    let c ← Prog.read id
    if c.notifying then pure (c.blocked .busy)
    else if c.state ≠ .recording then pure (c.blocked (.refused c.state))
    else do
      Prog.write (.extend frame)
      let c ← Prog.read id
      if c.buffer.length = CommandCapture.limit c.config then finish .maxDuration
      else if !c.heardSpeech && c.config.initialSilenceMs ≤ c.silenceMs then
        drop .finished .idle .initialSilence
      else if c.heardSpeech && c.silenceLimit ≤ c.silenceMs then finish .silence
      else observed .recording (c.result .recording .recording [])

/-- `cancel`. -/
def cancel : CM CaptureResult := do
  let c ← Prog.read id
  if c.notifying then pure (c.blocked .busy)
  else if c.state = .idle then pure (c.blocked (.refused c.state))
  else drop .canceled .canceled .canceled

/-- `complete`. -/
def complete (token : Option String) : CM CaptureResult := do
  let c ← Prog.read id
  if c.notifying then pure (c.blocked .busy)
  else if c.state ≠ .processing || token ≠ c.token then pure (c.blocked .staleToken)
  else drop .completed .idle .completed

/-! ## The machine -/

/-- A call of a method. -/
inductive Method where
  | keyEqual (token : String)
  | feed (frame : Option Frame)
  | cancel
  | complete (token : Option String)
  deriving DecidableEq

/-- A call, run. -/
def body : Method → CM CaptureResult
  | .keyEqual token => keyEqual token
  | .feed frame => feed frame
  | .cancel => cancel
  | .complete token => complete token

/-- The capture. Its observer may call it as it likes. -/
def machine : Machine CommandCapture Op Answer Exc Method CaptureResult where
  body := body
  enter := fun _ _ _ => true

end Capture

end Arhugula
