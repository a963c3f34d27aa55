import Arhugula.Reentrant.Machine
import Arhugula.Spec.Capture
import Arhugula.Spec.Pcm
import Arhugula.Spec.Router
import Arhugula.Spec.Session
import Arhugula.Spec.Transcription

/-!
# The coordinator of commands (`runtime/voice/coordinator.py`)

A `Coordinator` drives one spoken command at a time: the capture is fed, the recording is transcribed, and the transcript
is routed. All that does this is injected: it may raise, and it may call the coordinator again. While a call is under way
the others do nothing, but `cancel` takes its authority back at once.

What is called of the session owner is logged like a callback, and is answered as a `SessionOwner` does (`answers`);
others share the owner. A `cancel` of another thread is two calls: what it does before it has the lock (`request`), and
what it does under the lock (`settle`). What the members of a context are is left open: contexts are compared, and handed
on.
-/

namespace Arhugula

namespace Coordinate

open Reentrant Session
open Capture (Frame CaptureResult)
open Voice (VoiceReply)

/-! ## Records -/

/-- `VoiceState`. -/
structure VoiceState (C : Type) where
  context : C
  key : String
  activationId : String
  muted : Bool
  mode : String
  deriving DecidableEq

/-- `_phase`. -/
inductive Phase where
  | idle | capturing | processing | routing | faulted
  deriving DecidableEq

/-- A float that a clock gives. -/
inductive Time where
  | finite (t : ℚ)
  | infinite | negative | nan
  deriving DecidableEq

/-- The float, so much later. -/
def Time.plus (seconds : ℚ) : Time → Time
  | .finite t => .finite (t + seconds)
  | t => t

/-- The deadline is reached: `now >= deadline`, or now is not finite. -/
def Time.reaches : Time → Time → Bool
  | .finite now, .finite deadline => deadline ≤ now
  | .finite _, .negative => true
  | .finite _, _ => false
  | _, _ => true

/-- The phase of a `VoiceObservation`. -/
inductive Observed where
  | captureStarted | captureStopped | captureCanceled | transcriptionStarted | transcriptionFinished | ownerFaulted
  deriving DecidableEq

def Observed.text : Observed → String
  | captureStarted => "capture.started"
  | captureStopped => "capture.stopped"
  | captureCanceled => "capture.canceled"
  | transcriptionStarted => "transcription.started"
  | transcriptionFinished => "transcription.finished"
  | ownerFaulted => "owner.faulted"

/-- The status of a `VoiceObservation`. -/
inductive Status where
  | recording | idle | processing | canceled | success | failed | uncertain
  deriving DecidableEq

/-- `VoiceObservation`. Its activation is named by the generation in its id. -/
structure VoiceObservation (C : Type) where
  activation : Option ℕ
  correlation : Option String
  context : C
  phase : Observed
  status : Status
  code : String
  deriving DecidableEq

/-! ## The coordinator -/

/-- What no other call changes while one is under way. -/
structure Core (C : Type) where
  busy : Bool
  generation : Option ℕ
  snapshot : Option (VoiceState C)
  job : Bool
  device : Bool
  deviceCleaned : Option Bool
  phase : Phase
  code : String
  activation : Option ℕ
  correlation : Option String
  sequence : ℕ
  framer : Option Pcm.PcmFramer
  deadline : Option Time

/-- A `Coordinator`, and the owner that it shares. -/
structure Coordinator (C : Type) extends Core C where
  valid : Bool
  requested : Bool
  pending : Option String
  confirming : Option String
  owner : SessionOwner

/-- What a coordinator is given: whether it has a device factory, and speech, and what of its observations `contracts.py`
encodes. -/
structure Setup (C : Type) where
  device : Bool
  speech : Bool
  encodes : VoiceObservation C → Bool

/-- A new coordinator. -/
def Coordinator.new {C : Type} (owner : SessionOwner) : Coordinator C where
  busy := false
  generation := none
  snapshot := none
  job := false
  device := false
  deviceCleaned := none
  phase := .idle
  code := "capture.canceled"
  activation := none
  correlation := none
  sequence := 0
  framer := none
  deadline := none
  valid := false
  requested := false
  pending := none
  confirming := none
  owner := owner

/-! ## Callbacks -/

/-- The state source, the clock, the observer, the owner, the capture, the device, the job, the speech, the voice activity
detector and the router. -/
inductive Op (C : Type) where
  | sample
  | clock
  | observe (event : VoiceObservation C)
  | begin
  | accepts (generation : ℕ)
  | invalidate (generation : ℕ)
  | release (generation : ℕ) (cleaned : Bool)
  | keyEqual
  | captureFeed (frame : Frame)
  | captureIdle
  | captureCancel
  | makeDevice
  | deviceStart
  | devicePoll
  | deviceCancel
  | makeJob
  | jobStart (audio : Pcm.Bytes) (generation : ℕ)
  | jobPoll
  | jobCancel
  | jobProven
  | speechCancel
  | speechProven
  | isSpeech (pcm : Pcm.Bytes)
  | handle (text : String)
  | answer (token : String) (text : String)
  | confirm (token : String) (channel : String) (accepted : Bool)

/-- What a callback does: it raises an `Exception`, or it gives a value of some kind. -/
inductive Answer (C : Type) where
  | raised
  | done
  | truth (b : Bool)
  | time (t : Time)
  | voice (v : VoiceState C)
  | generation (g : ℕ)
  | capture (r : CaptureResult)
  | chunks (chunks : List Pcm.Bytes)
  | transcript (r : Transcribe.TranscriptResult)
  | reply (r : VoiceReply)
  | object

/-- What is raised: a `_Stop`, a `BusyError`, a `ValueError`, or what a callback raises. -/
inductive Exc where
  | stop (code : String)
  | busy
  | value (text : String)
  | other
  deriving DecidableEq

/-- A body of the coordinator. -/
abbrev CM (C α : Type) := Prog (Coordinator C) (Op C) (Answer C) Exc α

variable {C : Type} [DecidableEq C]

/-- A callback, what it raises raised. -/
def ask (op : Op C) : CM C (Answer C) := do
  match ← Prog.ask op with
  | .raised => throw .other
  | a => pure a

/-- A callback whose answer nothing reads. -/
def perform (op : Op C) : CM C Unit := do
  let _ ← ask op
  pure ()

/-- A callback that answers `True`. -/
def proves (op : Op C) : CM C Bool := do
  match ← ask op with
  | .truth b => pure b
  | _ => pure false

/-- `self._clock()`. -/
def now : CM C Time := do
  match ← ask .clock with
  | .time t => pure t
  | _ => throw .other

/-! ## Authority -/

/-- `_sample`. -/
def sample : CM C (VoiceState C) := do
  match ← ask .sample with
  | .voice v => if v.key = "" || v.activationId = "" then throw .other else pure v
  | _ => throw .other

/-- The state that is sampled is the one that the activation was given. -/
def Coordinator.stands (s : Coordinator C) (v : Option (VoiceState C)) : Bool :=
  s.valid && !s.requested && v = s.snapshot && s.snapshot.any fun v => !v.muted && v.mode = "command"

/-- The state, if the activation is valid. -/
def look : CM C (Option (VoiceState C)) := do
  let s ← Prog.read id
  if s.valid then some <$> sample else pure none

/-- The authority of an activation, as it is now. -/
def authority : CM C Bool := do
  let v ← look
  let s ← Prog.read id
  if s.stands v then
    match s.generation with
    | none => pure true
    | some g => proves (.accepts g)
  else pure false

/-- `_current`. -/
def current : CM C Bool := do
  if ← authority.catching fun _ => pure false then pure true
  else do
    Prog.write fun s => { s with valid := false }
    pure false

/-- The deadline of the phase, if it has one. -/
def Coordinator.isLate (s : Coordinator C) (now : Time) : Except Exc Unit :=
  if s.phase = .capturing ∨ s.phase = .processing then
    match s.deadline with
    | none => .error .other
    | some deadline =>
      if now.reaches deadline then
        .error (.stop (if s.phase = .capturing then "capture.device-error" else "transcription.failed"))
      else .ok ()
  else .ok ()

/-- What is late stops. -/
def timely : CM C Unit := do
  let t ← now
  let s ← Prog.read id
  match s.isLate t with
  | .error e => throw e
  | .ok () => pure ()

/-- `_check`. -/
def check : CM C Unit := do
  if ← current then timely
  else do
    let s ← Prog.read id
    throw (.stop (if s.requested then "capture.canceled" else "context.stale"))

/-- What is observed of the activation. -/
def Coordinator.observation (s : Coordinator C) (phase : Observed) (status : Status) (code : String) :
    Option (VoiceObservation C) :=
  s.snapshot.map fun v => ⟨s.activation, s.correlation, v.context, phase, status, code⟩

/-- `_emit`. What cannot be encoded is not observed. -/
def emit (u : Setup C) (phase : Observed) (status : Status) (code : String) : CM C Unit := do
  let s ← Prog.read id
  match (s.observation phase status code).filter u.encodes with
  | none => throw (.stop "journal.unavailable")
  | some event =>
    (perform (.observe event)).catching fun _ => throw (.stop "journal.unavailable")

/-! ## Cleanup -/

/-- `_stop_device`. -/
def stopDevice : CM C Bool := do
  let s ← Prog.read id
  if !s.device then pure true
  else
    match s.deviceCleaned with
    | some cleaned => pure cleaned
    | none => do
      let cleaned ← (proves .deviceCancel).catching fun _ => pure false
      Prog.write fun s => { s with deviceCleaned := some cleaned }
      pure cleaned

/-- `_stop_speech`. -/
def stopSpeech (u : Setup C) : CM C Bool :=
  if u.speech then
    (do
      perform .speechCancel
      proves .speechProven).catching fun _ => pure false
  else pure true

/-- `_cleanup`, of the job. -/
def stopJob : CM C Bool := do
  let s ← Prog.read id
  if s.job then
    (do
      perform .jobCancel
      proves .jobProven).catching fun _ => pure false
  else pure true

/-- A capture that is under way is canceled. -/
def cancelCapture : CM C Unit := do
  if ← proves .captureIdle then pure () else perform .captureCancel

/-- `_cleanup`, of the capture. -/
def stopCapture : CM C Bool :=
  (do
    cancelCapture
    proves .captureIdle).catching fun _ => pure false

/-- `_cleanup`, of the speech. It goes on where the authority does. -/
def quiet (u : Setup C) : CM C Bool := do
  let s ← Prog.read id
  if !s.valid || s.requested then stopSpeech u else pure true

/-- `_cleanup`. -/
def cleanup (u : Setup C) : CM C Bool := do
  let device ← stopDevice
  let speech ← quiet u
  let job ← stopJob
  let capture ← stopCapture
  pure (device && speech && job && capture)

/-- `owner.release`. -/
def releaseOwner (generation : ℕ) (cleaned : Bool) : CM C Unit := do
  perform (.release generation cleaned)
  Prog.write fun s => { s with
    generation := none
    owner := (Session.step s.owner (.release (some generation) (some cleaned))).2 }

/-- What is owned is released. -/
def releaseOwned (clean : Bool) : CM C Unit := do
  match ← Prog.read (·.generation) with
  | some g => releaseOwner g clean
  | none => pure ()

/-- `_release`. -/
def release (u : Setup C) (clean : Bool) : CM C Unit := do
  releaseOwned clean
  Prog.write fun s => { s with
    job := false, device := false, framer := none, phase := if clean then .idle else .faulted }
  if clean then pure ()
  else do
    Prog.write fun s => { s with valid := false, code := "owner.cleanup-unproven" }
    (emit u .ownerFaulted .uncertain "owner.cleanup-unproven").catching fun _ => pure ()

/-- `owner.cancel`, of a generation. -/
def invalidate (generation : ℕ) : CM C Unit := do
  perform (.invalidate generation)
  Prog.write fun s => { s with owner := (Session.step s.owner (.cancel (some (some generation)))).2 }

/-- What is owned is invalidated. -/
def invalidateOwned : CM C Unit := do
  match ← Prog.read (·.generation) with
  | some g => invalidate g
  | none => pure ()

/-- `_fail`, as it is observed. -/
def lament (u : Setup C) (phase : Phase) (code : String) : CM C Unit :=
  if code = "journal.unavailable" then pure ()
  else
    (match phase with
      | .capturing => emit u .captureCanceled .canceled code
      | .processing => emit u .transcriptionFinished .canceled code
      | _ => pure ()).catching fun _ => Prog.write fun s => { s with code := "journal.unavailable" }

/-- `_fail`. -/
def fail (u : Setup C) (code : String) : CM C Unit := do
  let phase ← Prog.read (·.phase)
  Prog.write fun s => { s with valid := false, pending := none, confirming := none }
  invalidateOwned
  let clean ← cleanup u
  Prog.write fun s => { s with code := code }
  lament u phase code
  release u clean

/-- A `_Stop` fails with its code, and another exception with that of its phase. -/
def Exc.reason (e : Exc) (other : String) : String :=
  match e with
  | .stop code => code
  | _ => other

/-- What fails an activation, once it is under way. -/
def failing {α : Type} (u : Setup C) (other : Phase → String) (p : CM C (Option α)) : CM C (Option α) :=
  p.catching fun e => do
    let phase ← Prog.read (·.phase)
    fail u (e.reason (other phase))
    pure none

/-! ## Activation -/

/-- What a turn before has left of a cancellation. -/
def forget (token : Option String) : CM C Unit :=
  if token = none then Prog.write fun s => { s with requested := false } else pure ()

/-- The token is the one that is pending. -/
def Coordinator.awaits (s : Coordinator C) (token : Option String) : Bool := token = none || token = s.pending

/-- `_activate`, up to the owner. -/
def preflight (u : Setup C) (token : Option String) : CM C (VoiceState C) := do
  forget token
  if ← stopSpeech u then do
    let s ← Prog.read id
    if s.awaits token then do
      if ← (if token = none then pure true else current) then do
        let v ← sample.catching fun _ => throw (.value "trusted voice state unavailable")
        let s ← Prog.read id
        if v.muted || v.mode ≠ "command" || s.requested ||
            (token ≠ none && (!s.awaits token || !s.valid || some v ≠ s.snapshot)) then
          throw (.value "trusted voice state unavailable")
        else pure v
      else throw (.value "no current confirmation")
    else throw (.value "no current confirmation")
  else throw .busy

/-- `owner.begin('command')`. -/
def begin : CM C ℕ := do
  match ← Prog.ask .begin with
  | .generation g => do
    Prog.write fun s => { s with
      generation := some g
      owner := (Session.step s.owner (.begin (some "command"))).2 }
    pure g
  | _ => throw .busy

/-- `_device_factory`, and `start`. -/
def openDevice : CM C Unit := do
  perform .makeDevice
  Prog.write fun s => { s with device := true }
  check
  perform .deviceStart
  check

/-- The beginning of a recording. -/
def record (u : Setup C) : CM C Unit := do
  let t ← now
  Prog.write fun s => { s with deadline := some (t.plus 15) }
  emit u .captureStarted .recording "capture.started"
  check
  match ← ask .keyEqual with
  | .capture r =>
    if r.status = .recording then do
      check
      if u.device then openDevice else pure ()
    else throw (.stop "capture.device-error")
  | _ => throw .other

/-- `_activate`. The correlation is what `uuid4` gives. -/
def activateBody (u : Setup C) (token : Option String) (correlation : String) : CM C ℕ := do
  let v ← preflight u token
  let g ← begin
  Prog.write fun s => { s with
    snapshot := some v
    activation := some g
    correlation := if token = none then some correlation else s.correlation
    pending := if token = none then none else s.pending
    confirming := token
    sequence := 0
    job := false
    device := false
    deviceCleaned := none
    framer := some .new
    valid := true
    phase := .capturing
    code := "capture.started" }
  let _ ← failing u (fun _ => "capture.device-error") (some <$> record u)
  pure g

/-! ## Frames -/

/-- The place of a frame in the stream. -/
inductive Place where
  | next | past | unknown
  deriving DecidableEq

/-- The place that a sequence number gives. Without one, a frame is the next. -/
def place (expected : ℕ) : Option (Option ℤ) → Place
  | none => .next
  | some none => .unknown
  | some (some n) => if n < 0 ∨ expected < n then .unknown else if n < expected then .past else .next

/-- A recording that has ended without speech. -/
def fallSilent (u : Setup C) : CM C Unit := do
  Prog.write fun s => { s with code := "capture.initial-silence" }
  let clean ← cleanup u
  release u clean

/-- `self._job.start(result.audio, generation)`. -/
def startJob (audio : Pcm.Bytes) : CM C Unit := do
  match ← Prog.read (·.generation) with
  | some g => perform (.jobStart audio g)
  | none => throw .other

/-- A recording that is transcribed. -/
def transcribe (u : Setup C) (audio : Pcm.Bytes) : CM C Unit := do
  Prog.write fun s => { s with phase := .processing, code := "transcription.started" }
  emit u .transcriptionStarted .processing "transcription.started"
  check
  perform .makeJob
  Prog.write fun s => { s with job := true }
  check
  let t ← now
  Prog.write fun s => { s with deadline := some (t.plus 30) }
  startJob audio
  check

/-- What the capture has ended with. -/
def ended (u : Setup C) (r : CaptureResult) (silent : Bool) : CM C Unit := do
  if ← stopDevice then do
    emit u .captureStopped (if silent then .idle else .processing) ("capture." ++ r.reason.text)
    check
    if silent then fallSilent u else transcribe u r.audio
  else throw (.stop "owner.cleanup-unproven")

/-- A frame of the recording. -/
def take (u : Setup C) (frame : Frame) : CM C Unit := do
  Prog.write fun s => { s with sequence := s.sequence + 1 }
  match ← ask (.captureFeed frame) with
  | .capture r => do
    check
    match r.status with
    | .recording => pure ()
    | .idle => ended u r true
    | .processing => ended u r false
    | _ => throw (.stop "capture.invalid-frame")
  | _ => throw .other

/-- `_feed`, of an activation that is recording. -/
def accept (u : Setup C) (frame : Option Frame) (sequence : Option (Option ℤ)) : CM C Unit := do
  check
  let s ← Prog.read id
  match place s.sequence sequence, frame with
  | .past, _ => pure ()
  | .next, some frame =>
    if frame.pcm.length = 640 then take u frame else throw (.stop "capture.invalid-frame")
  | _, _ => throw (.stop "capture.invalid-frame")

/-- `_feed`. -/
def feedFrame (u : Setup C) (generation : Option ℤ) (frame : Option Frame) (sequence : Option (Option ℤ)) : CM C Unit := do
  let s ← Prog.read id
  if s.generation.any (fun g : ℕ => generation = some (g : ℤ)) && s.phase = .capturing then do
    let _ ← failing u (fun phase => if phase = .processing then "transcription.failed" else "capture.invalid-frame")
      (some <$> accept u frame sequence)
    pure ()
  else pure ()

/-! ## Transcripts -/

/-- The text of a transcript that is routed. -/
def spoken (r : Transcribe.TranscriptResult) : Option String :=
  r.text.filter fun text =>
    Strings.strip text.toList ≠ [] && text.utf8ByteSize ≤ 16384 && r.status = .success

/-- How the router is told a text. -/
def Coordinator.telling (s : Coordinator C) (text : String) : Op C :=
  match s.confirming with
  | some token => .answer token text
  | none => .handle text

/-- The router, told a text. -/
def tell (text : String) : CM C VoiceReply := do
  let s ← Prog.read id
  match ← ask (s.telling text) with
  | .reply r => pure r
  | _ => throw .other

/-- The end of a turn that was routed. -/
def conclude (u : Setup C) (r : VoiceReply) : CM C Unit := do
  Prog.write fun s => { s with code := r.code }
  let clean ← cleanup u
  release u clean

/-- A transcript, whose job is done. -/
def route (u : Setup C) (r : Transcribe.TranscriptResult) : CM C (Option VoiceReply) := do
  let text := spoken r
  emit u .transcriptionFinished (if text.isSome then .success else .failed)
    (if text.isSome then "transcription.ok" else "transcription.failed")
  check
  Prog.write fun s => { s with phase := .routing }
  match text with
  | none => do
    fail u "transcription.failed"
    pure none
  | some text => do
    let reply ← tell text
    Prog.write fun s => { s with
      pending := if reply.status = "preview" || reply.status = "clarify" then reply.token else none
      confirming := none }
    conclude u reply
    pure (some reply)

/-- The job is done. -/
def jobDone : CM C Bool := do
  let s ← Prog.read id
  if s.job then proves .jobProven else pure false

/-- `_transcribed`, of the activation that is under way. -/
def settleJob (u : Setup C) (r : Transcribe.TranscriptResult) : CM C (Option VoiceReply) := do
  check
  if ← jobDone then route u r
  else throw (.stop "transcription.cleanup-unproven")

/-- `_transcribed`. -/
def transcribedBody (u : Setup C) (r : Transcribe.TranscriptResult) : CM C (Option VoiceReply) := do
  let s ← Prog.read id
  if s.generation.any (fun g : ℕ => r.generation = (g : ℤ)) && s.phase = .processing then
    failing u (fun _ => "transcription.failed") (settleJob u r)
  else pure none

/-! ## Ticks -/

/-- `Frame(pcm, speech)`. -/
def frameOf (pcm : Pcm.Bytes) (speech : Bool) : Option Frame :=
  if h : pcm ≠ [] ∧ Capture.bytesPerMs ∣ pcm.length then some ⟨pcm, speech, h.1, h.2⟩ else none

/-- The frames of a chunk. -/
def feedFrames (u : Setup C) : List Pcm.Bytes → CM C Unit
  | [] => pure ()
  | pcm :: frames => do
    match ← ask (.isSpeech pcm) with
    | .truth speech =>
      match frameOf pcm speech with
      | none => throw .other
      | some frame => do
        let s ← Prog.read id
        feedFrame u (s.generation.map Int.ofNat) (some frame) none
        let s ← Prog.read id
        if s.phase = .capturing then feedFrames u frames else pure ()
    | _ => throw .other

/-- The chunks of a device. -/
def feedChunks (u : Setup C) : List Pcm.Bytes → CM C Unit
  | [] => pure ()
  | chunk :: chunks => do
    let s ← Prog.read id
    match s.phase, s.framer with
    | .capturing, some framer => do
      Prog.write fun s => { s with framer := some (framer.feed chunk).2 }
      match (framer.feed chunk).1 with
      | .error _ => throw .other
      | .ok frames => do
        feedFrames u frames
        feedChunks u chunks
    | .capturing, none => throw .other
    | _, _ => pure ()

/-- What a device gives in a tick. -/
def pollDevice (u : Setup C) : CM C Unit := do
  match ← ask .devicePoll with
  | .chunks chunks =>
    if 16 < chunks.length ∨ 10240 < chunks.flatten.length then throw (.stop "capture.invalid-frame")
    else feedChunks u chunks
  | _ => throw (.stop "capture.invalid-frame")

/-- What a job gives in a tick. -/
def pollJob (u : Setup C) : CM C (Option VoiceReply) := do
  let s ← Prog.read id
  if s.job then
    match ← ask .jobPoll with
    | .transcript r => transcribedBody u r
    | _ => pure none
  else throw .other

/-- A tick, of a recording. -/
def tickDevice (u : Setup C) : CM C Unit := do
  let s ← Prog.read id
  if s.phase = .capturing && s.device then pollDevice u else pure ()

/-- A tick, of a transcription. -/
def tickJob (u : Setup C) : CM C (Option VoiceReply) := do
  let s ← Prog.read id
  if s.phase = .processing then pollJob u else pure none

/-- A tick, of an activation that is under way. -/
def tick (u : Setup C) : CM C (Option VoiceReply) := do
  check
  timely
  tickDevice u
  tickJob u

/-! ## Methods -/

/-- `with self._lock`, where no call is under way. -/
def exclusive {α : Type} (refused p : CM C α) : CM C α := do
  if ← Prog.read (·.busy) then refused
  else do
    Prog.write fun s => { s with busy := true }
    p.lastly (Prog.write fun s => { s with busy := false })

/-- `activate`. -/
def activate (u : Setup C) (token : Option String) (correlation : String) : CM C ℕ := do
  let s ← Prog.read id
  if s.phase = .idle then exclusive (throw .busy) (activateBody u token correlation) else throw .busy

/-- `feed`. -/
def feed (u : Setup C) (generation : Option ℤ) (frame : Option Frame) (sequence : Option (Option ℤ)) : CM C Unit :=
  exclusive (pure ()) (feedFrame u generation frame sequence)

/-- `transcribed`. What is no `TranscriptResult` is passed over. -/
def transcribed (u : Setup C) (r : Option Transcribe.TranscriptResult) : CM C (Option VoiceReply) :=
  exclusive (pure none) (match r with
    | none => pure none
    | some r => transcribedBody u r)

/-- `poll`. -/
def poll (u : Setup C) : CM C (Option VoiceReply) := do
  let s ← Prog.read id
  if s.phase = .capturing ∨ s.phase = .processing then
    exclusive (pure none)
      (failing u (fun phase => if phase = .capturing then "capture.device-error" else "transcription.failed") (tick u))
  else pure none

/-- `cancel`, before it has the lock. -/
def request : CM C Unit := do
  Prog.write fun s => { s with requested := true }
  invalidateOwned

/-- `cancel`, under the lock, where no call is under way. -/
def abandon (u : Setup C) : CM C Unit := do
  match ← Prog.read (·.generation) with
  | some _ => fail u "capture.canceled"
  | none => do
    if ← stopSpeech u then pure ()
    else Prog.write fun s => { s with phase := .faulted, code := "owner.cleanup-unproven" }

/-- `cancel`, under the lock. -/
def settle (u : Setup C) : CM C Unit := do
  Prog.write fun s => { s with valid := false, pending := none, confirming := none }
  exclusive (pure ()) (abandon u)

/-- `cancel`. -/
def cancel (u : Setup C) : CM C Unit := do
  request
  settle u

/-- `blocked`, `confirmation.unavailable`. -/
def unavailable : VoiceReply := Voice.blocked "confirmation.unavailable"

/-- The router, told what is confirmed. -/
def confirmed (u : Setup C) (token : String) (channel : String) (accepted : Bool) : CM C VoiceReply := do
  match ← ask (.confirm token channel accepted) with
  | .reply r => do
    conclude u r
    pure r
  | _ => throw .other

/-- A confirmation, of what is pending. -/
def confirmPending (u : Setup C) (token : String) (channel : String) (accepted : Bool) : CM C VoiceReply := do
  let _ ← begin
  Prog.write fun s => { s with pending := none }
  (confirmed u token channel accepted).catching fun _ => do
    fail u "context.stale"
    pure unavailable

/-- `_confirm`. -/
def confirmBody (u : Setup C) (token : Option String) (channel : String) (accepted : Option Bool) : CM C VoiceReply := do
  let s ← Prog.read id
  match token, accepted with
  | some token, some accepted =>
    if s.phase = .idle && s.pending = some token && (channel = "panel" || channel = "keyboard") then do
      if ← current then confirmPending u token channel accepted else pure unavailable
    else pure unavailable
  | _, _ => pure unavailable

/-- `confirm`. -/
def confirm (u : Setup C) (token : Option String) (channel : String) (accepted : Option Bool) : CM C VoiceReply :=
  exclusive (pure unavailable) (confirmBody u token channel accepted)

/-- The id of an activation. -/
def activationId (s : Coordinator C) (activation : ℕ) : String := s.owner.sessionId ++ ":" ++ toString activation

/-- `_router_state`. -/
def routerState : CM C (VoiceState C) := do
  let good ← current
  let s ← Prog.read id
  match s.snapshot, s.activation with
  | some v, some activation =>
    pure ⟨v.context, v.key ++ ":" ++ s.owner.sessionId, activationId s activation, !good, "command"⟩
  | _, _ => throw (.value "no voice activation")

/-! ## The machine -/

/-- What is called: a method, a half of a `cancel` of another thread, or the owner, by another client of it. -/
inductive Method where
  | activate (token : Option String) (correlation : String)
  | feed (generation : Option ℤ) (frame : Option Frame) (sequence : Option (Option ℤ))
  | transcribed (r : Option Transcribe.TranscriptResult)
  | poll
  | cancel
  | request
  | settle
  | confirm (token : Option String) (channel : String) (accepted : Option Bool)
  | routerState
  | client (call : Session.Call)

/-- What is returned. -/
inductive Value (C : Type) where
  | none
  | generation (g : ℕ)
  | reply (r : Option VoiceReply)
  | voice (v : VoiceState C)
  | outcome (o : Session.Outcome)

/-- A call, run. -/
def body (u : Setup C) : Method → CM C (Value C)
  | .activate token correlation => .generation <$> activate u token correlation
  | .feed generation frame sequence => (fun _ => .none) <$> feed u generation frame sequence
  | .transcribed r => .reply <$> transcribed u r
  | .poll => .reply <$> poll u
  | .cancel => (fun _ => .none) <$> cancel u
  | .request => (fun _ => .none) <$> request
  | .settle => (fun _ => .none) <$> settle u
  | .confirm token channel accepted => (fun r => .reply (some r)) <$> confirm u token channel accepted
  | .routerState => .voice <$> routerState
  | .client call => do
    let s ← Prog.read id
    Prog.write fun s => { s with owner := (Session.step s.owner call).2 }
    pure (.outcome (Session.step s.owner call).1)

/-- The answers of a `SessionOwner`; any other callback may answer anything. -/
def answers (o : SessionOwner) : Op C → Answer C → Bool
  | .begin, .generation g => (o.begin (some "command")).toOption.map Prod.fst = some g
  | .begin, .raised => (o.begin (some "command")).toOption.isNone
  | .begin, _ => false
  | .accepts g, .truth b => b = o.accepts (some g)
  | .accepts _, _ => false
  | .invalidate _, .done => true
  | .invalidate _, _ => false
  | .release g cleaned, .done => (o.release (some g) (some cleaned)).toOption.isSome
  | .release g cleaned, .raised => (o.release (some g) (some cleaned)).toOption.isNone
  | .release _ _, _ => false
  | _, _ => true

/-- A client releases what it has begun, and so not what the coordinator has. -/
def isForeign (s : Coordinator C) : Session.Call → Bool
  | .release generation _ => s.generation = none || Session.positive generation ≠ s.generation
  | _ => true

/-- **The coordinator.** What waits for the lock is called where nothing is under way; what does not, and what callbacks
call, is called anywhere. -/
def machine (u : Setup C) : Machine (Coordinator C) (Op C) (Answer C) Exc Method (Value C) where
  body := body u
  enter := fun w ctx m =>
    match m with
    | .settle => ctx.isEmpty
    | .client call => isForeign w.st call
    | _ => true
  legal := fun w op a => answers w.st.owner op a

end Coordinate

end Arhugula
