import Arhugula.Reentrant.Machine
import Arhugula.Spec.Strings

/-!
# Dictation (`runtime/voice/dictation.py`)

`home` starts a recording, `end` stops it and puts its text out, `cancel` drops it. The three run under one
re-entrant lock. The recorder, the transcription, the output, the focus and the observer are callbacks, and may
call the dictation again.
-/

namespace Arhugula

namespace Dictate

open Reentrant

/-! ## Records -/

/-- `FocusToken`. -/
structure FocusToken where
  windowId : String
  generation : ℕ
  named : windowId ≠ ""
  deriving DecidableEq

/-- The status of a `Delivery`. -/
inductive Delivery where
  | delivered | notDelivered | uncertain
  deriving DecidableEq

/-- The state of a dictation. -/
inductive State where
  | idle | processing | recording | faulted
  deriving DecidableEq

/-- The status of a result. -/
inductive Status where
  | recording | processing | success | failed | blocked | canceled | uncertain
  deriving DecidableEq

def Delivery.text : Delivery → String
  | delivered => "delivered"
  | notDelivered => "not-delivered"
  | uncertain => "uncertain"

def State.text : State → String
  | idle => "idle"
  | processing => "processing"
  | recording => "recording"
  | faulted => "faulted"

/-- The code of a result. -/
inductive Code where
  | captureStarted | captureStopped | captureFailed | captureCanceled | captureBusy
  | refused (state : State)
  | providerUnavailable | focusUnavailable | focusChanged | observationUnavailable | transcriptionFailed
  | outputUncertain
  | delivery (status : Delivery)
  deriving DecidableEq

def Code.text : Code → String
  | captureStarted => "capture.started"
  | captureStopped => "capture.stopped"
  | captureFailed => "capture.failed"
  | captureCanceled => "capture.canceled"
  | captureBusy => "capture.busy"
  | refused state => "capture." ++ state.text
  | providerUnavailable => "provider.unavailable"
  | focusUnavailable => "focus.unavailable"
  | focusChanged => "focus.changed"
  | observationUnavailable => "observation.unavailable"
  | transcriptionFailed => "transcription.failed"
  | outputUncertain => "output.uncertain"
  | delivery status => "output." ++ status.text

/-- The route of an output. -/
inductive Route where
  | typing | clipboard
  deriving DecidableEq

/-- `DictationResult`. -/
structure DictationResult where
  status : Status
  code : Code
  delivery : Option Route := none
  deriving DecidableEq

/-- The phase of a notice. -/
inductive Phase where
  | starting | processing | finished
  deriving DecidableEq

/-- `Notice`. -/
structure Notice where
  interactionId : Option String
  phase : Phase
  status : Status
  code : Code
  deriving DecidableEq

abbrev Bytes := List UInt8

/-- A `Dictation`. -/
structure Dictation where
  provider : Provider
  state : State
  target : Option FocusToken
  interaction : Option String
  deriving DecidableEq

namespace Dictation

/-- A new dictation. -/
def new (provider : Provider) : Dictation := ⟨provider, .idle, none, none⟩

/-- `_state = state`. -/
def enter (state : State) (d : Dictation) : Dictation := { d with state := state }

/-- `_target = target`. -/
def aim (target : Option FocusToken) (d : Dictation) : Dictation := { d with target := target }

/-- The beginning of `home`. -/
def begin (interaction : String) (d : Dictation) : Dictation :=
  { d with state := .processing, interaction := some interaction }

/-- The provider can transcribe. -/
def available (d : Dictation) : Bool :=
  d.provider.placement = .vm && d.provider.enabled && d.provider.health ≠ .unavailable &&
    d.provider.capabilities.contains "transcription"

end Dictation

/-! ## Callbacks -/

/-- The recorder, the transcription, the output, the focus and the observer. -/
inductive Op where
  | focus
  | observe (notice : Notice)
  | start
  | stop
  | cancel
  | transcribe (audio : Bytes)
  | typeText (text : String) (target : Option FocusToken)
  | copyText (text : String)
  deriving DecidableEq

/-- What a callback does: it raises an `Exception`, or what is none; it gives a focus token, bytes, a text, a
delivery, or any other object. -/
inductive Answer where
  | raised (interrupt : Bool)
  | focus (token : FocusToken)
  | audio (bytes : Bytes)
  | text (s : String)
  | delivery (status : Delivery)
  | object
  deriving DecidableEq

/-- What is raised: an `Exception`, or what is none. -/
inductive Exc where
  | exception
  | interrupt
  deriving DecidableEq

/-- A body of the dictation. -/
abbrev DM (α : Type) := Prog Dictation Op Answer Exc α

/-- A callback: what it gives. -/
def ask (op : Op) : DM Answer := do
  match ← Prog.ask op with
  | .raised interrupt => throw (if interrupt then .interrupt else .exception)
  | a => pure a

/-- `try: p except Exception: h`. -/
def onException {α : Type} (p h : DM α) : DM α :=
  p.catching fun e => if e = .interrupt then .fail e else h

/-- `_emit`. -/
def emit (phase : Phase) (result : DictationResult) : DM Bool := do
  let d ← Prog.read id
  onException
    (do let _ ← ask (.observe ⟨d.interaction, phase, result.status, result.code⟩)
        pure true)
    (pure false)

/-- `_cleanup`. -/
def cleanup : DM Bool :=
  onException
    (do let _ ← ask .cancel
        Prog.write (.enter .idle)
        pure true)
    (do Prog.write (.enter .faulted)
        pure false)

/-- `_complete`. -/
def complete (result : DictationResult) (attempted : Bool) : DM DictationResult := do
  let faulted := (← Prog.read (·.state)) = .faulted
  Prog.write (.enter (if faulted then .faulted else .processing))
  let observed ← emit .finished result
  Prog.write (.aim none)
  Prog.write (.enter (if faulted then .faulted else .idle))
  if observed then pure result
  else pure ⟨if attempted || faulted then .uncertain else .blocked, .observationUnavailable, none⟩

/-- `_cleanup`, and the result that it is completed with. -/
def abort (clean unclean : DictationResult) : DM DictationResult := do
  if ← cleanup then complete clean false else complete unclean false

/-- A callback whose exceptions are completed with a result. -/
def guarded {α : Type} (p : DM α) (h : DM DictationResult) (f : α → DM DictationResult) : DM DictationResult := do
  match ← onException (some <$> p) (pure none) with
  | none => h
  | some a => f a

/-! ## Methods -/

/-- `home`, once the focus is captured. -/
def record : DM DictationResult := do
  let result : DictationResult := ⟨.recording, .captureStarted, none⟩
  if ← emit .starting result then do
    Prog.write (.enter .processing)
    guarded (ask .start) (abort ⟨.failed, .captureFailed, none⟩ ⟨.uncertain, .captureFailed, none⟩) fun _ => do
      Prog.write (.enter .recording)
      pure result
  else do
    Prog.write (.aim none)
    Prog.write (.enter .idle)
    pure ⟨.blocked, .observationUnavailable, none⟩

/-- `home`. The interaction is what `uuid4` gives. -/
def home (interaction : String) : DM DictationResult := do
  let d ← Prog.read id
  if d.state ≠ .idle then
    pure ⟨.blocked, if d.state = .faulted then .refused .faulted else .captureBusy, none⟩
  else do
    Prog.write (.begin interaction)
    if !d.available then complete ⟨.blocked, .providerUnavailable, none⟩ false
    else
      guarded (ask .focus) (complete ⟨.blocked, .focusUnavailable, none⟩ false) fun
        | .focus token => do
          Prog.write (.aim (some token))
          record
        | _ => complete ⟨.blocked, .focusUnavailable, none⟩ false

/-- `end`, where the focus has to be the captured one. -/
def refocused (f : DM DictationResult) : DM DictationResult :=
  guarded (do let found ← ask .focus
              let target ← Prog.read (·.target)
              pure (target.any fun t => found = .focus t))
    (complete ⟨.blocked, .focusUnavailable, none⟩ false) fun same =>
      if same then f else complete ⟨.blocked, .focusChanged, none⟩ false

/-- The result of a delivery. -/
def outcome (route : Route) (status : Delivery) : DictationResult :=
  ⟨match status with
    | .delivered => .success
    | .notDelivered => .failed
    | .uncertain => .uncertain, .delivery status, some route⟩

/-- An output, which reports a delivery. -/
def output (op : Op) (f : Delivery → DM DictationResult) : DM DictationResult :=
  guarded (ask op) (complete ⟨.uncertain, .outputUncertain, none⟩ true) fun
    | .delivery status => f status
    | _ => complete ⟨.uncertain, .outputUncertain, none⟩ true

/-- `end`, once there is a text. -/
def deliver (text : String) : DM DictationResult :=
  refocused do
    let target ← Prog.read (·.target)
    output (.typeText text target) fun
      | .notDelivered => refocused (output (.copyText text) fun status => complete (outcome .clipboard status) true)
      | status => complete (outcome .typing status) true

/-- `not text.strip()`. -/
def isBlank (text : String) : Bool := Strings.strip text.toList = []

/-- `end`, once the audio is there: only bytes are audio. -/
def transcribed (audio : Answer) : DM DictationResult :=
  guarded
    (match audio with
    | .audio bytes => if bytes = [] then throw .exception else ask (.transcribe bytes)
    | _ => throw .exception)
    (complete ⟨.failed, .transcriptionFailed, none⟩ false) fun
      | .text text =>
        if isBlank text then complete ⟨.failed, .transcriptionFailed, none⟩ false else deliver text
      | _ => complete ⟨.failed, .transcriptionFailed, none⟩ false

/-- `end`. -/
def finish : DM DictationResult := do
  let d ← Prog.read id
  if d.state ≠ .recording then pure ⟨.blocked, .refused d.state, none⟩
  else do
    Prog.write (.enter .processing)
    guarded (ask .stop) (abort ⟨.failed, .captureFailed, none⟩ ⟨.uncertain, .captureFailed, none⟩) fun audio => do
      if ← emit .processing ⟨.processing, .captureStopped, none⟩ then transcribed audio
      else complete ⟨.blocked, .observationUnavailable, none⟩ false

/-- `cancel`. -/
def cancel : DM DictationResult := do
  let d ← Prog.read id
  if d.state ≠ .recording then pure ⟨.blocked, .refused d.state, none⟩
  else do
    Prog.write (.enter .processing)
    abort ⟨.canceled, .captureCanceled, none⟩ ⟨.uncertain, .refused .faulted, none⟩

/-! ## The machine -/

/-- A call of a method. -/
inductive Method where
  | home (interaction : String)
  | finish
  | cancel
  deriving DecidableEq

/-- A call, run. -/
def body : Method → DM DictationResult
  | .home interaction => home interaction
  | .finish => finish
  | .cancel => cancel

/-- The dictation. Its callbacks may call it as they like. -/
def machine : Machine Dictation Op Answer Exc Method DictationResult where
  body := body
  enter := fun _ _ _ => true

end Dictate

end Arhugula
