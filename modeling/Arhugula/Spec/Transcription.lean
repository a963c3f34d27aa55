import Arhugula.Concurrent.Shared
import Arhugula.Spec.Process
import Arhugula.Spec.Strings

/-!
# Transcription jobs (`runtime/voice/transcription.py`)

A `TranscriptionJob` gives one recording to one worker and hands its text out. `start`, `poll` and `cancel` are called
by any threads: each call is a process, which the others may interrupt wherever it takes the lock or calls the worker
or its factory. What is done under the lock is one step.
-/

namespace Arhugula

namespace Transcribe

open Reentrant Process

/-! ## Results -/

/-- The status of a result. -/
inductive Status where
  | success | failed | uncertain
  deriving DecidableEq

/-- `TranscriptResult`. -/
structure TranscriptResult where
  generation : ℤ
  status : Status
  text : Option String
  code : String
  deriving DecidableEq

/-- `n`, in as many bytes, the lowest first. -/
def littleEndian : ℕ → ℕ → Bytes
  | 0, _ => []
  | k + 1, n => UInt8.ofNat n :: littleEndian k (n / 256)

/-- ASCII. -/
def ascii (s : String) : Bytes := s.toList.map fun c => UInt8.ofNat c.toNat

/-- What `wave` writes: 16-bit samples of one channel, 16000 in a second. -/
def wav (pcm : Bytes) : Bytes :=
  ascii "RIFF" ++ littleEndian 4 (36 + pcm.length) ++ ascii "WAVE" ++ ascii "fmt " ++ littleEndian 4 16 ++
    littleEndian 2 1 ++ littleEndian 2 1 ++ littleEndian 4 16000 ++ littleEndian 4 32000 ++ littleEndian 2 2 ++
    littleEndian 2 16 ++ ascii "data" ++ littleEndian 4 pcm.length ++ pcm

/-- The text of an output: not empty, and without control characters. -/
def transcript (stdout : Option Bytes) : Option String := do
  let bytes ← stdout
  if bytes = [] ∨ 16384 < bytes.length then none
  else do
    let decoded ← String.fromUTF8? ⟨bytes.toArray⟩
    let text := Strings.strip decoded.toList
    if text = [] ∨ text.any (fun c => c.toNat < 32 && c ≠ '\n' && c ≠ '\t') then none else some (String.ofList text)

/-- What `poll` makes of what the worker gave. -/
def evaluate (generation : ℤ) (raw : Raw) : TranscriptResult :=
  let text := match raw with
    | .result r => if r.status = .success then transcript r.stdout else none
    | .object => none
  if !raw.clean then ⟨generation, .uncertain, text, "transcription.cleanup-unproven"⟩
  else if text.isSome then ⟨generation, .success, text, "transcription.ok"⟩
  else ⟨generation, .failed, text, "transcription.failed"⟩

/-! ## The job -/

/-- What is raised: a `ValueError`, a `RuntimeError`, or what is no `Exception`. -/
inductive Exc where
  | pcm | generation | singleUse
  | worker
  | interrupt
  deriving DecidableEq

def Exc.text : Exc → String
  | pcm => "requires bounded whole-frame PCM"
  | generation => "requires positive integer generation"
  | singleUse => "transcription job is single-use"
  | worker => "what the worker raised"
  | interrupt => "what is no Exception"

variable (K : Worker)

/-- **A job.** `owned` says that `_worker` is the worker that the factory made. -/
structure Job where
  started : Bool
  closed : Bool
  owned : Bool
  worker : K.State
  pending : Option TranscriptResult
  generation : ℤ
  cleaned : Option Bool

namespace Job

variable {K}

/-- A new job. -/
def new : Job K := ⟨false, false, false, K.fresh, none, 0, none⟩

/-- `cleanup_proven`. -/
def cleanupProven (j : Job K) : Bool := j.cleaned = some true

/-- `_started, _generation = True, generation`. -/
def begin (generation : ℤ) (j : Job K) : Job K := { j with started := true, generation := generation }

/-- `_worker = worker`. -/
def own (j : Job K) : Job K := { j with owned := true }

/-- The worker does something. -/
def put (s : K.State) (j : Job K) : Job K := { j with worker := s }

/-- `_closed, _pending = True, None`. -/
def close (j : Job K) : Job K := { j with closed := true, pending := none }

/-- `_pending = result`. -/
def await (result : Option TranscriptResult) (j : Job K) : Job K := { j with pending := result }

/-- `_cleaned = clean`. -/
def clean (clean : Bool) (j : Job K) : Job K := { j with cleaned := some clean }

/-- `_closed, _cleaned = True, clean`. -/
def finish (clean : Bool) (j : Job K) : Job K := { j with closed := true, cleaned := some clean }

end Job

/-! ## Calls -/

/-- Where the other threads may go on: at the lock, in the factory, and in the worker. -/
inductive Op where
  | lock
  | factory
  | start (data : Bytes)
  | poll
  | cancel
  | join
  deriving DecidableEq

/-- What comes of it: what the system does, or what the factory raises. -/
inductive Answer where
  | system (o : K.System)
  | raised (r : Raise)
  | done

variable {K}

/-- A body of a job. -/
abbrev JM (α : Type) := Prog (Job K) Op (Answer K) Exc α

/-- The other threads may go on. -/
def turn (op : Op) : JM (K := K) Unit := do
  let _ ← Prog.ask op
  pure ()

/-- What is raised, of what the worker raised. -/
def Exc.of : Raise → Exc
  | .exception => .worker
  | .interrupt => .interrupt

/-- `except Exception`. -/
def onException {α : Type} (p h : JM (K := K) α) : JM (K := K) α :=
  p.catching fun e => if e = .interrupt then .fail e else h

/-- What the worker gave, or raised. -/
def give {α : Type} : Except Raise α → JM (K := K) α
  | .ok a => pure a
  | .error e => throw (.of e)

/-- The other threads may go on, until the system comes to something. -/
def system (op : Op) : JM (K := K) K.System := do
  match ← Prog.ask op with
  | .system o => pure o
  | .raised e => throw (.of e)
  | .done => throw .interrupt

/-- `_worker.cancel()`, after the wait. -/
def awaitWorker : JM (K := K) Raw := do
  let o ← system .join
  let job ← Prog.read id
  Prog.write (.put (K.await o job.worker).1)
  give (K.await o job.worker).2

/-- `_worker.cancel()`. -/
def cancelWorker : JM (K := K) Raw := do
  turn .cancel
  let job ← Prog.read id
  Prog.write (.put (K.cancel job.worker).1)
  match (K.cancel job.worker).2 with
  | some given => give given
  | none => awaitWorker

/-- `_worker.start(data)`. -/
def startWorker (data : Bytes) : JM (K := K) Unit := do
  let o ← system (.start data)
  let job ← Prog.read id
  Prog.write (.put (K.start o data job.worker).1)
  give (K.start o data job.worker).2

/-- `cancel`. -/
def cancel : JM (K := K) Unit := do
  turn .lock
  Prog.write .close
  let job ← Prog.read id
  if job.cleaned ≠ none then pure ()
  else do
    let clean ← if job.owned then onException (Raw.clean <$> cancelWorker) (pure false) else pure !job.started
    turn .lock
    if job.owned || !job.started then Prog.write (.clean clean) else pure ()

/-- The worker is made and started. -/
def launch (pcm : Bytes) : JM (K := K) Unit := do
  match ← Prog.ask .factory with
  | .raised e => throw (.of e)
  | _ => do
    turn .lock
    Prog.write .own
    let closed ← Prog.read (·.closed)
    if closed then cancel else startWorker (wav pcm)

/-- `start`. The arguments are none where they are no bytes, or no integer. -/
def start (pcm : Option Bytes) (generation : Option ℤ) : JM (K := K) Unit := do
  match pcm with
  | none => throw .pcm
  | some pcm =>
    if pcm = [] ∨ pcm.length % 640 ≠ 0 ∨ 480000 < pcm.length then throw .pcm
    else match generation with
      | none => throw .generation
      | some generation =>
        if generation ≤ 0 then throw .generation
        else do
          turn .lock
          let job ← Prog.read id
          if job.started || job.closed then throw .singleUse
          else do
            Prog.write (.begin generation)
            onException (launch pcm) do
              cancel
              turn .lock
              let cleaned ← Prog.read (·.cleaned)
              Prog.write (.await (some ⟨generation, if cleaned = some true then .failed else .uncertain, none,
                "transcription.start-failed"⟩))

/-- `poll`. -/
def poll : JM (K := K) (Option TranscriptResult) := do
  turn .lock
  let job ← Prog.read id
  if job.pending.isSome then do
    Prog.write (.await none)
    pure job.pending
  else if job.closed || !job.owned then pure none
  else do
    turn .poll
    let given ← Prog.read fun j => K.poll j.worker
    match given with
    | .error .interrupt => throw .interrupt
    | .error .exception => do
      cancel
      let generation ← Prog.read (·.generation)
      pure (some ⟨generation, .uncertain, none, "transcription.worker-failed"⟩)
    | .ok none => pure none
    | .ok (some raw) => do
      turn .lock
      let job ← Prog.read id
      if job.closed then pure none
      else do
        Prog.write (.finish raw.clean)
        pure (some (evaluate job.generation raw))

/-! ## Runs -/

variable (K)

/-- A call of a method; or something happens to the worker. -/
inductive Method where
  | start (pcm : Option Bytes) (generation : Option ℤ)
  | poll
  | cancel
  | event (o : K.System)

variable {K}

/-- A call, run. Only `poll` gives something. -/
def body : Method K → JM (K := K) (Option TranscriptResult)
  | .start pcm generation => do
    start pcm generation
    pure none
  | .poll => poll
  | .cancel => do
    cancel
    pure none
  | .event o => do
    Prog.write fun j => if j.owned then j.put (K.event o j.worker) else j
    pure none

end Transcribe

end Arhugula
