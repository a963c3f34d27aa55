import Arhugula.Concurrent.Shared
import Arhugula.Spec.Pcm
import Arhugula.Spec.Process

/-!
# The capture device (`runtime/voice/device.py`)

A `PipeWireCapture` takes what its worker records, in chunks, and hands it out in frames. The worker's thread calls
`_receive`, and any threads call `start`, `poll` and `cancel`: each call is a process, which the others may interrupt
wherever it takes the lock or calls the worker or its factory. What is done under the lock is one step.
-/

namespace Arhugula

namespace Device

open Reentrant Process
open Pcm (PcmFramer)

/-! ## The device -/

/-- The most frames that wait. -/
def maxQueue : ℕ := 16

/-- The most bytes of a recording: 15 seconds. -/
def maxTotal : ℕ := 480000

/-- `PipeWireCapture`. `worker` says that it has one. -/
structure PipeWireCapture where
  framer : PcmFramer
  queue : List Bytes
  started : Bool
  closed : Bool
  cleaned : Option Bool
  worker : Bool
  error : Option String
  total : ℕ

/-- A `ValueError`, a `CaptureIOError`, or what the factory or the worker raises. -/
inductive Exc where
  | value (text : String)
  | capture (text : String)
  | other
  deriving DecidableEq

/-- A letter, a digit or an underscore. -/
def isWord (c : Char) : Bool := c.isAlphanum || c = '_'

/-- `[A-Za-z0-9_][A-Za-z0-9_.:-]{0,127}`, and none of the defaults. -/
def isNode (source : String) : Bool :=
  source ≠ "default" && source ≠ "0" &&
    match source.toList with
    | [] => false
    | c :: cs => isWord c && cs.length ≤ 127 && cs.all fun c => isWord c || c = '.' || c = ':' || c = '-'

/-- The command. -/
def argv (source : String) : List String :=
  ["/usr/bin/pw-record", "--rate", "16000", "--channels", "1", "--format", "s16", "--raw", "--target", source,
    "--sample-count", "240000", "-"]

/-- It is a `ProcessResult`, and a success. -/
def succeeded : Raw → Bool
  | .result r => r.status = .success
  | .object => false

namespace PipeWireCapture

/-- A new device. -/
def new : PipeWireCapture := ⟨.new, [], false, false, none, false, none, 0⟩

variable (s : PipeWireCapture)

/-- The recording is thrown away. -/
def spoil : PipeWireCapture := { s with queue := [], error := some "capture.invalid-stream" }

/-- A chunk, taken under the lock, or the device that it spoils. What is no bytes is `none`. -/
def take (chunk : Option Bytes) : Except PipeWireCapture PipeWireCapture :=
  match chunk with
  | none => .error s.spoil
  | some chunk =>
    if chunk = [] ∨ maxTotal < s.total + chunk.length then .error s.spoil
    else
      match s.framer.feed chunk with
      | (.error _, framer) => .error { s with framer := framer }.spoil
      | (.ok frames, framer) =>
        if maxQueue < s.queue.length + frames.length then .error { s with framer := framer }.spoil
        else .ok { s with framer := framer, queue := s.queue ++ frames, total := s.total + chunk.length }

/-- The worker has ended well. -/
def complete : PipeWireCapture :=
  match s.framer.finish with
  | (.error _, framer) => { s with framer := framer, error := some "capture.incomplete-stream" }
  | (.ok (), framer) =>
    if s.total = 0 then { s with framer := framer, error := some "capture.incomplete-stream" }
    else { s with framer := framer, closed := true, cleaned := some true }

/-- What the worker came to. -/
def judge (result : Option Raw) : PipeWireCapture :=
  match result with
  | none => s
  | some raw =>
    if s.error ≠ none then s
    else if succeeded raw then s.complete
    else { s with error := some "capture.worker-failed" }

end PipeWireCapture

/-! ## Calls -/

/-- Where the other threads may go on: at the lock, in the factory, and in the worker. -/
inductive Op where
  | lock
  | factory (argv : List String)
  | start
  | poll
  | cancel

/-- What comes of it: an `Exception`, nothing, or a result. -/
inductive Answer where
  | raised
  | done
  | result (raw : Raw)

/-- A body of a device. -/
abbrev DM (α : Type) := Prog PipeWireCapture Op Answer Exc α

/-- The other threads may go on. -/
def turn (op : Op) : DM Unit := do
  let _ ← Prog.ask op
  pure ()

/-- A call that may raise. -/
def perform (op : Op) : DM Unit := do
  match ← Prog.ask op with
  | .raised => throw .other
  | _ => pure ()

/-- `worker.cancel()`: it is clean. -/
def cancelWorker : DM Bool := do
  match ← Prog.ask .cancel with
  | .result raw => pure raw.clean
  | _ => pure false

/-- `cancel`. -/
def cancel : DM Bool := do
  turn .lock
  Prog.write fun s => { s with closed := true, queue := [] }
  let s ← Prog.read id
  match s.cleaned with
  | some cleaned => pure cleaned
  | none =>
    if s.worker then do
      let clean ← cancelWorker
      turn .lock
      Prog.write fun s => { s with cleaned := some clean }
      pure clean
    else pure !s.started

/-- The worker is made and started. -/
def launch (source : String) : DM Unit := do
  perform (.factory (argv source))
  turn .lock
  Prog.write fun s => { s with worker := true }
  let s ← Prog.read id
  if s.closed then do
    let _ ← cancel
    throw (.capture "capture.canceled")
  else perform .start

/-- `start`. What is no string is `none`. -/
def start (source : Option String) : DM Unit := do
  match source.filter isNode with
  | none => throw (.value "explicit approved PipeWire node required")
  | some source => do
    turn .lock
    let s ← Prog.read id
    if s.started || s.closed then throw (.capture "capture.single-use")
    else do
      Prog.write fun s => { s with started := true }
      (launch source).catching fun _ => do
        turn .lock
        Prog.write fun s => { s with error := some "capture.start-failed" }
        let _ ← cancel
        throw (.capture "capture.start-failed")

/-- `_receive`. -/
def receive (chunk : Option Bytes) : DM Unit := do
  turn .lock
  let s ← Prog.read id
  if s.closed || s.error.isSome then throw (.capture "capture.closed")
  else
    match s.take chunk with
    | .ok s' => Prog.write fun _ => s'
    | .error s' => do
      Prog.write fun _ => s'
      throw (.capture "capture.invalid-stream")

/-- `worker.poll()`, if there is a worker. -/
def pollWorker (worker : Bool) : DM (Option Raw) :=
  if worker then do
    match ← Prog.ask .poll with
    | .done => pure none
    | .result raw => pure (some raw)
    | .raised => pure (some (.result ⟨.uncertain, some [], "process.unknown"⟩))
  else pure none

/-- `poll`, once the worker has answered. -/
def handOver (result : Option Raw) : DM (List Bytes) := do
  turn .lock
  let s ← Prog.read id
  Prog.write fun s => { s.judge result with queue := [] }
  match (s.judge result).error with
  | some error => do
    let _ ← cancel
    throw (.capture error)
  | none => pure (s.judge result).queue

/-- `poll`. -/
def poll : DM (List Bytes) := do
  turn .lock
  let s ← Prog.read id
  if s.closed && s.error.isNone then pure []
  else do
    let result ← pollWorker s.worker
    handOver result

/-! ## Runs -/

/-- A call of a method. -/
inductive Method where
  | start (source : Option String)
  | receive (chunk : Option Bytes)
  | poll
  | cancel

/-- What is returned. A `_receive` that returns is told by what it received. -/
inductive Value where
  | none
  | received (chunk : Bytes)
  | frames (frames : List Bytes)
  | cleaned (cleaned : Bool)

/-- A call, run. -/
def body : Method → DM Value
  | .start source => do
    start source
    pure .none
  | .receive chunk => do
    receive chunk
    pure (.received (chunk.getD []))
  | .poll => .frames <$> poll
  | .cancel => .cleaned <$> cancel

end Device

end Arhugula
