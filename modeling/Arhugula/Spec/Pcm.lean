import Arhugula.Sequence.Blocks

/-!
# PCM framing (`runtime/voice/pcm.py`)

A `PcmFramer` cuts a stream into frames of 640 bytes: 20 ms of 16-bit samples, 16000 in a second.
-/

namespace Arhugula

namespace Pcm

open Sequence

abbrev Bytes := List UInt8

/-- The length of a frame. -/
def frameBytes : ℕ := 640

/-- The longest chunk. -/
def maxChunk : ℕ := 65536

/-- `_state`. -/
inductive State where
  | open | failed | finished
  deriving DecidableEq

/-- The `ValueError`s of a framer. -/
inductive Error where
  | closed | chunk | failed | incomplete
  deriving DecidableEq

def Error.text : Error → String
  | closed => "PCM stream is closed"
  | chunk => "PCM chunk must be bounded immutable bytes"
  | failed => "PCM stream failed"
  | incomplete => "PCM stream ends with an incomplete frame"

/-- `PcmFramer`. -/
structure PcmFramer where
  remainder : Bytes
  state : State
  deriving DecidableEq

namespace PcmFramer

/-- A new framer. -/
def new : PcmFramer := ⟨[], .open⟩

/-- `feed`: the frames, or what it raises, and the framer after it. -/
def feed (f : PcmFramer) (chunk : Bytes) : Except Error (List Bytes) × PcmFramer :=
  if f.state ≠ .open then (.error .closed, f)
  else if maxChunk < chunk.length then (.error .chunk, ⟨[], .failed⟩)
  else (.ok (blocks frameBytes (f.remainder ++ chunk)), ⟨rest frameBytes (f.remainder ++ chunk), .open⟩)

/-- `finish`. -/
def finish (f : PcmFramer) : Except Error Unit × PcmFramer :=
  if f.state = .failed then (.error .failed, f)
  else if f.remainder ≠ [] then (.error .incomplete, ⟨[], .failed⟩)
  else (.ok (), { f with state := .finished })

end PcmFramer

end Pcm

end Arhugula
