import Arhugula.Concurrent.Processes
import Arhugula.Spec.Codec

/-!
# The local voice control (`runtime/voice/control.py`, `schemas/voice-session-v1.json`)

`handle` decodes a request, samples the state, claims the id of the request, samples the state again and runs the
handler. What samples the state and what handles a request are callbacks: they may call `handle`, and so may other
threads. Each call is a process; `turn` is a point where the other threads may go on.

What `json.loads` makes of the bytes of a payload is a parameter.
-/

namespace Arhugula

namespace Control

open Reentrant Strings Codec

/-! ## Requests -/

/-- What a property of a request is. -/
inductive Rule where
  | text (const : Option String) (enum : Option (List String)) (isPattern : Bool)
  | integer (const : ℤ)
  | boolean

/-- The properties of a request; all of them are required. -/
abbrev Shape := List (String × Rule)

/-- An id. -/
def Rule.id : Rule := .text none none true

/-- The properties of a request that changes something. -/
def mutation (op : String) (more : Shape) : Shape :=
  [("version", Rule.integer 1), ("request_id", .id), ("session_id", .id), ("context_epoch", .id),
    ("op", .text (some op) none false)] ++ more

/-- `_SHAPES`. -/
def shapes : List (String × Shape) :=
  [("activate", mutation "activate" []), ("cancel", mutation "cancel" []),
    ("status", [("version", .integer 1), ("op", .text (some "status") none false)]),
    ("mute", mutation "mute" [("muted", .boolean)]), ("dictation-start", mutation "dictation-start" []),
    ("dictation-stop", mutation "dictation-stop" []),
    ("confirm", mutation "confirm" [("token", .id), ("channel", .text none (some ["panel", "keyboard"]) false),
      ("approved", .boolean)])]

/-- The value of a property is as its rule says. -/
def Rule.allows : Rule → Py → Bool
  | text const enum isPattern, .str s => const.all (·.toList = s) && enum.all (fun l => l.any (·.toList = s)) &&
      (!isPattern || isId (String.ofList s))
  | integer const, .int i => i = const
  | boolean, .bool _ => true
  | _, _ => false

/-- The text of a key. -/
def textAt (request : List (Text × Py)) (key : String) : Text :=
  match get request key.toList with
  | some (.str s) => s
  | _ => []

/-- `decode_control`; `none` where it raises. A constant that is not finite is no value of any property. -/
def decodeControl (parse : List UInt8 → Option Doc) (payload : Option (List UInt8)) : Option (List (Text × Py)) :=
  match payload with
  | none => none
  | some bytes =>
    if bytes.length = 0 || 4096 < bytes.length then none
    else
      match (parse bytes).bind build with
      | some (.dict request) =>
        match shapes.find? fun s => s.1.toList = textAt request "op" with
        | none => none
        | some (_, shape) =>
          if shape.all (fun p => (get request p.1.toList).any p.2.allows) &&
              request.all fun m => shape.any fun p => p.1.toList = m.1 then
            some request
          else none
      | _ => none

/-! ## States and replies -/

/-- `phase`. -/
inductive Phase where
  | idle | capturing | processing | routing | faulted | dictation
  deriving DecidableEq

/-- `ControlState`. -/
structure ControlState where
  contextEpoch : Text
  phase : Phase
  muted : Bool
  valid : isId (String.ofList contextEpoch) = true
  deriving DecidableEq

/-- `status`, of a reply. -/
inductive Status where
  | ok | blocked | uncertain
  deriving DecidableEq

/-- `public`. -/
structure Public where
  sessionId : Text
  contextEpoch : Text
  phase : Phase
  muted : Bool
  deriving DecidableEq

/-- `_reply`. -/
structure Reply where
  status : Status
  code : String
  state : Option Public
  deriving DecidableEq

/-- `_reply`, of no state. -/
def reply (status : Status) (code : String) : Reply := ⟨status, code, none⟩

/-! ## The dispatcher -/

/-- `ControlDispatcher`: what `__init__` binds. -/
structure Dispatcher where
  sessionId : Text
  uid : ℤ
  pid : ℤ
  parse : List UInt8 → Option Doc
  valid : isId (String.ofList sessionId) = true

/-- What the calls share: `_lock`, and `_seen`. -/
structure State where
  locked : Bool
  seen : List Text
  deriving DecidableEq

/-- Before the first call. -/
def State.fresh : State := ⟨false, []⟩

/-- Where the other threads may go on. -/
inductive Point where
  | arrived | locked | unseen
  | claimed (identifier : Text)
  deriving DecidableEq

/-- What a call calls. -/
inductive Op where
  | turn (point : Point)
  | state
  | handler (request : List (Text × Py))

/-- What comes back: an object, an `Exception`, or another `BaseException`. -/
inductive Answer where
  | state (s : ControlState)
  | bool (b : Bool)
  | object
  | raised
  | interrupted

/-- The arguments of `handle`, and the process that calls it. -/
structure Call where
  payload : Option (List UInt8)
  peerUid : Option ℤ
  pid : ℤ

/-- A body. What it raises is a `BaseException`. -/
abbrev Body := Prog State Op Answer Unit

/-- The other threads may go on. -/
def turn (point : Point) : Body Unit := do
  let _ ← Prog.ask (.turn point)
  pure ()

/-- `self._seen.add(identifier)`. -/
def State.add (s : State) (identifier : Text) : State :=
  { s with seen := if identifier ∈ s.seen then s.seen else identifier :: s.seen }

/-- The handler of a request is run. -/
def actuate (request : List (Text × Py)) : Body Reply := do
  match ← Prog.ask (.handler request) with
  | .interrupted => .fail ()
  | .bool true => pure (reply .ok "control.ok")
  | .bool false => pure (reply .blocked "control.denied")
  | _ => pure (reply .uncertain "control.uncertain")

/-- The id of a request is claimed. -/
def claim (request : List (Text × Py)) (state : ControlState) : Body Reply := do
  turn .unseen
  Prog.write fun s => s.add (textAt request "request_id")
  turn (.claimed (textAt request "request_id"))
  match ← Prog.ask .state with
  | .interrupted => .fail ()
  | .raised => pure (reply .uncertain "control.uncertain")
  | .state again => if again = state then actuate request else pure (reply .blocked "control.stale")
  | _ => pure (reply .blocked "control.stale")

/-- A request is checked against the state that was sampled. -/
def Dispatcher.check (d : Dispatcher) (request : List (Text × Py)) (state : ControlState) : Body Reply := do
  if textAt request "op" = "status".toList then
    pure ⟨.ok, "control.ok", some ⟨d.sessionId, state.contextEpoch, state.phase, state.muted⟩⟩
  else if textAt request "session_id" ≠ d.sessionId || textAt request "context_epoch" ≠ state.contextEpoch then
    pure (reply .blocked "control.stale")
  else
    let seen ← Prog.read State.seen
    if textAt request "request_id" ∈ seen then pure (reply .blocked "control.replayed")
    else if 4096 ≤ seen.length then pure (reply .blocked "control.exhausted")
    else claim request state

/-- What is done while the lock is held. -/
def Dispatcher.serve (d : Dispatcher) (payload : Option (List UInt8)) : Body Reply := do
  turn .locked
  match decodeControl d.parse payload with
  | none => pure (reply .blocked "control.invalid")
  | some request => do
    match ← Prog.ask .state with
    | .interrupted => .fail ()
    | .state state => d.check request state
    | _ => pure (reply .blocked "control.state-unavailable")

/-- `ControlDispatcher.handle`. -/
def Dispatcher.handle (d : Dispatcher) (call : Call) : Body Reply := do
  if call.peerUid ≠ some d.uid || call.pid ≠ d.pid then pure (reply .blocked "control.peer")
  else
    turn .arrived
    -- taking the lock is one step
    if ← Prog.read State.locked then pure (reply .blocked "control.busy")
    else
      Prog.write fun s => { s with locked := true }
      Prog.lastly (d.serve call.payload) (Prog.write fun s => { s with locked := false })

end Control

end Arhugula
