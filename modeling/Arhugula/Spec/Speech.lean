import Arhugula.Reentrant.Machine
import Arhugula.Spec.Vm

/-!
# The speech queue (`runtime/voice/speech.py`)

A `SpeechQueue` has one prompt at most in its backend. Its methods run under a re-entrant lock,
and its state callback and its backend may call them again.

`cancel` raises the epoch before it takes the lock. In another thread it may wait there, and what
waits is finished when the lock is free: `advance` and `finish` are the two halves of such a
cancellation, `cancel` is both of them at once. Of all that is written, only the epoch is written
without the lock, and each look at it is next to a callback, so that every schedule of threads is
a run.
-/

namespace Arhugula

namespace Speech

open Reentrant Vm

/-! ## Records -/

/-- `PROMPTS`. -/
def prompts : List String :=
  ["Please repeat the command.", "Please confirm in the voice panel.",
    "Start a new command turn and say yes or no."]

/-- What `json` does to a context, if it can, and when Python finds two contexts equal. -/
structure Contexts where
  detach : Mapping Json → Option (Mapping Json)
  same : Mapping Json → Mapping Json → Bool

/-- `snapshot_state`. -/
def snapshotState (t : Contexts) (v : VoiceState) : Option VoiceState :=
  if v.key = "" ∨ v.activationId = "" ∨ v.mode ∉ ["command", "dictation"] then none
  else (t.detach v.context).map fun context => { v with context := context }

/-- `==` of two snapshots. -/
def sameState (t : Contexts) (a b : VoiceState) : Bool :=
  t.same a.context b.context && a.key = b.key && a.activationId = b.activationId &&
    a.muted = b.muted && a.mode = b.mode

/-- A `SpeechQueue`, and how many cancellations of other threads wait for its lock. -/
structure SpeechQueue where
  epoch : ℕ
  active : Bool
  busy : Bool
  stopping : Bool
  faulted : Bool
  snapshot : Option VoiceState
  code : String
  waiting : ℕ

namespace SpeechQueue

/-- A new queue. -/
def new : SpeechQueue := ⟨0, false, false, false, false, none, "speech.idle", 0⟩

/-- `cleanup_proven`. -/
def cleanupProven (q : SpeechQueue) : Bool := !q.active && !q.faulted && !q.stopping

/-- `_busy = b`. -/
def occupy (b : Bool) (q : SpeechQueue) : SpeechQueue := { q with busy := b }

/-- `_stopping = b`. -/
def stop (b : Bool) (q : SpeechQueue) : SpeechQueue := { q with stopping := b }

/-- `_code = code`. -/
def tell (code : String) (q : SpeechQueue) : SpeechQueue := { q with code := code }

/-- `_active = True`. -/
def own (q : SpeechQueue) : SpeechQueue := { q with active := true }

/-- A cancellation of the backend that was clean, or was not. -/
def retire (clean : Bool) (q : SpeechQueue) : SpeechQueue :=
  { q with active := !clean, faulted := q.faulted || !clean }

/-- The end of `_stop`. -/
def settle (q : SpeechQueue) : SpeechQueue :=
  { q with
    snapshot := none
    code := if q.faulted then "speech.cleanup-unproven" else q.code }

end SpeechQueue

/-! ## Callbacks -/

/-- The state callback, and the backend. -/
inductive Op where
  | state
  | start (prompt : String)
  | cancel
  deriving DecidableEq

/-- What a callback does: it raises an `Exception`, or what is none; it gives a state, or the
status and the code of a `ProcessResult`, or any other value. -/
inductive Answer where
  | raised (interrupt : Bool)
  | state (v : VoiceState)
  | result (status code : String)
  | object
  deriving DecidableEq

/-- What a method raises: an `Exception`, or what is none. -/
inductive Exc where
  | exception
  | interrupt
  deriving DecidableEq

/-- A body of the queue. -/
abbrev QM (α : Type) := Prog SpeechQueue Op Answer Exc α

/-- A raise of a callback. -/
def raise {α : Type} (interrupt : Bool) : QM α := .fail (if interrupt then .interrupt else .exception)

/-- `try: p except Exception: h`. -/
def onException {α : Type} (p h : QM α) : QM α :=
  p.catching fun e => if e = .interrupt then .fail e else h

/-- `snapshot_state(self._state())`. -/
def sample (t : Contexts) : QM VoiceState := do
  match ← Prog.ask .state with
  | .state v =>
    match snapshotState t v with
    | some s => pure s
    | none => throw .exception
  | .raised interrupt => raise interrupt
  | _ => throw .exception

/-- What `_current` wants of a sample. -/
def allows (t : Contexts) (snapshot current : VoiceState) : Bool :=
  sameState t current snapshot && !current.muted && current.mode = "command"

/-- `_current`. Without a snapshot nothing is current. -/
def isCurrent (t : Contexts) (snapshot : Option VoiceState) (epoch : ℕ) : QM Bool := do
  let current ← sample t
  let now ← Prog.read SpeechQueue.epoch
  pure ((snapshot.any fun s => allows t s current) && epoch = now)

/-- A result that proves that the backend is clean. -/
def Answer.clean : Answer → Bool
  | .result status code =>
    ["success", "canceled", "failed"].contains status && code ≠ "process.cleanup-unproven"
  | _ => false

/-- `_stop`: the backend's `cancel`. -/
def cancelBackend : QM Bool :=
  (onException
    (do match ← Prog.ask .cancel with
        | .raised interrupt => raise interrupt
        | a => pure a.clean)
    (pure false)).lastly (Prog.write (SpeechQueue.stop false))

/-- `_stop`. -/
def stop : QM Unit := do
  let q ← Prog.read id
  if q.stopping then pure ()
  else do
    if q.active then do
      Prog.write (SpeechQueue.stop true)
      let clean ← cancelBackend
      Prog.write (SpeechQueue.retire clean)
    Prog.write SpeechQueue.settle

/-- `say`, once the queue is stopped: start the backend. -/
def launch (t : Contexts) (prompt : String) (snapshot : VoiceState) (epoch : ℕ) : QM Bool := do
  Prog.write fun q => { q.own with snapshot := some snapshot }
  let started ← onException
    (do match ← Prog.ask (.start prompt) with
        | .raised interrupt => raise interrupt
        | _ => do
          -- a cancellation may have come before the backend had its last resource
          Prog.write SpeechQueue.own
          if ← isCurrent t (some snapshot) epoch then pure true
          else do
            Prog.write (SpeechQueue.tell "speech.stale")
            stop
            pure false)
    (do Prog.write SpeechQueue.own
        Prog.write (SpeechQueue.tell "speech.unavailable")
        stop
        pure false)
  if started then Prog.write (SpeechQueue.tell "speech.started")
  pure started

/-- `say`, its first look at the state: the snapshot, and whether it is eligible. -/
def consider (t : Contexts) (activationId : Option String) (epoch : ℕ) :
    QM (Option (VoiceState × Bool)) :=
  onException
    (do let snapshot ← sample t
        if activationId ≠ some snapshot.activationId then pure (some (snapshot, false))
        else do
          let current ← isCurrent t (some snapshot) epoch
          pure (some (snapshot, current)))
    (pure none)

/-- `say`, while it is busy. -/
def announce (t : Contexts) (prompt : String) (activationId : Option String) : QM Bool := do
  let epoch ← Prog.read SpeechQueue.epoch
  match ← consider t activationId epoch with
  | none => do
    Prog.write (SpeechQueue.tell "speech.state-unavailable")
    stop
    pure false
  | some (_, false) => do
    Prog.write (SpeechQueue.tell "speech.stale")
    stop
    pure false
  | some (snapshot, true) => do
    stop
    if ← Prog.read SpeechQueue.faulted then pure false
    else do
      if ← onException (isCurrent t (some snapshot) epoch) (pure false) then
        launch t prompt snapshot epoch
      else do
        Prog.write (SpeechQueue.tell "speech.stale")
        pure false

/-! ## Methods -/

/-- `say`. `none` stands for an argument that is no text. -/
def say (t : Contexts) (prompt activationId : Option String) : QM Bool := do
  let q ← Prog.read id
  if q.faulted || q.busy || q.stopping then pure false
  else
    match prompt.filter prompts.contains with
    | none => do
      Prog.write (SpeechQueue.tell "speech.invalid-prompt")
      pure false
    | some prompt => do
      Prog.write (SpeechQueue.occupy true)
      (announce t prompt activationId).lastly (Prog.write (SpeechQueue.occupy false))

/-- `cancel`, before it has the lock. -/
def advance : QM Unit := Prog.write fun q => { q with epoch := q.epoch + 1 }

/-- `cancel`, under the lock. -/
def finish : QM Unit := do
  Prog.write (SpeechQueue.tell "speech.canceled")
  stop

/-- `poll`. -/
def poll (t : Contexts) : QM Unit := do
  let q ← Prog.read id
  if !q.active || q.busy || q.stopping then pure ()
  else do
    Prog.write (SpeechQueue.occupy true)
    Prog.lastly (do
      let current ← onException (isCurrent t q.snapshot q.epoch) (pure false)
      if !current then do
        Prog.write (SpeechQueue.tell "speech.stale")
        stop) (Prog.write (SpeechQueue.occupy false))

/-! ## The machine -/

/-- A call. `advance` and `finish` are the halves of a `cancel` in another thread. -/
inductive Method where
  | say (prompt activationId : Option String)
  | cancel
  | poll
  | advance
  | finish

/-- A call, run. -/
def body (t : Contexts) : Method → QM Bool
  | .say prompt activationId => say t prompt activationId
  | .cancel => do
    advance
    finish
    pure false
  | .poll => do
    poll t
    pure false
  | .advance => do
    advance
    Prog.write fun q => { q with waiting := q.waiting + 1 }
    pure false
  | .finish => do
    Prog.write fun q => { q with waiting := q.waiting - 1 }
    finish
    pure false

/-- **The queue**: any callback may call any method. What waits in another thread is finished
where no call is under way. -/
def queue (t : Contexts) : Machine SpeechQueue Op Answer Exc Method Bool where
  body := body t
  enter w ctx m := match m with
    | .finish => ctx.isEmpty && 0 < w.st.waiting
    | _ => true

/-- A world of the queue. -/
abbrev QWorld := World SpeechQueue Op Answer Exc Method Bool

/-- A log entry of the queue. -/
abbrev QEntry := Entry SpeechQueue Op Answer Exc Method Bool

/-- A configuration of the queue. -/
abbrev QConfig := Config SpeechQueue Op Answer Exc Method Bool

end Speech

end Arhugula
