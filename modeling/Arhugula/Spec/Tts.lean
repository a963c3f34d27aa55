import Arhugula.Reentrant.Machine
import Arhugula.Spec.Session
import Arhugula.Spec.TtsRecords

/-!
# The speech output (`runtime/voice/tts.py`)

A `TtsOutput` has one call at most, and borrows the generation of a `SessionOwner` for it. A call asks
the gateway for audio, then obtains a mix lease and a player. Its methods run under a re-entrant lock;
the snapshot source, the gateway, the factories and what they make may call them again.

Two things come from other threads. `cancel` raises the epoch before it has the lock: `invalidate` and
`finish` are its two halves there. And the clients of the owner call it as they like. Where the source
looks at the epoch or at the owner and no callback comes right before, the callback `gap` stands for the
moment that other threads may have.
-/

namespace Arhugula

namespace Tts

open Reentrant Session
open Conversation (TurnToken)

variable {digest : Providers.Manifest → String}

/-! ## Records -/

/-- `PlaybackState`. -/
inductive PlaybackState where
  | pending | complete | failed
  deriving DecidableEq

/-- `_Call`. A player and a mix lease are known by their number. -/
structure Call where
  snapshot : AudioSnapshot
  ready : Ready
  epoch : ℕ
  gatewayOwned : Bool
  synthesisClean : Bool
  unknown : Bool
  player : Option ℕ
  mix : Option ℕ
  polls : ℕ
  providerId : Option String
  modelVersion : Option String
  failures : List Gateway.Failure
  success : Code
  deriving DecidableEq

namespace Call

/-- `_Call(...)`. -/
def new (snapshot : AudioSnapshot) (ready : Ready) (epoch : ℕ) : Call :=
  ⟨snapshot, ready, epoch, false, true, false, none, none, 0, none, none, [], .played⟩

/-- `snapshot.current_turn.generation`. -/
def generation (c : Call) : Option ℕ := c.snapshot.currentTurn.map TurnToken.generation

/-- The completion of a call. -/
def completion (c : Call) (code : Code) : Completion := ⟨code, c.providerId, c.modelVersion, c.failures⟩

end Call

/-- The fields of a `TtsOutput` that only the thread with the lock writes. -/
structure Slot where
  busy : Bool
  fault : Bool
  call : Option Call
  terminal : Option Completion
  phase : Phase
  code : Code

/-- A `TtsOutput`, its epoch and its owner, and how many cancellations of other threads wait for its
lock. -/
structure TtsOutput extends Slot where
  epoch : ℕ
  owner : SessionOwner
  waiting : ℕ

namespace TtsOutput

/-- A new output, of a new owner. -/
def new (sessionId : String) : TtsOutput :=
  { busy := false, fault := false, call := none, terminal := none, phase := .idle, code := .idle, epoch := 0,
    owner := .new sessionId, waiting := 0 }

variable (d : TtsOutput)

/-- `cleanup_proven`. -/
def cleanupProven : Bool := d.call.isNone && !d.busy && !d.fault

/-- `_busy = b`. -/
def occupy (b : Bool) : TtsOutput := { d with busy := b }

/-- `_code = code`. -/
def tell (code : Code) : TtsOutput := { d with code := code }

/-- `_phase, _code = phase, code`. -/
def present (phase : Phase) (code : Code) : TtsOutput := { d with phase := phase, code := code }

/-- `_call = call`. -/
def hold (call : Option Call) : TtsOutput := { d with call := call }

/-- A change of the call. -/
def change (f : Call → Call) : TtsOutput := { d with call := d.call.map f }

/-- `_retire`: publish a completion, and drop the call. -/
def publish (completion : Completion) : TtsOutput :=
  { d with
    terminal := some completion
    call := none
    phase := if d.fault then .faulted else .idle
    code := completion.code }

end TtsOutput

/-! ## Callbacks -/

/-- The snapshot source, the gateway and its configuration, the factories and what they make; and a
moment of other threads. -/
inductive Op where
  | sample
  | state
  | gatewayStart (request : Gateway.Request)
  | gatewayPoll
  | gatewayCancel
  | gatewayProven
  | mixes
  | apply (mix : ℕ) (intent : MixIntent)
  | restore (mix : ℕ)
  | players
  | start (player : ℕ) (pcm : Gateway.Bytes)
  | poll (player : ℕ)
  | cancel (player : ℕ)
  | gap
  deriving DecidableEq

/-- What a callback does: it raises a `GatewayError`, another `Exception`, or what is none; it gives
`None`, a snapshot, the state of the configuration, a result, an object that has the required methods or
has not, a playback state, `True`, or any other value. -/
inductive Answer (digest : Providers.Manifest → String) where
  | raised (interrupt : Bool)
  | gatewayError (code : Gateway.Code)
  | none
  | snapshot (s : AudioSnapshot)
  | status (s : Providers.Status digest)
  | result (t : Gateway.Terminal)
  | handle (n : ℕ) (complete : Bool)
  | playback (s : PlaybackState)
  | true
  | object

/-- `answer is True`. -/
def Answer.isTrue : Answer digest → Bool
  | .true => Bool.true
  | _ => false

/-- What a method raises: the `_Stop` of a code, a `ValueError`, another `Exception`, or what is none. -/
inductive Exc where
  | stop (code : Code)
  | value
  | exception
  | interrupt
  deriving DecidableEq

/-- A body of the output. -/
abbrev TM (digest : Providers.Manifest → String) (α : Type) := Prog TtsOutput Op (Answer digest) Exc α

/-- `try: p except Exception: h`. -/
def onException {α : Type} (p h : TM digest α) : TM digest α :=
  p.catching fun e => if e = .interrupt then .fail e else h

/-- A callback, what it raises raised. -/
def ask (op : Op) : TM digest (Answer digest) := do
  match ← Prog.ask op with
  | .raised interrupt => .fail (if interrupt then .interrupt else .exception)
  | .gatewayError _ => throw .exception
  | a => pure a

/-- A moment of other threads. -/
def gap : TM digest Unit := do
  let _ ← Prog.ask .gap
  pure ()

/-- A value, or a raise. -/
def expect {α : Type} (e : Exc) : Option α → TM digest α
  | some a => pure a
  | none => throw e

/-- The call. -/
def held : TM digest Call := do
  let d ← Prog.read id
  expect .exception d.call

/-- A change of the call. -/
def change (f : Call → Call) : TM digest Unit := Prog.write fun d => d.change f

/-! ## The controller -/

/-- `_gateway_code`. -/
def gatewayCode : Gateway.Code → Code
  | .replay => .replay
  | .busy => .busy
  | .cleanup => .cleanup
  | .exhausted | .timeout => .limit
  | .invalidResponse => .invalidAudio
  | _ => .unavailable

/-- `_sample`. -/
def sample : TM digest AudioSnapshot := do
  match ← ask .sample with
  | .snapshot s => pure s
  | _ => throw (.stop .unavailable)

/-- `_configuration.state`. -/
def state : TM digest (Providers.Status digest) := do
  match ← ask .state with
  | .status s => pure s
  | _ => throw .exception

/-- The text of a number: ASCII digits. -/
def decimal (digits : List Char) : Option ℕ :=
  if digits ≠ [] && digits.all fun c => '0' ≤ c && c ≤ '9' then
    some (digits.foldl (fun n c => 10 * n + (c.toNat - '0'.toNat)) 0)
  else none

/-- `_belongs`. -/
def belongs (o : SessionOwner) (t : TurnToken) : Bool :=
  let session := o.sessionId.toList ++ [':']
  session.isPrefixOf t.sessionId.toList &&
    (decimal (t.sessionId.toList.drop session.length)).any (fun n => 0 < n && n ≤ t.generation) &&
      o.accepts (some t.generation)

/-- `_check`, under the gate. -/
def judge (d : TtsOutput) (current : AudioSnapshot) (active : Providers.Status digest) : Except Exc Unit :=
  match d.call with
  | none => .error .exception
  | some call =>
    if call.epoch ≠ d.epoch then .error (.stop .canceled)
    else if current ≠ call.snapshot then .error (.stop .stale)
    else match current.currentTurn with
      | none => .error .exception
      | some turn =>
        if !belongs d.owner turn then .error (.stop .stale)
        else match active, call.snapshot.policy with
          | .disabled .., _ => .error (.stop .stale)
          | .active .., none => .error .exception
          | .active revision _, some p =>
            if revision ≠ p.configurationRevision then .error (.stop .stale) else .ok ()

/-- `_check`. -/
def check : TM digest Unit := do
  let current ← sample
  let active ← state
  let d ← Prog.read id
  Prog.ofExcept (judge d current active)

/-- `_cleanup`: one call that may prove something. -/
def proves (op : Op) : TM digest Bool :=
  onException
    (do let a ← ask op
        pure a.isTrue)
    (pure false)

/-- `_cleanup`: the gateway. -/
def cancelGateway : TM digest Bool :=
  onException
    (do let _ ← ask .gatewayCancel
        let result ← ask .gatewayPoll
        let proven ← ask .gatewayProven
        match result with
        | .result (.failed failures) => change fun c => { c with failures := failures }
        | _ => pure ()
        pure proven.isTrue)
    (pure false)

/-- `_cleanup`: a handle, if there is one. -/
def letGo (op : Option Op) (clean : Bool) : TM digest Bool :=
  match op with
  | none => pure clean
  | some op => do
    let proven ← proves op
    pure (proven && clean)

/-- `_cleanup`. -/
def cleanup : TM digest Bool := do
  let call ← held
  let clean := !call.unknown && call.synthesisClean
  let clean ←
    if call.gatewayOwned then do
      let proven ← cancelGateway
      change fun c => { c with gatewayOwned := false }
      pure (proven && clean)
    else pure clean
  -- the mix is restored even where the player is not canceled
  let clean ← letGo (call.player.map .cancel) clean
  let clean ← letGo (call.mix.map .restore) clean
  change fun c => { c with player := none, mix := none }
  pure clean

/-- `_retire`: the last check. -/
def recheck (code : Code) : TM digest Code :=
  Prog.catching
    (do check
        pure code)
    (fun e => match e with
      | .stop code => pure code
      | .interrupt => throw .interrupt
      | _ => pure .unavailable)

/-- `_retire`: fault the generation that is borrowed. -/
def faultOwner : TM digest Unit := do
  Prog.write fun d => { d with fault := true }
  gap
  let call ← held
  let g ← expect .exception call.generation
  let owner ← Prog.read TtsOutput.owner
  match owner.release (some g) (some false) with
  | .ok o => Prog.write fun d => { d with owner := o }
  | .error .value => throw .value
  | .error _ => pure ()

/-- The code of a completion, under the gate. -/
def finalCode (d : TtsOutput) (call : Call) (clean : Bool) (code : Code) : Code :=
  if clean && call.epoch ≠ d.epoch then .canceled
  else if clean && !d.owner.accepts (call.generation.map Int.ofNat) then .stale
  else code

/-- `_retire`. -/
def retire (code : Code) : TM digest Unit := do
  Prog.write fun d => { d with phase := .stopping }
  let clean ← cleanup
  let code ← recheck code
  if !clean then faultOwner
  let call ← held
  let completion ← expect .value (call.completion (if clean then code else .cleanup)).make
  gap
  Prog.write fun d => d.publish { completion with code := finalCode d call clean completion.code }
  gap

/-- `_stop_or_notice`. -/
def stopOrNotice (code : Code) : TM digest Unit := do
  if ← Prog.read fun d => d.call.isSome then retire code
  else Prog.write fun d => d.tell code

/-- `_run`. -/
def run {α : Type} (operation : TM digest α) (refused : α) : TM digest α := do
  if ← Prog.read fun d => d.busy then pure refused
  else do
    Prog.write fun d => d.occupy true
    Prog.lastly
      (Prog.catching operation fun e => match e with
        | .interrupt => throw .interrupt
        | .stop code => do
          stopOrNotice code
          pure refused
        | _ => do
          stopOrNotice .unavailable
          pure refused)
      (Prog.write fun d => d.occupy false)

/-! ## Operations -/

/-- `start`, under `_run`. -/
def starting (b : Binding) (u : Utterance) : TM digest Bool := do
  let epoch ← Prog.read TtsOutput.epoch
  let snapshot ← sample
  let active ← state
  match admission b u snapshot active with
  | .error code => do
    Prog.write fun d => d.tell code
    pure false
  | .ok ready => do
    let owner ← Prog.read TtsOutput.owner
    if !belongs owner u.token then throw (.stop .stale)
    else do
      Prog.write fun d => d.hold (some (.new snapshot ready epoch))
      check
      match ← Prog.ask (.gatewayStart ready.request) with
      | .raised interrupt => .fail (if interrupt then .interrupt else .exception)
      | .gatewayError code => do
        Prog.write fun d => (d.hold none).tell (gatewayCode code)
        pure false
      | _ => do
        change fun c => { c with gatewayOwned := true }
        Prog.write fun d => d.present .synthesizing .started
        check
        pure true

/-- `start`. `none` stands for what is no `Utterance`. -/
def start (b : Binding) : Option Utterance → TM digest Bool
  | none => throw .value
  | some u => do
    let d ← Prog.read id
    if d.fault || d.call.isSome || d.terminal.isSome then pure false
    else run (starting b u) false

/-- `_play`: a handle from a factory, and its `_contract`. -/
def obtain (factory : Op) (keep : Option ℕ → Call → Call) : TM digest ℕ := do
  change fun c => { c with unknown := true }
  match ← ask factory with
  | .handle n complete => do
    change (keep (some n))
    if complete then do
      change fun c => { c with unknown := false }
      pure n
    else throw (.stop .cleanup)
  | _ => do
    change (keep none)
    throw (.stop .cleanup)

/-- `_play`. -/
def play (pcm : Gateway.Bytes) : TM digest Unit := do
  let mix ← obtain .mixes fun n c => { c with mix := n }
  check
  let call ← held
  let _ ← ask (.apply mix call.ready.mix)
  check
  let player ← obtain .players fun n c => { c with player := n }
  check
  let _ ← ask (.start player pcm)
  check
  change fun c => { c with polls := 0 }
  Prog.write fun d => d.present .playing .playing

/-- `_advance`: a result with audio. -/
def received (s : Gateway.Success) : TM digest Unit :=
  match s.output with
  | .speech pcm => do
    change fun c => { c with providerId := some s.providerId, modelVersion := some s.modelVersion }
    let call ← held
    if !call.synthesisClean then throw (.stop .cleanup)
    else do
      check
      play pcm
  | _ => throw (.stop .invalidAudio)

/-- `_advance`: a result of the gateway. -/
def concluded (t : Gateway.Terminal) : TM digest Unit := do
  change fun c => { c with gatewayOwned := false }
  let proven ← ask .gatewayProven
  change fun c => { c with synthesisClean := proven.isTrue }
  match t with
  | .failed failures => do
    change fun c => { c with failures := failures }
    let last ← expect .exception failures.getLast?
    throw (.stop (gatewayCode last.code))
  | .degraded s primary => do
    change fun c => { c with failures := [primary], success := .degraded }
    received s
  | .success s => received s

/-- `_advance`, while the gateway is asked. -/
def synthesize : TM digest Unit := do
  match ← ask .gatewayPoll with
  | .result t => concluded t
  | _ => do
    check
    let call ← held
    let p ← expect .exception call.snapshot.policy
    if p.limits.synthesisPolls ≤ call.polls then throw (.stop .limit)

/-- `_advance`, while the player plays. -/
def playback : TM digest Unit := do
  let call ← held
  let player ← expect .exception call.player
  let result ← ask (.poll player)
  check
  let call ← held
  let p ← expect .exception call.snapshot.policy
  match result with
  | .playback .complete => retire call.success
  | .playback .pending => if p.limits.playbackPolls ≤ call.polls then throw (.stop .limit)
  | _ => throw (.stop .unavailable)

/-- `_advance`. -/
def advance : TM digest Unit := do
  if ← Prog.read fun d => d.call.isNone then pure ()
  else do
    check
    change fun c => { c with polls := c.polls + 1 }
    match ← Prog.read fun d => d.phase with
    | .synthesizing => synthesize
    | .playing => playback
    | _ => pure ()

/-- `poll`. -/
def poll : TM digest (Option Completion) := do
  if ← Prog.read fun d => d.busy then pure none
  else do
    run advance ()
    let result ← Prog.read fun d => d.terminal
    Prog.write fun d => { d with terminal := none }
    pure result

/-- `cancel`, before it has the lock. -/
def invalidate : TM digest Unit := Prog.write fun d => { d with epoch := d.epoch + 1 }

/-- `cancel`, under the lock. -/
def finish : TM digest Unit := do
  let d ← Prog.read id
  if d.call.isSome && !d.busy then run (retire .canceled) ()

/-! ## The machine -/

/-- A call. `invalidate` and `finish` are the halves of a `cancel` in another thread; the last three are
calls of the owner by its clients. -/
inductive Method where
  | start (utterance : Option Utterance)
  | poll
  | cancel
  | invalidate
  | finish
  | ownerBegin (mode : Option String)
  | ownerCancel (generation : Option (Option ℤ))
  | ownerRelease (generation : Option ℤ) (cleaned : Option Bool)

/-- What a method returns: a Boolean, a completion or `None`. -/
inductive Value where
  | started (b : Bool)
  | completion (c : Option Completion)
  | none

/-- A call of the owner by a client. -/
def client (m : Method) (d : TtsOutput) : TtsOutput :=
  match m with
  | .ownerBegin mode =>
    match d.owner.begin mode with
    | .ok (_, o) => { d with owner := o }
    | .error _ => d
  | .ownerCancel generation =>
    match d.owner.cancel generation with
    | .ok (_, o) => { d with owner := o }
    | .error _ => d
  | .ownerRelease generation cleaned =>
    match d.owner.release generation cleaned with
    | .ok o => { d with owner := o }
    | .error _ => d
  | _ => d

/-- Nothing but what it does. -/
def silent (p : TM digest Unit) : TM digest Value := do
  p
  pure .none

/-- A call, run. -/
def body (b : Binding) : Method → TM digest Value
  | .start u => do
    let r ← start b u
    pure (.started r)
  | .poll => do
    let c ← poll
    pure (.completion c)
  | .cancel => silent (do
      invalidate
      finish)
  | .invalidate => silent (Prog.write fun d => { d with epoch := d.epoch + 1, waiting := d.waiting + 1 })
  | .finish => silent (do
      Prog.write fun d => { d with waiting := d.waiting - 1 }
      finish)
  | m => silent (Prog.write (client m))

/-- **The output.** In a moment of other threads, what needs no lock may be called; in a callback, and
where nothing is under way, everything but what waits for the lock, which goes on where nothing is under
way. -/
def output (digest : Providers.Manifest → String) (b : Binding) :
    Machine TtsOutput Op (Answer digest) Exc Method Value where
  body := body b
  enter w ctx m :=
    match m with
    | .invalidate | .ownerBegin _ | .ownerCancel _ | .ownerRelease _ _ => true
    | .finish => ctx.isEmpty && 0 < w.st.waiting
    | .start u => u.all Utterance.valid && ctx.all fun f => f.2 ≠ .gap
    | .poll | .cancel => ctx.all fun f => f.2 ≠ .gap
  legal _ op a :=
    match op, a with
    | .sample, .snapshot s => s.valid
    | .state, .status _ => true
    | .state, _ => false
    | .gatewayProven, .true | .gatewayProven, .object => true
    | .gatewayProven, _ => false
    | .gatewayStart _, .gatewayError _ => true
    | _, .gatewayError _ => false
    | .gatewayPoll, .raised _ | .gatewayPoll, .none | .gatewayPoll, .result _ => true
    | .gatewayPoll, _ => false
    | .mixes, .raised _ | .mixes, .none | .mixes, .handle _ _ => true
    | .mixes, _ => false
    | .players, .raised _ | .players, .none | .players, .handle _ _ => true
    | .players, _ => false
    | .gap, .none => true
    | .gap, _ => false
    | _, _ => true

variable (digest)

/-- A world of the output. -/
abbrev TWorld := World TtsOutput Op (Answer digest) Exc Method Value

/-- A log entry of the output. -/
abbrev TEntry := Entry TtsOutput Op (Answer digest) Exc Method Value

/-- A configuration of the output. -/
abbrev TConfig := Config TtsOutput Op (Answer digest) Exc Method Value

end Tts

end Arhugula
