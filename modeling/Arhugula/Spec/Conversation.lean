import Arhugula.Reentrant.Machine
import Arhugula.Spec.ConversationRecords
import Arhugula.Spec.Session

/-!
# The conversation (`runtime/voice/conversation.py`)

A `Conversation` borrows the `SessionOwner` for one generation at a time, its lease. Its methods
run under a re-entrant lock, and its snapshot source and its jobs may call them again.

Two things come from other threads. The first half of a cancellation does not wait for the lock:
`look` and `strike` are its two steps, under the gate, and `resume` is what it does when it has the
lock. And the other clients of the owner call it as they like. Where the source looks at the
intent, at the lease or at the owner and no callback comes right before, the callback `gap` stands
for the moment that other threads may have.
-/

namespace Arhugula

namespace Conversation

open Reentrant Session

/-- What the conversation did with the owner. -/
inductive Deed where
  | began (g : ℕ)
  | canceled (g : ℕ)
  | released (g : ℕ) (cleaned : Bool)
  deriving DecidableEq

/-- The fields of a `Conversation` that only the thread with the lock writes. `gate`: it holds the
gate while others run. -/
structure Controller where
  busy : Bool
  lease : Option ℕ
  snapshot : Option Snapshot
  sessionId : Option String
  request : Option Request
  job : Option ℕ
  unknownJob : Bool
  history : List Exchange
  turn : ℕ
  polls : ℕ
  phase : Display
  code : Option Code
  gate : Bool

/-- A `Conversation`, its intent and its owner. `others`: the generations that other clients began.
`found`: the cancellations of other threads that found it active. `waiting`: those that wait for the
lock. `deeds`: what it did with the owner. -/
structure Desk extends Controller where
  intent : Option Code
  owner : SessionOwner
  others : List ℕ
  found : List Code
  waiting : ℕ
  deeds : List Deed

namespace Desk

/-- A new conversation, of a new owner. -/
def new (sessionId : String) : Desk :=
  { busy := false, lease := none, snapshot := none, sessionId := none, request := none, job := none,
    unknownJob := false, history := [], turn := 0, polls := 0, phase := .inactive,
    code := some .inactive, gate := false, intent := none, owner := .new sessionId, others := [],
    found := [], waiting := 0, deeds := [] }

variable (d : Desk)

/-- `notice.state`. -/
def display : Display := if d.intent ≠ none then .stopping else d.phase

/-- `pending`. -/
def pending : Option TurnToken := d.request.map Request.token

/-- The phases of a conversation that was entered. -/
def active : Bool := [Display.ready, .processing, .clarifying].contains d.phase

/-- `_busy = b`. -/
def occupy (b : Bool) : Desk := { d with busy := b }

/-- `_phase = phase`. -/
def present (phase : Display) : Desk := { d with phase := phase }

/-- `_phase, _code = phase, code`. -/
def tell (phase : Display) (code : Code) : Desk := { d with phase := phase, code := some code }

/-- `_invalidate`, its first half. -/
def intend (code : Code) : Desk :=
  { d with intent :=
      if d.intent = none ∨ d.intent = some .canceled ∨ code = .ended ∨ code = .handoff then some code
      else d.intent }

/-- A `cancel` of its lease. -/
def strike (g : ℕ) (o : SessionOwner) : Desk := { d with owner := o, deeds := .canceled g :: d.deeds }

/-- A new lease. -/
def borrow (g : ℕ) (o : SessionOwner) : Desk :=
  { d with owner := o, lease := some g, deeds := .began g :: d.deeds }

/-- A lease that was given back. -/
def giveBack (g : ℕ) (cleaned : Bool) (o : SessionOwner) : Desk :=
  { d with owner := o, deeds := .released g cleaned :: d.deeds }

/-- `_session_id`, of a lease. -/
def name (g : ℕ) : Desk := { d with sessionId := some (d.owner.sessionId ++ ":" ++ toString g) }

/-- `_snapshot, _history, _turn = snapshot, (), 0`. -/
def open_ (s : Snapshot) : Desk := { d with snapshot := some s, history := [], turn := 0 }

/-- `_turn += 1`. -/
def charge : Desk := { d with turn := d.turn + 1 }

/-- `_polls += 1`. -/
def count : Desk := { d with polls := d.polls + 1 }

/-- `_request = request`. -/
def ask (request : Option Request) : Desk := { d with request := request }

/-- The end of `_cleanup`. -/
def drop (clean : Bool) : Desk := { d with job := none, unknownJob := !clean }

/-- `_history += (exchange,)`, and the end of its request. -/
def publish (x : Exchange) : Desk :=
  { d with history := d.history ++ [x], request := none, phase := .ready, code := some .ready }

/-- The end of `_stop`, unless it is `READY`. -/
def clear : Desk := { d with history := [], snapshot := none, sessionId := none }

end Desk

/-! ## Callbacks -/

/-- The snapshot source, the job factory and the jobs; and a moment of other threads. -/
inductive Op where
  | snapshot
  | jobs
  | start (job : ℕ) (request : Request)
  | poll (job : ℕ)
  | cancel (job : ℕ)
  | proven (job : ℕ)
  | gap
  deriving DecidableEq

/-- What a callback does: it raises an `Exception`, or what is none; it gives `None`, a record, a
job, `True`, or any other value. -/
inductive Answer where
  | raised (interrupt : Bool)
  | none
  | snapshot (s : Snapshot)
  | job (j : ℕ)
  | response (r : Response)
  | true
  | object
  deriving DecidableEq

/-- What a method raises: the `_Stop` of a code, an error of the owner, a `ValueError`, another
`Exception`, or what is none. -/
inductive Exc where
  | stop (code : Code)
  | session (e : Session.Error)
  | value
  | exception
  | interrupt
  deriving DecidableEq

/-- The `BusyError` of a conversation. -/
def Exc.busy : Exc := .session .busy

/-- A body of the conversation. -/
abbrev DM (α : Type) := Prog Desk Op Answer Exc α

/-- A raise of a callback. -/
def raise {α : Type} (interrupt : Bool) : DM α := .fail (if interrupt then .interrupt else .exception)

/-- `try: p except Exception: h`. -/
def onException {α : Type} (p h : DM α) : DM α :=
  p.catching fun e => if e = .interrupt then .fail e else h

/-- `try: p except _Stop as stop: h(stop.code)`. -/
def onStop {α : Type} (p : DM α) (h : Code → DM α) : DM α :=
  p.catching fun e => match e with
    | .stop code => h code
    | e => .fail e

/-- A moment of other threads. -/
def gap : DM Unit := do
  let _ ← Prog.ask .gap
  pure ()

/-- A value, or a raise. -/
def expect {α : Type} (e : Exc) : Option α → DM α
  | some a => pure a
  | none => throw e

/-- What a method of the owner gives. -/
def fromOwner {α : Type} : Except Session.Error α → DM α
  | .ok a => pure a
  | .error e => throw (.session e)

/-! ## The controller -/

/-- `_sample`. -/
def sample : DM Snapshot := do
  match ← Prog.ask .snapshot with
  | .snapshot s => pure s
  | .raised true => throw .interrupt
  | _ => throw (.stop .unavailable)

/-- `_eligible`, and the policy of what is. -/
def eligible (s : Snapshot) : Except Code ConversationPolicy :=
  match s.policy with
  | none => .error .denied
  | some p =>
    if !s.profile.enabled || !s.profile.voiceEnabled || p.profileId ≠ s.profile.profileId ||
        p.policyId ≠ s.profile.policyId || p.exitKey ∈ s.setup.occupied ∪ s.setup.reserved then
      .error .denied
    else if s.context.state = .unavailable then .error .unavailable
    else if p.limits.contextItems < s.context.items.length ||
        p.limits.contextChars < itemChars s.context.items then
      .error .limit
    else .ok p

/-- `owner.accepts(_lease)`. -/
def Desk.accepted (d : Desk) : Bool := d.owner.accepts (d.lease.map Int.ofNat)

/-- `_check`. -/
def check : DM Unit := do
  let current ← sample
  let d ← Prog.read id
  match d.intent with
  | some code => throw (.stop code)
  | none => if d.snapshot ≠ some current || !d.accepted then throw (.stop .stale)

/-- `_invalidate`. -/
def invalidate (code : Code) : DM Unit := do
  Prog.write fun d => d.intend code
  let d ← Prog.read id
  match d.lease with
  | none => pure ()
  | some g => do
    let (_, o) ← fromOwner (d.owner.cancel (some (some g)))
    Prog.write fun d => d.strike g o

/-- `_cleanup`: cancel the job, and have it prove that all is clean. -/
def cancelJob (j : ℕ) (clean : Bool) : DM Bool :=
  onException
    (do match ← Prog.ask (.cancel j) with
        | .raised interrupt => raise interrupt
        | _ =>
          match ← Prog.ask (.proven j) with
          | .raised interrupt => raise interrupt
          | a => pure (a = .true && clean))
    (pure false)

/-- `_cleanup`. -/
def cleanup : DM Bool := do
  let d ← Prog.read id
  let clean ← match d.job with
    | none => pure (!d.unknownJob)
    | some j => cancelJob j !d.unknownJob
  Prog.write fun d => d.drop clean
  pure clean

/-- `_stop`: what was canceled must find its snapshot unchanged. -/
def drift : DM Unit := do
  let snapshot ← Prog.read fun d => d.snapshot
  onStop
    (do let current ← sample
        if snapshot ≠ some current then do
          gap
          invalidate .stale)
    (fun code => do
      gap
      invalidate code)

/-- `_stop`: give back the lease. -/
def handBack (lease : Option ℕ) (clean : Bool) : DM Unit := do
  Prog.write fun d => { d with lease := none }
  match lease with
  | none => pure ()
  | some g => do
    let owner ← Prog.read Desk.owner
    let o ← fromOwner (owner.release (some g) (some clean))
    Prog.write fun d => d.giveBack g clean o

/-- `_stop`: begin again, if no other client won the gap. -/
def beginAgain : DM Unit := do
  -- the gate is held: only the clients of the owner can run
  Prog.write fun d => { d with gate := true }
  gap
  Prog.write fun d => { d with gate := false }
  let owner ← Prog.read Desk.owner
  match owner.begin (some "conversation") with
  | .ok (g, o) => Prog.write fun d => (d.borrow g o).present .ready
  | .error .value => throw (.session .value)
  | .error _ => Prog.write fun d => { d with code := some .busy }

/-- `_stop`, under the gate. -/
def close (clean : Bool) : DM Unit := do
  let d ← Prog.read id
  let code := d.intent
  let lease := d.lease
  handBack lease clean
  Prog.write fun d => { d with phase := .inactive, code := code }
  if !clean then Prog.write fun d => d.tell .faulted .cleanup
  else if code = some .canceled && lease ≠ none then beginAgain
  Prog.write fun d => { d with intent := none }

/-- `_stop`. -/
def stop : DM Unit := do
  Prog.write fun d => d.present .stopping
  let clean ← cleanup
  gap
  let d ← Prog.read id
  if clean && d.intent = some .canceled && d.snapshot ≠ none then drift
  Prog.write fun d => d.ask none
  gap
  close clean
  let phase ← Prog.read fun d => d.phase
  if phase ≠ .ready then Prog.write Desk.clear

/-- `_run`: what the operation returned, if it was not stopped, and whether all was stopped. -/
def run {α : Type} (operation : DM α) : DM (Option α × Bool) := do
  if ← Prog.read fun d => d.busy then throw Exc.busy
  else do
    Prog.write fun d => d.occupy true
    Prog.lastly (do
      let r ← Prog.attempt (onStop (some <$> operation) fun code => do
        gap
        invalidate code
        pure none)
      gap
      let stopped ← Prog.read fun d => d.intent.isSome
      if stopped then stop
      let v ← Prog.ofExcept r
      pure (v, stopped)) (Prog.write fun d => d.occupy false)

/-- What `_run` returns: `None` where all was stopped. -/
def settled {α : Type} : Option α × Bool → Option α
  | (v, stopped) => if stopped then none else v

/-! ## Operations -/

/-- What an operation returns: `None`, a Boolean, a token or a response. -/
inductive Value where
  | none
  | bool (b : Bool)
  | token (t : TurnToken)
  | response (r : Response)
  deriving DecidableEq

/-- A value, where there is one. -/
def Value.of {α : Type} (f : α → Value) : Option α → Value
  | .some a => f a
  | .none => Value.none

/-- `enter`, under `_run`. -/
def entering (channel : Entry) : DM Bool := do
  if (← Prog.read fun d => d.phase) ≠ .inactive then throw Exc.busy
  else do
    let s ← sample
    match eligible s with
    | .error code => throw (.stop code)
    | .ok p =>
      if channel ∉ p.entries then throw (.stop .denied)
      else do
        let d ← Prog.read id
        match d.intent with
        | some code => throw (.stop code)
        | none => do
          let (g, o) ← fromOwner (d.owner.begin (some "conversation"))
          Prog.write fun d => (d.borrow g o).name g
          Prog.write fun d => d.open_ s
          Prog.write fun d => d.tell .ready .ready
          check
          pure true

/-- `enter`. `none` stands for what is no `Entry`. -/
def enter : Option Entry → DM Value
  | none => throw .value
  | some channel => do
    let r ← run (entering channel)
    pure (.of .bool (settled r))

/-- The characters of the history. -/
def historyChars (history : List Exchange) : ℕ :=
  (history.map fun x => x.text.length + x.response.length).sum

/-- `_context_size`. -/
def contextSize (s : Snapshot) (history : List Exchange) : ℕ :=
  itemChars s.context.items + historyChars history

/-- The snapshot and its policy. An active conversation has both. -/
def bound : DM (Snapshot × ConversationPolicy) := do
  let s ← expect .exception (← Prog.read fun d => d.snapshot)
  let p ← expect .exception s.policy
  pure (s, p)

/-- `_start`. -/
def start : DM Unit := do
  Prog.write fun d => { d.tell .processing .processing with polls := 0 }
  Prog.catching
    (do Prog.write fun d => { d with unknownJob := true }
        match ← Prog.ask .jobs with
        | .raised interrupt => raise interrupt
        | .job j => do
          Prog.write fun d => { d with job := some j, unknownJob := false }
          check
          let request ← expect .exception (← Prog.read fun d => d.request)
          match ← Prog.ask (.start j request) with
          | .raised interrupt => raise interrupt
          | _ => check
        | _ => throw .exception)
    (fun e => match e with
      | .stop code => throw (.stop code)
      | .interrupt => throw .interrupt
      | _ => throw (.stop .unavailable))

/-- `submit`, under `_run`. -/
def submitting (value : String) : DM TurnToken := do
  if !(← Prog.read Desk.active) then throw Exc.busy
  else do
    check
    let (s, p) ← bound
    if !text value p.limits.textChars then throw .value
    else if value = p.exitPhrase then throw (.stop .ended)
    else do
      let d ← Prog.read id
      if d.phase ≠ .ready then throw Exc.busy
      else if p.limits.turns ≤ d.turn ||
          p.limits.contextChars < contextSize s d.history + value.length then
        throw (.stop .limit)
      else do
        Prog.write Desk.charge
        let d ← Prog.read id
        let sessionId ← expect .value d.sessionId
        let lease ← expect .value d.lease
        let token ← expect .value (TurnToken.make
          ⟨sessionId, d.turn, lease, p.profileId, s.revision, p.revision, s.context.revision⟩)
        let request ← expect .value (Request.make ⟨token, value, s.context, d.history, none⟩)
        Prog.write fun d => d.ask (some request)
        if s.context.state = .conflicting then
          Prog.write fun d => d.tell .clarifying .conflict
        else start
        pure token

/-- `submit`. `none` stands for what is no `str`, or has surrogates. -/
def submit (value : Option String) : DM Value :=
  match value.filter (text · maxText) with
  | none => throw .value
  | some value => do
    let r ← run (submitting value)
    pure (.of .token (settled r))

/-- `clarify`, under `_run`. -/
def clarifying (c : Clarification) : DM Bool := do
  if (← Prog.read fun d => d.phase) ≠ .clarifying then pure false
  else do
    check
    match ← Prog.read fun d => d.request with
    | none => pure false
    | some r =>
      if c.token ≠ r.token || some c.conflictId ≠ r.context.conflictId then pure false
      else if c.useCurrent then do
        let request ← expect .value (Request.make { r with resolvedConflict := some c.conflictId })
        Prog.write fun d => d.ask (some request)
        start
        pure true
      else do
        Prog.write fun d => (d.ask none).tell .ready .canceled
        pure true

/-- `clarify`. `none` stands for what is no `Clarification`. -/
def clarify : Option Clarification → DM Value
  | none => throw .value
  | some c => do
    let r ← run (clarifying c)
    pure (.of .bool (settled r))

/-- `poll`: the job, asked. -/
def pollJob : DM Answer := do
  Prog.write Desk.count
  match ← Prog.read fun d => d.job with
  | none => throw (.stop .unavailable)
  | some j =>
    match ← Prog.ask (.poll j) with
    | .raised true => throw .interrupt
    | .raised false => throw (.stop .unavailable)
    | a => pure a

/-- `poll`: publish the exchange. -/
def publish (x : Exchange) : DM Unit := do
  gap
  let d ← Prog.read id
  match d.intent with
  | some code => throw (.stop code)
  | none =>
    if !d.accepted then throw (.stop .stale)
    else Prog.write fun d => d.publish x

/-- `poll`, when there is a result. -/
def conclude (r : Response) : DM Unit := do
  let (s, p) ← bound
  let d ← Prog.read id
  if some r.token ≠ d.pending then throw (.stop .invalidResult)
  else do
    let request ← expect .exception d.request
    if p.limits.textChars < r.text.length ||
        p.limits.contextChars < contextSize s d.history + request.text.length + r.text.length then
      throw (.stop .limit)
    else do
      if !(← cleanup) then throw (.stop .cleanup)
      else do
        check
        let request ← expect .exception (← Prog.read fun d => d.request)
        let x ← expect .value (Exchange.make ⟨r.token, request.text, r.text, request.resolvedConflict⟩)
        publish x

/-- `poll`, under `_run`. -/
def polling : DM (Option Response) := do
  if !(← Prog.read Desk.active) then pure none
  else do
    check
    if (← Prog.read fun d => d.phase) ≠ .processing then pure none
    else do
      let a ← pollJob
      check
      let (_, p) ← bound
      match a with
      | .none => do
        if p.limits.polls ≤ (← Prog.read fun d => d.polls) then throw (.stop .limit)
        else pure none
      | .response r => do
        conclude r
        pure (some r)
      | _ => throw (.stop .invalidResult)

/-- `poll`. -/
def poll : DM Value := do
  let r ← run polling
  pure (.of .response (settled r).join)

/-- `exit_key`, under `_run`. -/
def exiting (key : String) : DM Bool := do
  if !(← Prog.read Desk.active) then pure false
  else do
    check
    let (_, p) ← bound
    if key ≠ p.exitKey then pure false
    else do
      gap
      invalidate .ended
      pure true

/-- `exit_key`. It reports that the key matched even though it stops all. -/
def exitKey (key : Option String) : DM Value :=
  match key.filter (text · 128) with
  | none => throw .value
  | some key => do
    let r ← run (exiting key)
    pure (.bool (r.1.getD false))

/-- `_cancel`, under the lock. -/
def resume : DM Unit := do
  if ← Prog.read fun d => d.busy then pure ()
  else do
    let _ ← run (pure ())
    pure ()

/-- `_cancel`. -/
def cancel (code : Code) : DM Unit := do
  let active ← Prog.read fun d => d.lease.isSome || d.busy
  if active then do
    invalidate code
    resume

/-- `cancel_turn`. -/
def cancelTurn : DM Unit := cancel .canceled

/-- `end`. -/
def end' : DM Unit := cancel .ended

/-- `handoff`. -/
def handoff : DM Unit := cancel .handoff

/-! ## The machine -/

/-- A call: an operation; a step of a cancellation in another thread; or a call of the owner by
another client, of which `fault` is a release without cleanup by one that borrowed a lease. -/
inductive Method where
  | enter (channel : Option Entry)
  | submit (value : Option String)
  | clarify (c : Option Clarification)
  | poll
  | exitKey (key : Option String)
  | cancelTurn
  | end'
  | handoff
  | look (code : Code)
  | strike (code : Code)
  | resume
  | ownerBegin (mode : Option String)
  | ownerCancel (generation : Option (Option ℤ))
  | ownerRelease (generation : ℕ) (cleaned : Bool)
  | fault (generation : ℕ)

/-- A call of the owner by another client. -/
def client (m : Method) (d : Desk) : Desk :=
  match m with
  | .ownerBegin mode =>
    match d.owner.begin mode with
    | .ok (g, o) => { d with owner := o, others := g :: d.others }
    | .error _ => d
  | .ownerCancel generation =>
    match d.owner.cancel generation with
    | .ok (_, o) => { d with owner := o }
    | .error _ => d
  | .ownerRelease g cleaned =>
    match d.owner.release (some g) (some cleaned) with
    | .ok o => { d with owner := o }
    | .error _ => d
  | .fault g =>
    match d.owner.release (some g) (some false) with
    | .ok o => { d with owner := o }
    | .error _ => d
  | _ => d

/-- Nothing but what it does. -/
def silent (p : DM Unit) : DM Value := do
  p
  pure .none

/-- A call, run. -/
def body : Method → DM Value
  | .enter channel => enter channel
  | .submit value => submit value
  | .clarify c => clarify c
  | .poll => poll
  | .exitKey key => exitKey key
  | .cancelTurn => silent cancelTurn
  | .end' => silent end'
  | .handoff => silent handoff
  | .look code => silent (Prog.write fun d =>
      if d.lease.isSome || d.busy then { d with found := code :: d.found } else d)
  | .strike code => silent (do
      Prog.write fun d => { d with found := d.found.erase code, waiting := d.waiting + 1 }
      invalidate code)
  | .resume => silent (do
      Prog.write fun d => { d with waiting := d.waiting - 1 }
      resume)
  | m => silent (Prog.write (client m))

/-- **The conversation.** What may be called where: in a moment of other threads, what needs no
lock; in a callback, and where nothing is under way, everything but what waits for the lock, which
goes on where nothing is under way. Other clients release what they began; a conversation with
`borrowers` may also lose its lease to a fault. -/
def conversation (borrowers : Bool) : Machine Desk Op Answer Exc Method Value where
  body := body
  enter w ctx m :=
    match m with
    | .look code => [Code.canceled, .ended, .handoff].contains code && !w.st.gate
    | .strike code => w.st.found.contains code && !w.st.gate
    | .resume => ctx.isEmpty && 0 < w.st.waiting
    | .ownerBegin _ | .ownerCancel _ => true
    | .ownerRelease g _ => w.st.others.contains g
    | .fault _ => borrowers
    | .clarify c => c.all Clarification.valid && ctx.all fun f => f.2 ≠ .gap
    | _ => ctx.all fun f => f.2 ≠ .gap
  legal _ op a :=
    match op, a with
    | .snapshot, .snapshot s => s.valid
    | .jobs, a => match a with
      | .raised _ | .none | .job _ => true
      | _ => false
    | .poll _, .response r => r.valid
    | .gap, a => a = .none
    | _, _ => true

/-- A world of the conversation. -/
abbrev DWorld := World Desk Op Answer Exc Method Value

/-- A log entry of the conversation. -/
abbrev DEntry := Reentrant.Entry Desk Op Answer Exc Method Value

/-- A configuration of the conversation. -/
abbrev DConfig := Config Desk Op Answer Exc Method Value

end Conversation

end Arhugula
