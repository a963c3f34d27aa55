import Arhugula.Durable.Slot
import Arhugula.Spec.Strings

/-!
# Comments and pointers (`ops/orchestration/communication.py`)

`ensure_comment` publishes a comment that carries an operation marker; `deliver_pointer` queues a pointer to
a stored comment, behind a record of its operation. Both run under one lease. Other writers add comments and
change the routing at any time; a crash is one of the process, what it did stays.

Faults carry the texts that are kept in records and results. The prose of a `Hold` is left out: its callers
branch on its reason.
-/

namespace Arhugula

namespace Communication

open Reentrant Durable Strings

/-! ## Records -/

/-- `Reason`. -/
inductive Reason where
  | invalidInput | policyMismatch | authorityChanged | authorityUnavailable | ownershipConflict
  | identityMismatch | headroomUnknown | refreshRequired | artifactUnavailable | publicationUncertain
  deriving DecidableEq

/-- The classes of exceptions that a handler of this code tells apart. -/
inductive Kind where
  | os | value | key | type | other
  deriving DecidableEq

/-- An `Exception`: `type(error).__name__`, `str(error)` and `repr(error)`. -/
structure Error where
  kind : Kind
  name : Text
  text : Text
  repr : Text
  deriving DecidableEq

/-- What a call raises: `QueueFailed`, another `Exception`, or what is none. -/
inductive Fault where
  | refused (e : Error)
  | exception (e : Error)
  | interrupt
  deriving DecidableEq

/-- What a function raises: a `Hold`, the `Stop` of a lease that is taken, a `KeyError` of its own, the
`ValueError` of a residue, or what a call raised. -/
inductive Exc where
  | hold (reason : Reason)
  | conflict
  | key
  | value
  | fault (f : Fault)
  deriving DecidableEq

/-- A stored comment. -/
structure Comment where
  id : Text
  issueId : Text
  body : Text
  deriving DecidableEq

/-- `VerifiedComment`. -/
structure VerifiedComment where
  issue : Text
  commentId : Text
  bodySha256 : Text
  operationId : Text
  writeFailures : List Text
  deriving DecidableEq

/-- `Party`. -/
structure Party where
  name : Text
  role : Text
  deriving DecidableEq

/-- `Recipient`. -/
structure Recipient extends Party where
  sessionId : Text
  deriving DecidableEq

/-- `DeliveryReceipt`, `enqueued`. -/
structure DeliveryReceipt where
  comment : VerifiedComment
  thread : Text
  messageId : Text
  text : Text
  deriving DecidableEq

/-- A row of the routing. -/
structure Row where
  role : Text
  sessionId : Option Text
  kind : Option Text
  deriving DecidableEq

/-- The routing, where it can be parsed. -/
structure Control where
  repairPaused : Bool
  sessions : List Row
  deriving DecidableEq

/-- The `intent` of a delivery. -/
structure Intent where
  operationId : Text
  issue : Text
  commentId : Text
  bodySha256 : Text
  thread : Text
  text : Text
  deriving DecidableEq

/-- The `state` of a delivery. -/
inductive Stage where
  | commentVerified
  | queueIntended
  | deliveryUncertain
  | enqueued (messageId : Text)
  deriving DecidableEq

/-- The record of a delivery. -/
structure Delivery where
  intent : Intent
  state : Stage
  queueFailures : List Text
  deriving DecidableEq

/-- The arguments of `deliver_pointer`. -/
structure Pointer where
  recipient : Recipient
  comment : VerifiedComment
  operationId : Text
  sender : Party
  action : Text
  deriving DecidableEq

/-! ## The state and the calls -/

/-- The comments of the store, the lease, the record of each operation, and the routing. -/
structure Desk where
  comments : List Comment
  held : Bool
  records : Text → Slot Delivery
  control : Option Control

/-- The calls: the lock file, the store, the routing, the record of an operation, the parts of its save, and
the queue, for an operation. -/
inductive Op where
  | lock
  | export
  | comment (issue text : Text)
  | routing
  | record (operation : Text)
  | replace (operation : Text) (value : Delivery)
  | sync (operation : Text)
  | quarantine (operation : Text)
  | queue (operation thread text : Text)
  deriving DecidableEq

/-- What a call does. A comment may be stored although its call raises. -/
inductive Answer where
  | done
  | raised (f : Fault)
  | stored (id : Text) (f : Option Fault)
  | queued (messageId : Text)
  deriving DecidableEq

/-- What the call raised. -/
def Answer.fault : Answer → Option Fault
  | .done | .queued _ => none
  | .raised f => some f
  | .stored _ f => f

/-- Only a comment is stored, only the queue gives a message id. -/
def Op.answers : Op → Answer → Bool
  | .queue .., .done => false
  | .queue .., .stored .. => false
  | .comment .., .queued _ => false
  | .comment .., _ => true
  | _, .stored .. => false
  | .queue .., _ => true
  | _, .queued _ => false
  | _, _ => true

/-- A body over the desk. -/
abbrev CM (α : Type) := Prog Desk Op Answer Exc α

/-- A call whose exceptions pass. -/
def call (op : Op) : CM Unit := do
  match (← Prog.ask op).fault with
  | none => pure ()
  | some f => throw (.fault f)

/-- `with Lease(...)`. -/
def lease {α : Type} (p : CM α) : CM α := do
  call .lock
  if ← Prog.read (·.held) then throw .conflict
  Prog.write fun s => { s with held := true }
  p.lastly (Prog.write fun s => { s with held := false })

/-! ## Comments -/

/-- `OPERATION_ID`. -/
def isOperationId : Text → Bool
  | [] => false
  | c :: t => c.isAlphanum && 7 ≤ t.length && t.length ≤ 79 &&
      t.all fun x => x.isAlphanum || x = '.' || x = '_' || x = '-'

/-- `_operation`. -/
def operation (operationId : Text) : CM Text :=
  if isOperationId operationId then pure operationId else throw (.hold .invalidInput)

/-- What begins the line of an operation. -/
def label : Text := "operation: ".toList

/-- The marked body. -/
def text (body operationId : Text) : Text := body ++ '\n' :: '\n' :: (label ++ operationId)

/-- `_marked`. -/
def marked (body operationId : Text) : CM Text := do
  if body = [] || body ≠ strip body || (splitlines body).any ("operation:".toList.isPrefixOf ·) then
    throw (.hold .invalidInput)
  pure (text body (← operation operationId))

/-- The comments on an issue that carry a marker. -/
def carried (comments : List Comment) (issue marker : Text) : List Comment :=
  comments.filter fun c => c.issueId = issue && (splitlines c.body).contains marker

/-- `_carrying`. -/
def carrying (issue marker : Text) : CM (List Comment) := do
  match (← Prog.ask .export).fault with
  | some .interrupt => throw (.fault .interrupt)
  | some _ => throw (.hold .authorityUnavailable)
  | none => Prog.read fun s => carried s.comments issue marker

/-- The comment that an answer stored. -/
def store (issue text : Text) : Answer → CM Unit
  | .stored id _ => Prog.write fun s => { s with comments := s.comments ++ [⟨id, issue, text⟩] }
  | _ => pure ()

/-- `_write`: the failure, if it reports one. -/
def write (issue text : Text) : CM (Option Text) := do
  let a ← Prog.ask (.comment issue text)
  store issue text a
  match a.fault with
  | none => pure none
  | some .interrupt => throw (.fault .interrupt)
  | some (.refused e) | some (.exception e) => pure (some (e.name ++ ": ".toList ++ e.text))

/-- `ensure_comment`, under the lease: what it finds, and the failures. -/
def publish (issue text marker : Text) : CM (List Comment × List Text) := do
  let found ← carrying issue marker
  if found ≠ [] then
    return (found, [])
  let failure ← write issue text
  let found ← carrying issue marker
  match failure, found with
  | some f, [] => do
    -- A reported failure and a store without the comment allow one retry.
    let retry ← write issue text
    let found ← carrying issue marker
    return (found, f :: retry.toList)
  | _, _ => return (found, failure.toList)

/-- `ensure_comment`. -/
def ensureComment (sha256 : Text → Text) (issue operationId body : Text) : CM VerifiedComment := do
  let text ← marked body operationId
  let (found, failures) ← lease (publish issue text (lastLine text))
  match found with
  | [comment] =>
    if comment.body ≠ text then throw (.hold .invalidInput)
    else pure ⟨issue, comment.id, sha256 text, operationId, failures⟩
  | _ => throw (.hold .publicationUncertain)

/-! ## Pointers -/

/-- `POINTER_FIELD`. -/
def isField (value : Text) : Bool :=
  1 ≤ value.length && value.length ≤ 160 && value.all fun c => c ≠ '|' && c ≠ '\r' && c ≠ '\n'

/-- The fields of a pointer. -/
def Pointer.fields (p : Pointer) : List Text :=
  [p.recipient.name, p.recipient.role, p.sender.name, p.sender.role, p.comment.issue, p.comment.commentId, p.action]

/-- The text of a pointer. -/
def Pointer.text (p : Pointer) : Text :=
  List.intercalate " | ".toList
    ["TO ".toList ++ p.recipient.name ++ ", ".toList ++ p.recipient.role,
      "FROM ".toList ++ p.sender.name ++ ", ".toList ++ p.sender.role,
      p.comment.issue, p.comment.commentId, p.action]

/-- The `intent` of a pointer. -/
def Pointer.intent (p : Pointer) : Intent :=
  ⟨p.operationId, p.comment.issue, p.comment.commentId, p.comment.bodySha256, p.recipient.sessionId, p.text⟩

/-- The stored comments that `stored` finds are the one that the caller claims. -/
def isStored (sha256 : Text → Text) (comment : VerifiedComment) (comments : List Comment) : Bool :=
  (carried comments comment.issue (label ++ comment.operationId)).map (fun c => (c.id, sha256 c.body)) =
    [(comment.commentId, comment.bodySha256)]

/-- `stored`. Its result is read by no caller that is modelled. -/
def stored (sha256 : Text → Text) (comment : VerifiedComment) : CM Unit := do
  let id ← operation comment.operationId
  let found ← carrying comment.issue (label ++ id)
  if found.map (fun c => (c.id, sha256 c.body)) ≠ [(comment.commentId, comment.bodySha256)] then
    throw (.hold .invalidInput)

/-- The rows of a role. -/
def Control.rows (control : Control) (name : Text) : List Row := control.sessions.filter (·.role = name)

/-- `routed`. -/
def routed (recipient : Recipient) : CM Row := do
  match (← Prog.ask .routing).fault with
  | some (.exception ⟨.other, n, t, r⟩) => throw (.fault (.exception ⟨.other, n, t, r⟩))
  | some (.exception _) => throw (.hold .authorityUnavailable)
  | some f => throw (.fault f)
  | none =>
    match ← Prog.read (·.control) with
    | none => throw (.hold .authorityUnavailable)
    | some control =>
      if control.repairPaused then throw (.hold .authorityChanged)
      else if (control.rows recipient.name).any (·.sessionId = none) then throw .key
      else
        match control.rows recipient.name with
        | [row] => if row.sessionId = some recipient.sessionId then pure row else throw (.hold .identityMismatch)
        | _ => throw (.hold .identityMismatch)

/-- `_admit`. -/
def admission (recipient : Recipient) : CM Unit := do
  match (← routed recipient).kind with
  | none => throw .key
  | some kind => if kind ≠ "codex".toList then throw (.hold .invalidInput)

/-- `_intent`. -/
def recorded (operationId : Text) : CM (Option Delivery) := do
  match (← Prog.ask (.record operationId)).fault with
  | some (.exception ⟨.value, _, _, _⟩) => throw (.hold .publicationUncertain)
  | some f => throw (.fault f)
  | none =>
    match ← Prog.read (·.records operationId) with
    | .absent => pure none
    | .holding d => pure (some d)
    | .uncertain => throw (.hold .publicationUncertain)

/-- `atomic_json` of the record of an operation. -/
def saver (operationId : Text) : Saver Desk Op Answer Exc Delivery where
  slot s := s.records operationId
  put s v := { s with records := Function.update s.records operationId v }
  replace := .replace operationId
  sync := .sync operationId
  quarantine := .quarantine operationId
  raised a := a.fault.map .fault
  refused := .value

/-- `deliver_pointer`: the queue, once the intent is saved. -/
def enqueue (p : Pointer) (prior : Delivery) : CM Text := do
  match ← Prog.ask (.queue p.operationId p.recipient.sessionId p.text) with
  | .queued messageId => do
    (saver p.operationId).save { prior with state := .enqueued messageId }
    pure messageId
  | a =>
    match a.fault with
    | some (.refused e) => do
      (saver p.operationId).save { prior with queueFailures := prior.queueFailures ++ [e.text] }
      throw (.fault (.refused e))
    | some (.exception e) => do
      (saver p.operationId).save
        { prior with state := .deliveryUncertain, queueFailures := prior.queueFailures ++ [e.repr] }
      throw (.hold .publicationUncertain)
    | _ => throw (.fault .interrupt)

/-- `deliver_pointer`, under the lease: the message id. -/
def deliver (sha256 : Text → Text) (p : Pointer) : CM Text := do
  stored sha256 p.comment
  admission p.recipient
  let prior := (← recorded p.operationId).getD ⟨p.intent, .commentVerified, []⟩
  if prior.intent ≠ p.intent then
    throw (.hold .invalidInput)
  match prior.state with
  | .enqueued messageId => pure messageId
  | .commentVerified => do
    (saver p.operationId).save { prior with state := .queueIntended }
    enqueue p prior
  | _ => throw (.hold .publicationUncertain)

/-- `deliver_pointer`. What is recorded or queued under an intent equal to the caller's has its thread. -/
def deliverPointer (sha256 : Text → Text) (p : Pointer) : CM DeliveryReceipt := do
  if !p.fields.all isField then
    throw (.hold .invalidInput)
  let _ ← operation p.operationId
  let messageId ← lease (deliver sha256 p)
  pure ⟨p.comment, p.recipient.sessionId, messageId, p.text⟩

/-! ## The machine -/

/-- What is called, by callers of the functions and by others. -/
inductive Method where
  | ensure (issue operationId body : Text)
  | deliver (p : Pointer)
  | foreign (c : Comment)
  | route (control : Option Control)
  deriving DecidableEq

/-- What a call returns. -/
inductive Value where
  | comment (c : VerifiedComment)
  | receipt (r : DeliveryReceipt)
  | none
  deriving DecidableEq

/-- The body of each call. -/
def body (sha256 : Text → Text) : Method → CM Value
  | .ensure issue operationId body => .comment <$> ensureComment sha256 issue operationId body
  | .deliver p => .receipt <$> deliverPointer sha256 p
  | .foreign c => do
    Prog.write fun s => { s with comments := s.comments ++ [c] }
    pure .none
  | .route control => do
    Prog.write fun s => { s with control := control }
    pure .none

/-- **The machine.** A crash frees the lease. -/
def desk (sha256 : Text → Text) : Machine Desk Op Answer Exc Method Value where
  body := body sha256
  enter _ _ _ := true
  legal _ op a := op.answers a
  crash s := some { s with held := false }

/-- No operation begun. -/
def fresh (comments : List Comment) (control : Option Control) : Desk :=
  ⟨comments, false, fun _ => .absent, control⟩

end Communication

end Arhugula
