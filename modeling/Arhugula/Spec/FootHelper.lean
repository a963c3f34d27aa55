import Arhugula.Concurrent.Processes
import Arhugula.Spec.Strings

/-!
# The Foot helper (`ops/orchestration/memento_foot/foot_helper.py`)

Each helper of one message file is a process: it binds a window, waits for its session to go idle, and types
`/clear`, the pointer and the goal, each behind the intent file. The file is what the helpers share. What they
read of the window, the session, the keyboard and the transcripts is the answer of a call, and may change with
each.

A transcript line and the compositor's answers come parsed. `timeout` is in whole seconds.
-/

namespace Arhugula

namespace FootHelper

open Reentrant Strings

/-! ## Keys -/

/-- `KEYS`. -/
def keys : List (Char × Text × Text) :=
  [(' ', "", "space"), ('/', "", "slash"), ('-', "", "minus"), ('_', "SHIFT", "minus"), ('.', "", "period"),
    (':', "SHIFT", "semicolon"), ('=', "", "equal"), ('+', "SHIFT", "equal"), ('!', "SHIFT", "1"), ('@', "SHIFT", "2"),
    ('#', "SHIFT", "3"), ('$', "SHIFT", "4"), ('%', "SHIFT", "5"), ('^', "SHIFT", "6"), ('&', "SHIFT", "7"),
    ('*', "SHIFT", "8"), ('(', "SHIFT", "9"), (')', "SHIFT", "0"), (';', "", "semicolon"), (.ofNat 39, "", "apostrophe"),
    (.ofNat 34, "SHIFT", "apostrophe"), (',', "", "comma"), ('<', "SHIFT", "comma"), ('>', "SHIFT", "period"),
    ('?', "SHIFT", "slash"), (.ofNat 96, "", "grave"), ('~', "SHIFT", "grave"), ('[', "", "bracketleft"),
    (']', "", "bracketright"), (.ofNat 123, "SHIFT", "bracketleft"), (.ofNat 125, "SHIFT", "bracketright"),
    (.ofNat 92, "", "backslash"), ('|', "SHIFT", "backslash")].map fun (c, m, k) => (c, m.toList, k.toList)

/-- `LINE`. -/
def isLine (text : Text) : Bool :=
  1 ≤ text.length && text.length ≤ 4096 && text.all fun c => 32 ≤ c.toNat && c.toNat ≤ 126

/-- The key of a character. -/
def key (c : Char) : Text × Text :=
  (keys.lookup c).getD (if c.isUpper then "SHIFT".toList else [], [c.toLower])

/-- `typing`; `none` where it refuses. -/
def typing (text : Text) : Option (List (Text × Text)) := if isLine text then some (text.map key) else none

/-- `json.dumps` of the name of a key. -/
def quoted (t : Text) : Text := Char.ofNat 34 :: t ++ [Char.ofNat 34]

/-- The window addresses that `script` allows. -/
def isAddress : Text → Bool
  | '0' :: 'x' :: t => t ≠ [] && t.all fun c => c.isDigit || (97 ≤ c.toNat && c.toNat ≤ 102)
  | _ => false

/-- `script`; `none` where it refuses. -/
def script (address : Text) (keys : List (Text × Text)) : Option Text :=
  if isAddress address then
    let events := keys.map fun (m, k) => .ofNat 123 :: quoted m ++ ',' :: quoted k ++ [.ofNat 125]
    some ("for _,k in ipairs(\x7b".toList ++ List.intercalate [','] events ++
      "\x7d) do hl.dispatch(hl.dsp.send_shortcut(\x7bmods=k[1],key=k[2],window=\"address:".toList ++ address ++
      "\"\x7d)) end".toList)
  else none

/-- `empty_line`. -/
def emptyLine (text : Text) : List (Text × Text) :=
  (if text = "/clear".toList then [([], "Escape".toList)] else []) ++ [("CTRL".toList, ['u'])]

/-- `composer_input`: the text, and the submission. -/
def composerInput (address text : Text) : Option (Text × Text) := do
  let typed ← typing text
  let replaced ← script address (emptyLine text ++ typed)
  let submitted ← script address [([], "Return".toList)]
  return (replaced, submitted)

/-! ## Readings -/

/-- The arguments of a helper. -/
structure Helper where
  pid : ℕ
  timeout : ℕ
  deriving DecidableEq

/-- A client of the compositor. -/
structure Client where
  pid : Option ℕ
  mapped : Bool
  acceptsInput : Bool
  address : Text
  stableId : Text
  deriving DecidableEq

/-- What `window` reads: the parent and the start of the process, the parent's name, the clients, and the start
of the parent. -/
structure Sight where
  parent : ℕ
  start : Text
  comm : Text
  clients : List Client
  footStart : Text
  deriving DecidableEq

/-- A window, with the processes that it is bound to. -/
structure Window where
  address : Text
  stableId : Text
  foot : ℕ
  footStart : Text
  pid : ℕ
  start : Text
  deriving DecidableEq

/-- A session file, and the start of the process it is read for. -/
structure Session where
  pid : Option ℕ
  procStart : Option Text
  start : Text
  sessionId : Text
  pidDomain : Text
  status : Option Text
  deriving DecidableEq

/-- A keyboard of the compositor. -/
structure Keyboard where
  main : Bool
  activeKeymap : Option Text
  capsLock : Option Bool
  deriving DecidableEq

/-- The content of a message: a text, or parts with their type. -/
inductive Content where
  | text (t : Text)
  | parts (ps : List (Text × Text))
  deriving DecidableEq

/-- A transcript line that is an object: its type, the kind of its origin, and its content. -/
structure Line where
  type : Text
  origin : Option Text
  content : Content
  deriving DecidableEq

/-- `prompt_text`. -/
def promptText : Option Line → Option Text
  | none => none
  | some line =>
    if line.type ≠ "user".toList || line.origin ≠ some "human".toList then none
    else match line.content with
      | .text t => some t
      | .parts ps => some ((ps.filter fun p => p.1 = "text".toList).flatMap Prod.snd)

/-- What is raised. -/
inductive Exc where
  | keystroke | sessionFile | terminal | windows | keyboard | identity | neverIdle
  | earlierEffect | windowChanged | changedMidInput | unacknowledged
  | receipts | noBoundary | severalTranscripts | otherFirstInput | neverRecorded
  | raised
  deriving DecidableEq

/-- `window`, of what it read. -/
def windowOf (pid : ℕ) (o : Sight) : Except Exc Window :=
  if strip o.comm ≠ "foot".toList then .error .terminal
  else match o.clients.filter fun c => c.pid = some o.parent with
    | [c] =>
      if c.mapped && c.acceptsInput then .ok ⟨c.address, c.stableId, o.parent, o.footStart, pid, o.start⟩
      else .error .windows
    | _ => .error .windows

/-- `keyboard`, of what it read. -/
def isLiteral (keyboards : List Keyboard) : Bool :=
  match keyboards.filter (·.main) with
  | [k] => k.activeKeymap = some "English (US)".toList && k.capsLock = some false
  | _ => false

/-- `session`, of what it read. -/
def describes (pid : ℕ) (r : Session) : Bool := r.pid = some pid && r.procStart = some r.start

/-! ## Receipts -/

/-- A text without a prefix that it has. -/
def dropPrefix (p t : Text) : Option Text := if p.isPrefixOf t then some (t.drop p.length) else none

/-- A text without a suffix that it has. -/
def dropSuffix (p t : Text) : Option Text := (dropPrefix p.reverse t.reverse).map List.reverse

/-- The full identities of sessions. -/
def isIdentity (t : Text) : Bool :=
  t.length = 36 && t.zipIdx.all fun (c, n) =>
    if n = 8 || n = 13 || n = 18 || n = 23 then c = '-' else c.isDigit || (97 ≤ c.toNat && c.toNat ≤ 102)

/-- `RECEIPT`, matched at the beginning: the prefix of the session, and its identity. -/
def receiptAt (t : Text) : Option (Text × Text) := do
  let t ← dropPrefix " session=".toList t
  let short := t.takeWhile fun c => !Conversation.isSpace c
  if short = [] then none
  let t ← dropPrefix " event=SessionStart override=".toList (t.drop short.length)
  let override := t.takeWhile fun c => !Conversation.isSpace c
  let _ ← dropPrefix [' '] (t.drop override.length)
  let path ← dropSuffix "/memento.conf".toList override
  let full := path.drop (path.length - 36)
  let _ ← dropSuffix "/sessions/".toList (path.take (path.length - 36))
  if isIdentity full then some (short, full) else none

/-- `RECEIPT.search`. -/
def receipt (line : Text) : Option (Text × Text) := line.tails.findSome? receiptAt

/-- Whether a line has a part. -/
def has (part line : Text) : Bool := line.tails.any part.isPrefixOf

/-- `session_starts`. -/
def sessionStarts (lines : List Text) : Option (List Text) :=
  (lines.filter fun line => has " event=SessionStart ".toList line && !has " -> stopped:".toList line).mapM
    fun line => do
      let (short, full) ← receipt line
      if short.isPrefixOf full then some full else none

/-- `added_receipts`, of what is logged now. -/
def addedReceipts (bind receipts : Text) : List Text := splitlines ((dropPrefix bind receipts).getD receipts)

/-- The receipts that `await_clear` looks at: those of the session's prefix. -/
def receiptsOf (bind receipts sessionId : Text) : List Text :=
  (addedReceipts bind receipts).filter (has (" session=".toList ++ sessionId.take 8 ++ [' ']))

/-- The native boundary of a clear: an idle session with a new identity, or with a receipt. -/
def isBoundary (before after : Session) (starts : List Text) : Bool :=
  after.status = some "idle".toList && (after.sessionId ≠ before.sessionId || starts.contains after.sessionId)

/-! ## The calls -/

/-- The phases of the intent file. -/
inductive Phase where
  | clearIntent | deliverIntent | goalIntent | delivered
  deriving DecidableEq

/-- The calls. An `eval` is of the text of a phase, or of its submission. -/
inductive Op where
  | receipts
  | window
  | session
  | devices
  | goal
  | sleep
  | exists
  | open (phase : Phase)
  | record (phase : Phase)
  | eval (phase : Phase) (submission : Bool) (script : Text)
  | transcripts (sessionId : Text)
  | unlink
  deriving DecidableEq

/-- What a call gives, or that it raises. -/
inductive Answer where
  | done
  | raised
  | text (t : Text)
  | sight (o : Sight)
  | session (r : Session)
  | devices (ks : List Keyboard)
  | transcripts (found : List (List (Option Line)))
  deriving DecidableEq

/-- The intent file: none, one that is opened, or one with its phase and address. -/
abbrev Intent := Option (Option (Phase × Text))

/-- A body over the intent file. -/
abbrev FM (α : Type) := Prog Intent Op Answer Exc α

/-- A call that gives nothing. -/
def call (op : Op) : FM Unit := do
  match ← Prog.ask op with
  | .done => pure ()
  | _ => throw .raised

/-- A file that is read. -/
def readText (op : Op) : FM Text := do
  match ← Prog.ask op with
  | .text t => pure t
  | _ => throw .raised

/-- `window`. -/
def window (h : Helper) : FM Window := do
  match ← Prog.ask .window with
  | .sight o =>
    match windowOf h.pid o with
    | .ok w => pure w
    | .error x => throw x
  | _ => throw .raised

/-- `keyboard`. -/
def keyboard : FM Unit := do
  match ← Prog.ask .devices with
  | .devices ks => if isLiteral ks then pure () else throw .keyboard
  | _ => throw .raised

/-- `session`. -/
def session (h : Helper) : FM Session := do
  match ← Prog.ask .session with
  | .session r => if describes h.pid r then pure r else throw .sessionFile
  | _ => throw .raised

/-- `prompts`. -/
def prompts (sessionId : Text) : FM (List Text) := do
  match ← Prog.ask (.transcripts sessionId) with
  | .transcripts found => if 1 < found.length then throw .severalTranscripts else pure (found.flatten.filterMap promptText)
  | _ => throw .raised

/-! ## The helper -/

/-- A look that is repeated each second, for the seconds that are left. -/
def polling {α : Type} (look : FM (Option α)) (late : Exc) : ℕ → FM α
  | 0 => do
    match ← look with
    | some a => pure a
    | none => throw late
  | left + 1 => do
    match ← look with
    | some a => pure a
    | none => do
      call .sleep
      polling look late left

/-- `wait_idle`. -/
def waitIdle (h : Helper) (bound : Session) : FM Session :=
  polling (do
    let record ← session h
    if record.sessionId ≠ bound.sessionId || record.pidDomain ≠ bound.pidDomain then throw .identity
    else if record.status = some "idle".toList then pure (some record)
    else pure none) .neverIdle h.timeout

/-- A script of `effect`. -/
def send (h : Helper) (bound : Window) (phase : Phase) (submission : Bool) (each : Text) : FM Unit := do
  let now ← window h
  if now ≠ bound then throw .changedMidInput
  else do
    keyboard
    let answer ← readText (.eval phase submission each)
    if strip answer ≠ "ok".toList then throw .unacknowledged
    else call .sleep

/-- `effect`. -/
def effect (h : Helper) (bound : Window) (phase : Phase) (text : Text) : FM Unit := do
  match composerInput bound.address text with
  | none => throw .keystroke
  | some (replaced, submitted) => do
    call (.open phase)
    Prog.write fun _ => some none
    call (.record phase)
    Prog.write fun _ => some (some (phase, bound.address))
    send h bound phase false replaced
    send h bound phase true submitted

/-- What is typed of a goal. -/
def goalText (goal : Text) : Text := "/goal ".toList ++ goal

/-- `carried_goal`. -/
def carriedGoal : FM Text := do
  let goal ← readText .goal
  if goal ≠ [] && typing (goalText goal) = none then throw .keystroke
  else pure goal

/-- `await_clear`: the cleared session, and how many of its prompts are earlier. -/
def awaitClear (h : Helper) (bind : Text) (before : Session) (seen : ℕ) : FM (Text × ℕ) :=
  polling (do
    let after ← session h
    let receipts ← readText .receipts
    match sessionStarts (receiptsOf bind receipts after.sessionId) with
    | none => throw .receipts
    | some starts =>
      if isBoundary before after starts then
        pure (some (after.sessionId, if after.sessionId = before.sessionId then seen else 0))
      else pure none) .noBoundary h.timeout

/-- `first_input`. -/
def firstInput (boundary : Text × ℕ) : FM (Option Text) := do
  return ((← prompts boundary.1).drop boundary.2).head?

/-- `await_first_input`. -/
def awaitFirstInput (h : Helper) (boundary : Text × ℕ) (text : Text) : FM Unit :=
  polling (do
    match ← firstInput boundary with
    | some first => if first = text then pure (some ()) else throw .otherFirstInput
    | none => pure none) .neverRecorded h.timeout

/-- The pointer to a message file. -/
def pointer (msgfile : Text) : Text := "Read and follow the handoff at ".toList ++ msgfile

/-- The phases of `handoff` after the clear. -/
def deliver (h : Helper) (msgfile : Text) (bind : Text) (bound : Window) (goal : Text) (before : Session)
    (seen : ℕ) : FM Unit := do
  let boundary ← awaitClear h bind before seen
  effect h bound .deliverIntent (pointer msgfile)
  awaitFirstInput h boundary (pointer msgfile)
  if goal ≠ [] then effect h bound .goalIntent (goalText goal)
  call (.open .delivered)
  Prog.write fun _ => some none
  call (.record .delivered)
  Prog.write fun _ => some (some (.delivered, bound.address))
  call .unlink

/-- `handoff`. -/
def handoff (h : Helper) (msgfile : Text) (bind : Text) (bound : Window) : FM Unit := do
  call .exists
  if (← Prog.read Option.isSome) then throw .earlierEffect
  else do
    let started ← session h
    keyboard
    let goal ← carriedGoal
    call .sleep
    let before ← waitIdle h started
    let now ← window h
    if now ≠ bound then throw .windowChanged
    else do
      keyboard
      let seen ← prompts before.sessionId
      effect h bound .clearIntent "/clear".toList
      deliver h msgfile bind bound goal before seen.length

/-- `FootHelper(...).handoff()`: a helper binds its window, and goes on. -/
def body (msgfile : Text) (h : Helper) : FM Unit := do
  let bind ← readText .receipts
  let bound ← window h
  handoff h msgfile bind bound

end FootHelper

end Arhugula
