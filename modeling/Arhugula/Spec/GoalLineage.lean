import Arhugula.Sequence.Table
import Arhugula.Spec.Transcript

/-!
# The goal ledger (`ops/orchestration/goal_lineage.py`)

A goal has one objective and one deadline, and is worked on in threads, each of which reports what it has used. The
ledger keeps the receipts of those reports and what they come to. Three calls add to it: `record` a report of a thread
on the goal, `recordAbsence` a report that a session has no goal, `recordRecovery` a report of a session on another
objective.

A receipt is a file, which a call reads as it is then; a path is absolute. `json.loads` of a file, `hashlib.sha256` of
bytes, `str.encode` and the text of a float are parameters. `atomic_json` writes the ledger, and `uncertain` is the
residue that it leaves of a replacement it could not acknowledge.
-/

namespace Arhugula

namespace GoalLineage

open Watch Sequence

/-! ## Values -/

/-- What is raised: a `ValueError` with its text, an error of a value that has not the shape that is read, of a file
that is missing, of a lease that is held, of residue that requires recovery, of a file that could not be written. -/
inductive Exc where
  | value (text : String)
  | shape
  | missing
  | conflict
  | uncertain
  | storage
  deriving DecidableEq, Repr

/-- `json.loads` of a file's text, `sha256(..).hexdigest()`, `str.encode`, `float.__repr__`. -/
structure Host where
  loads : List UInt8 → Option Watch.Json
  sha256 : List UInt8 → Str
  encode : Str → List UInt8
  float : ℚ → Str

/-- The files there are. -/
abbrev Files := Str → Option (List UInt8)

/-- `value is None`. -/
def isNull : Watch.Json → Bool
  | .null => true
  | _ => false

/-- `value[key]`. -/
def member (v : Watch.Json) (key : String) : Except Exc Watch.Json :=
  match v.find key with
  | some x => .ok x
  | none => .error .shape

/-- A value with a method `get`. -/
def mapping (v : Watch.Json) : Except Exc Watch.Json := if v.isDict then .ok v else .error .shape

mutual

/-- `a == b`, of values in a list or a dict: a `NaN` is the same object as any other. -/
def equal : Watch.Json → Watch.Json → Bool
  | .list l, b =>
    match b with
    | .list l' => equalItems l l'
    | _ => false
  | .dict ms, b =>
    match b with
    | .dict ms' => ms.length = ms'.length && equalMembers ms ms'
    | _ => false
  | a, b => a.same b

/-- The items of two lists. -/
def equalItems : List Watch.Json → List Watch.Json → Bool
  | [], [] => true
  | a :: l, b :: l' => equal a b && equalItems l l'
  | _, _ => false

/-- The members of a dict are in another. -/
def equalMembers : List (Str × Watch.Json) → List (Str × Watch.Json) → Bool
  | [], _ => true
  | m :: ms, ms' => equalMember m ms' && equalMembers ms ms'

/-- A member of a dict is in another. -/
def equalMember : Str × Watch.Json → List (Str × Watch.Json) → Bool
  | (key, a), ms' =>
    match Table.find ms' key with
    | some b => equal a b
    | none => false

end

/-- `a != b`. -/
def differs (a b : Watch.Json) : Bool :=
  match a with
  | .nan => true
  | _ => !equal a b

/-- `n < value`. -/
def below (n : ℕ) (v : Watch.Json) : Except Exc Bool :=
  match v.number, v with
  | some q, _ => .ok ((n : ℚ) < q)
  | none, .infinity negative => .ok (!negative)
  | none, .nan => .ok false
  | none, _ => .error .shape

/-- How `json.dump` writes a key that is no `str`. -/
def keyText (h : Host) : Watch.Json → Str
  | .str s => s
  | .null => str "null"
  | .bool b => if b then str "true" else str "false"
  | .int i => str (toString i)
  | .float q => h.float q
  | .infinity negative => if negative then str "-Infinity" else str "Infinity"
  | _ => str "NaN"

/-! ## Records -/

/-- `file_binding`. -/
structure Binding where
  path : Str
  bytes : ℕ
  sha256 : Str
  deriving DecidableEq

/-- What a goal has used. -/
structure Usage where
  tokensUsed : ℕ
  timeUsedSeconds : ℕ
  deriving DecidableEq

/-- A receipt of a session. -/
structure Observed where
  sessionId : Str
  receipt : Binding
  deriving DecidableEq

/-- The ledger. Its token budget is `None`. -/
structure Ledger where
  objective : Str
  deadline : Str
  threads : Table Str Usage
  receipts : List Binding
  tokensUsed : ℕ
  secondsUsed : ℕ
  objectiveSha256 : Str
  absentGoals : List Observed
  recoveryGoals : List Observed
  deriving DecidableEq

/-- `if item not in items: items.append(item)`. -/
def appendNew {α : Type} [DecidableEq α] (items : List α) (item : α) : List α :=
  if item ∈ items then items else items ++ [item]

/-! ## Receipts -/

section

variable (h : Host) (files : Files)

/-- `json.loads(Path(path).read_text())`. -/
def readJson (path : Str) : Except Exc Watch.Json :=
  match files path with
  | none => .error .missing
  | some bytes =>
    match h.loads bytes with
    | some v => .ok v
    | none => .error .shape

/-- `file_binding`. -/
def fileBinding (path : Str) : Except Exc Binding :=
  match files path with
  | none => .error .missing
  | some bytes => .ok ⟨path, bytes.length, h.sha256 bytes⟩

/-- The binding of a file that was bound is the same. -/
def verify (text : String) : List Binding → Except Exc Unit
  | [] => .ok ()
  | b :: bs => do
    let now ← fileBinding h files b.path
    if now ≠ b then .error (.value text) else verify text bs

/-- Whose report `raw` is. -/
def sessionOf (raw goal : Watch.Json) : Except Exc Watch.Json :=
  if isNull goal then do
    let store ← mapping ((raw.find "native_store").getD (.dict []))
    pure ((raw.find "session_id").getD (store.get "thread_id"))
  else member goal "threadId"

/-- `goal_observation`. -/
def goalObservation (raw : Watch.Json) : Except Exc (Str × Watch.Json) := do
  let raw ← mapping raw
  let observation := (raw.find "tool_result").getD raw
  let goal ← member observation "goal"
  let session ← sessionOf raw goal
  match session.nonempty with
  | none => .error (.value "session-bound actual goal observation required")
  | some session =>
    if isNull goal &&
        !((observation.find "remainingTokens").any isNull && (observation.find "completionBudgetReport").any isNull) then
      .error (.value "actual absent goal observation required")
    else pure (session, observation)

/-- The usage a goal reports. -/
def goalUsage (text : String) (goal : Watch.Json) : Except Exc Usage := do
  let tokens ← member goal "tokensUsed"
  let seconds ← member goal "timeUsedSeconds"
  match tokens.nonnegative, seconds.nonnegative with
  | some tokens, some seconds => pure ⟨tokens, seconds⟩
  | _, _ => .error (.value text)

/-! ## Calls -/

/-- `GoalLineage._existing`. -/
def existing (ledger : Option Ledger) (deadline : Str) : Except Exc Ledger :=
  match ledger with
  | none => .error (.value "original goal ledger required for absent native goal")
  | some l =>
    if l.deadline ≠ deadline then .error (.value "goal contract changed")
    else do
      verify h files "goal receipt changed" l.receipts
      verify h files "recovery goal receipt changed" (l.recoveryGoals.map Observed.receipt)
      pure l

/-- The lease of the ledger. -/
def lease (busy : Bool) : Except Exc Unit := if busy then .error .conflict else .ok ()

/-- `GoalLineage.record_absence`, up to `atomic_json`. -/
def recordAbsence (busy : Bool) (ledger : Option Ledger) (receipt deadline : Str) : Except Exc Ledger := do
  let raw ← readJson h files receipt
  let (session, observation) ← goalObservation raw
  if !isNull (observation.get "goal") then .error (.value "actual absent goal observation required")
  else do
    let bound ← fileBinding h files receipt
    lease busy
    let l ← existing h files ledger deadline
    pure
      { l with
        absentGoals := appendNew l.absentGoals ⟨session, bound⟩
        receipts := appendNew l.receipts bound }

/-- `state["threads"][name] = usage`, as `json.dump` with sorted keys writes it: it does not compare a `str` with
another key. -/
def putThread (threads : Table Str Usage) (name : Watch.Json) (usage : Usage) : Except Exc (Table Str Usage) :=
  match name with
  | .str s => .ok (threads.put s usage)
  | _ => if threads = [] then .ok [(keyText h name, usage)] else .error .shape

/-- The usage of a thread that has reported none. -/
def unused : Usage := ⟨0, 0⟩

/-- What a ledger that does not exist yet has. -/
def fresh (objective deadline : Str) : Ledger := ⟨objective, deadline, [], [], 0, 0, [], [], []⟩

/-- A text that `str.encode` takes. -/
def encodable : Watch.Json → Except Exc Str
  | .str s => if Watch.State.encodes s then .ok s else .error .shape
  | _ => .error .shape

/-- `GoalLineage.record`, from the ledger as it is on. -/
def recordOn (l : Option Ledger) (deadline : Str) (goal objective : Watch.Json) (usage : Usage) (bound : Binding) :
    Except Exc Ledger := do
  -- a ledger that does not exist yet has the objective of the goal
  if differs ((l.map fun l => Watch.Json.str l.objective).getD objective) objective then
    .error (.value "goal contract changed")
  else do
    let name ← member goal "threadId"
    if !name.hashable then .error .shape
    else do
      let threads := (l.map Ledger.threads).getD []
      let old := (name.text.bind threads.find).getD unused
      if usage.tokensUsed < old.tokensUsed ∨ usage.timeUsedSeconds < old.timeUsedSeconds then
        .error (.value "actual goal usage regressed")
      else do
        let text ← encodable objective
        let threads ← putThread h threads name usage
        let l := l.getD (fresh text deadline)
        pure
          { l with
            threads := threads
            receipts := appendNew l.receipts bound
            tokensUsed := threads.total Usage.tokensUsed
            secondsUsed := threads.total Usage.timeUsedSeconds
            objectiveSha256 := h.sha256 (h.encode text) }

/-- `GoalLineage.record`, up to `atomic_json`. -/
def record (busy : Bool) (ledger : Option Ledger) (receipt deadline : Str) : Except Exc Ledger := do
  let raw ← readJson h files receipt
  let goal ← member raw "goal"
  if !goal.truthy || !isNull (raw.get "remainingTokens") then
    .error (.value "original unbounded goal contract required")
  else do
    let goal ← mapping goal
    if !isNull (goal.get "tokenBudget") then .error (.value "original unbounded goal contract required")
    else do
      let objective ← member goal "objective"
      let usage ← goalUsage "invalid actual goal usage" goal
      let bound ← fileBinding h files receipt
      lease busy
      match ledger with
      | none => recordOn h none deadline goal objective usage bound
      | some l => do
        let l ← existing h files (some l) deadline
        recordOn h (some l) deadline goal objective usage bound

/-- A report of a session does not contradict what it reported. -/
def consistent (session : Str) (goal : Watch.Json) (usage : Usage) : List Observed → Except Exc Unit
  | [] => .ok ()
  | previous :: records =>
    if previous.sessionId ≠ session then consistent session goal usage records
    else do
      let raw ← readJson h files previous.receipt.path
      let (_, observation) ← goalObservation raw
      let old ← member observation "goal"
      let before ← member old "objective"
      let objective ← member goal "objective"
      if differs before objective then
        .error (.value "actual recovery goal contract changed or usage regressed")
      else do
        let tokens ← member old "tokensUsed"
        let seconds ← member old "timeUsedSeconds"
        if (← below usage.tokensUsed tokens) || (← below usage.timeUsedSeconds seconds) then
          .error (.value "actual recovery goal contract changed or usage regressed")
        else consistent session goal usage records

/-- The goal that a receipt reports, and whose it is. -/
def observedGoal (receipt : Str) : Except Exc (Str × Watch.Json × Watch.Json) := do
  let raw ← readJson h files receipt
  let (session, observation) ← goalObservation raw
  let goal ← member observation "goal"
  pure (session, goal, observation)

/-- `GoalLineage.record_recovery`, up to `atomic_json`. -/
def recordRecovery (busy : Bool) (ledger : Option Ledger) (receipt deadline : Str) : Except Exc Ledger := do
  let (session, goal, observation) ← observedGoal h files receipt
  if isNull goal || !isNull (observation.get "remainingTokens") || !isNull (goal.get "tokenBudget") then
    .error (.value "actual unbounded recovery goal required")
  else do
    let usage ← goalUsage "invalid actual recovery goal usage" goal
    lease busy
    let l ← existing h files ledger deadline
    let bound ← fileBinding h files receipt
    consistent h files session goal usage l.recoveryGoals
    pure { l with recoveryGoals := appendNew l.recoveryGoals ⟨session, bound⟩ }

end

/-! ## The ledger on the disk -/

/-- How `atomic_json` ends: the ledger is written; it is as it was; it was replaced, which could not be acknowledged,
and is moved to the residue, or could not be. -/
inductive Storage where
  | published | failed | quarantined | stuck
  deriving DecidableEq, Repr

/-- The ledger at its path, and whether there is residue. -/
structure Disk where
  ledger : Option Ledger
  uncertain : Bool
  deriving DecidableEq

/-- How a call ends: it returns, it refuses, or what it wrote could not be acknowledged. -/
inductive Outcome where
  | returned (l : Ledger)
  | refused (e : Exc)
  | unacknowledged
  deriving DecidableEq

/-- `atomic_json`. -/
def atomicJson (d : Disk) (s : Storage) (l : Ledger) : Outcome × Disk :=
  if d.uncertain then (.refused .uncertain, d)
  else
    match s with
    | .published => (.returned l, ⟨some l, false⟩)
    | .failed => (.refused .storage, d)
    | .quarantined => (.unacknowledged, ⟨none, true⟩)
    | .stuck => (.unacknowledged, ⟨some l, false⟩)

/-- The methods. -/
inductive Method where
  | record | recordAbsence | recordRecovery
  deriving DecidableEq, Repr

/-- A call, with the files it finds, whether another one has the lease, and how the storage behaves. -/
structure Call where
  method : Method
  receipt : Str
  deadline : Str
  files : Files
  busy : Bool
  storage : Storage

/-- The ledger that a call writes. -/
def Call.proposed (h : Host) (c : Call) (ledger : Option Ledger) : Except Exc Ledger :=
  match c.method with
  | .record => record h c.files c.busy ledger c.receipt c.deadline
  | .recordAbsence => recordAbsence h c.files c.busy ledger c.receipt c.deadline
  | .recordRecovery => recordRecovery h c.files c.busy ledger c.receipt c.deadline

/-- A call. -/
def Call.run (h : Host) (c : Call) (d : Disk) : Outcome × Disk :=
  match c.proposed h d.ledger with
  | .error e => (.refused e, d)
  | .ok l => atomicJson d c.storage l

/-- The disk after the first calls of a sequence, which starts without a ledger. -/
def diskAt (h : Host) (calls : ℕ → Call) : ℕ → Disk
  | 0 => ⟨none, false⟩
  | n + 1 => ((calls n).run h (diskAt h calls n)).2

/-- How a call of a sequence ends. -/
def outcomeAt (h : Host) (calls : ℕ → Call) (n : ℕ) : Outcome := ((calls n).run h (diskAt h calls n)).1

end GoalLineage

end Arhugula
