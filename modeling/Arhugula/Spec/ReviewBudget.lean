import Mathlib.Data.List.Dedup
import Arhugula.Spec.Lit

/-!
# The review budget (`ops/orchestration/review_budget.py`)

`evaluate` counts the completed passes of an arc and decides whether it may be reviewed again. The rows of the
review history are read by the gate of the product; what its functions give is the argument.
-/

namespace Arhugula

namespace ReviewBudget

open Strings

/-- A finding of a run. -/
structure Finding where
  findingId : Text
  producer : Text
  severity : String
  deriving DecidableEq

/-- A run of `gate.pass_runs`. -/
structure Run where
  cyclePass : Text
  headSha : Text
  diffDigest : Text
  complete : Bool
  findings : List Finding
  deriving DecidableEq

/-- A record of `impacts`. -/
structure Impact where
  findingId : Text
  impact : String
  actor : Text
  producer : Text
  evidence : Bool
  deriving DecidableEq

/-- What the gate makes of the rows. -/
structure Gate where
  runs : List Run
  /-- `gate._last_dispositions(rows)` -/
  disposed : List (Text × String)
  /-- `gate.unfixed_after_pass_3(rows, arc)` -/
  unfixed : ℕ
  deriving DecidableEq

/-- The identity of a completed pass: its arc, its pass, its head and its digest. -/
structure Pass where
  arc : Text
  cyclePass : Text
  headSha : Text
  diffDigest : Text
  deriving DecidableEq

inductive Decision where
  | quarantine | adjudicationRequired | fixRequired | codeVerified | reviewRequired
  deriving DecidableEq

/-- What `evaluate` returns. -/
structure Evaluation where
  decision : Decision
  completedPasses : ℕ
  observed : List Pass
  admitReview : Bool
  nextPass : Option Text
  blockingFindings : List Text
  followups : List Text
  undisposedFindings : List Text
  earlierStop : Bool
  deriving DecidableEq

/-- The last finding of an id. -/
def find (runs : List Run) (id : Text) : Option Finding :=
  (runs.flatMap Run.findings).reverse.find? fun f => f.findingId = id

/-- `disposed.get(fid)`. -/
def Gate.disposition (g : Gate) (id : Text) : Option String := (g.disposed.find? fun d => d.1 = id).map Prod.snd

/-- An impact is adjudicated by another than the producer, on evidence. -/
def isProse (runs : List Run) (i : Impact) : Bool :=
  match find runs i.findingId with
  | none => false
  | some f => i.impact = "prose_no_behavior" && i.actor ≠ f.producer && i.producer = f.producer && i.evidence &&
      ["P2", "P3"].contains f.severity

/-- The findings of some runs that were accepted and that a test picks. -/
def accepted (g : Gate) (runs : List Run) (test : Run → Finding → Bool) : List Text :=
  Lit.sorted (runs.flatMap fun r =>
    (r.findings.filter fun f => g.disposition f.findingId = some "accepted" && test r f).map Finding.findingId)

/-- The decision. -/
def decide (stop : Bool) (count : ℕ) (undisposed blocking : List Text) (remaining : Option Text) : Decision :=
  if stop || count > 5 then .quarantine
  else if undisposed ≠ [] then if count ≥ 5 then .quarantine else .adjudicationRequired
  else if blocking ≠ [] then if count ≥ 5 then .quarantine else .fixRequired
  else if remaining = none then .codeVerified
  else if count ≥ 5 then .quarantine
  else .reviewRequired

/-- A binding that `evaluate` takes over. -/
def Pass.isValid (p : Pass) : Bool := p.arc ≠ [] && p.cyclePass ≠ [] && p.headSha ≠ [] && p.diffDigest ≠ []

/-- `evaluate`. `remaining` is `gate.next_pass`. -/
def evaluate (g : Gate) (arc head : Text) (observed : List Pass) (impacts : List Impact) (remaining : Option Text) :
    Except String Evaluation :=
  if !observed.all Pass.isValid then throw "invalid prior review bindings"
  else if !impacts.all (isProse g.runs) then throw "prose impact requires independent P2/P3 adjudication evidence"
  else
    let bindings := (observed ++ (g.runs.filter Run.complete).map fun r =>
      Pass.mk arc r.cyclePass r.headSha r.diffDigest).dedup
    let prose := impacts.map Impact.findingId
    let undisposed := Lit.sorted (((g.runs.flatMap Run.findings).map Finding.findingId).filter fun id =>
      match g.disposition id with
      | some d => !(["accepted", "rejected", "suppressed"].contains d)
      | none => true)
    let blocking := accepted g (g.runs.filter (·.headSha = head)) fun r f =>
      f.severity = "P1" || (f.severity = "P2" && r.cyclePass ≠ ['3'] && !prose.contains f.findingId)
    let followups := accepted g g.runs fun r f =>
      f.severity = "P3" || prose.contains f.findingId || (f.severity = "P2" && r.cyclePass = ['3'])
    let stop := g.unfixed ≥ 2
    let decision := decide stop bindings.length undisposed blocking remaining
    pure {
      decision := decision
      completedPasses := bindings.length
      observed := bindings
      admitReview := bindings.length < 5 && !stop && decision = .reviewRequired
      nextPass := remaining
      blockingFindings := blocking
      followups := followups
      undisposedFindings := undisposed
      earlierStop := stop }

end ReviewBudget

end Arhugula
