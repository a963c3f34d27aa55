import Arhugula.Spec.Loop
import Arhugula.Spec.Watch

/-!
# The admission of a selected unit (`ops/orchestration/selection_facts.py`)

Whether a unit that is claimed may be worked on: who holds it, whether a paused production is released for it, and
whether the session that acts has room. The release rule is that of `Preparation.admit`, without the record that the
release is cited by. What a session's measure says is a parameter.
-/

namespace Arhugula

namespace SelectionFacts

open Strings Lit Loop

/-- `released`. -/
def released (data : Export) (unit : Text) : Except Loop.Exc Bool := do
  let all := prerequisites data unit
  if all.any fun g => ((issueOf data g).bind gateLabel).isNone then throw .key
  let gates := all.filter fun g => (issueOf data g).any isGate
  if gates.any fun g => ((issueOf data g).bind Issue.status).isNone then throw .key
  pure (!gates.isEmpty && gates.all fun g => (issueOf data g).any Issue.isClosed)

/-- A row of the routing. -/
structure Row where
  kind : Text
  role : Text
  sessionId : Text
  deriving DecidableEq

/-- The routing. -/
structure Routing where
  repairPaused : Json
  sessions : List Row

/-- `OPERATIONS`. Any other is refused. -/
inductive Operation where
  | implementation | integration
  deriving DecidableEq, Repr

/-- What a snapshot says of an admission. -/
inductive Verdict where
  | confirmed | contradicted | unknown
  deriving DecidableEq, Repr

/-- Why it does not confirm it, or what the measure says. -/
inductive Reason where
  | unitNotInLit | unitNotClaimed | claimHolderNotARoutedAuthor | productionPaused | oneBufordRoutingRecordRequired
  | measured (reason : Watch.Reason)
  deriving DecidableEq, Repr

/-- `_observed`. -/
structure Observed where
  admission : Verdict
  reasons : List Reason
  sessionId : Option Text
  deriving DecidableEq

/-- `AUTHOR_ROLES`. -/
def authorRoles : List Text := ["claude-coder".toList, "profile-coder".toList, "facade-coder".toList]

/-- The holder of a claim, as a row names it. -/
def Row.holder (row : Row) : Json := .str (String.ofList (row.kind ++ '_' :: row.sessionId))

/-- What is observed of the session that acts. -/
def actingObserved (actor : Row) (reasons : List Watch.Reason) : Observed :=
  let reasons := reasons.filter (· ≠ .sessionNotComplete)
  let verdict : Verdict :=
    if reasons.contains .missingRequestMetric then .unknown else if reasons ≠ [] then .contradicted else .confirmed
  ⟨verdict, reasons.map .measured, some actor.sessionId⟩

/-- `admission`. -/
def admission (data : Export) (control : Routing) (unit : Text) (operation : Operation)
    (measure : Row → List Watch.Reason) : Except Loop.Exc Observed :=
  match data.issues.filter fun i => i.id = unit with
  | [issue] =>
    if issue.status = none then throw .key
    else if issue.status ≠ some (.str "in_progress") then pure ⟨.contradicted, [.unitNotClaimed], none⟩
    else
      let holder := (issue.fields.get "assignee").getD (.str "")
      match (control.sessions.find? fun s => holder = s.holder).filter fun s => authorRoles.contains s.role with
      | none => pure ⟨.contradicted, [.claimHolderNotARoutedAuthor], none⟩
      | some author => do
        let held ← if control.repairPaused ≠ .bool false then (! ·) <$> released data unit else pure false
        if held then pure ⟨.contradicted, [.productionPaused], some author.sessionId⟩
        else
          match operation, control.sessions.filter fun s => s.role = "buford".toList with
          | .implementation, _ => pure (actingObserved author (measure author))
          | .integration, [lead] => pure (actingObserved lead (measure lead))
          | .integration, _ => pure ⟨.unknown, [.oneBufordRoutingRecordRequired], none⟩
  | _ => pure ⟨.unknown, [.unitNotInLit], none⟩

end SelectionFacts

end Arhugula
