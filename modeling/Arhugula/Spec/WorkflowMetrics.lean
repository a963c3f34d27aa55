import Mathlib.Algebra.Order.Ring.Rat
import Arhugula.Sequence.Table
import Arhugula.Spec.Lit

/-!
# Workflow metrics (`ops/orchestration/workflow_metrics.py`)

How long the work on a unit took, from the receipts of its stages: from the first start to the last end, how much of
that no receipt covers, and how long each stage took. Intervals that overlap count once, and what depends on a receipt
without timestamps is unknown.

Seconds are rational numbers. `datetime.fromisoformat` is a parameter.
-/

namespace Arhugula

namespace WorkflowMetrics

open Strings Sequence

/-! ## Times -/

/-- The first second after `datetime.max`, from `datetime.min`. -/
def wallEnd : ℚ := 315537897600

/-- A `datetime` with an offset: what its clock shows, in seconds from `datetime.min`, and how far that is ahead of
UTC. -/
structure DateTime where
  wall : ℚ
  utcoffset : ℚ
  wall_nonneg : 0 ≤ wall
  wall_lt : wall < wallEnd
  lt_utcoffset : -86400 < utcoffset
  utcoffset_lt : utcoffset < 86400
  deriving DecidableEq

/-- The time in UTC, which is what times are compared by. -/
def DateTime.utc (t : DateTime) : ℚ := t.wall - t.utcoffset

/-- `datetime.min.replace(tzinfo=timezone.utc)`, in UTC. -/
def datetimeMin : ℚ := 0

/-- What is raised: an `OverflowError` of a time that is not in the calendar, a `ValueError`. -/
inductive Exc where
  | overflow
  | value (text : Text)
  deriving DecidableEq

/-- `Interval`. -/
structure Interval where
  utcStart : DateTime
  seconds : ℚ
  seconds_nonneg : 0 ≤ seconds
  deriving DecidableEq

/-- `Interval.utc_end`. -/
def Interval.utcEnd (i : Interval) : Except Exc DateTime :=
  if h : i.utcStart.wall + i.seconds < wallEnd then
    .ok
      { wall := i.utcStart.wall + i.seconds
        utcoffset := i.utcStart.utcoffset
        wall_nonneg := add_nonneg i.utcStart.wall_nonneg i.seconds_nonneg
        wall_lt := h
        lt_utcoffset := i.utcStart.lt_utcoffset
        utcoffset_lt := i.utcStart.utcoffset_lt }
  else .error .overflow

/-- What is known, or `Unknown`. -/
inductive Known (α : Type) where
  | known (value : α)
  | unknown (reason : Text)
  deriving DecidableEq

/-! ## Receipts -/

/-- `Stage`. -/
inductive Stage where
  | queue | startup | implementation | localVerification | review | correction | ciQueue | ciExecution | integration
  | installedAcceptance | cleanup
  deriving DecidableEq, Repr

/-- `CHECK_STAGES`. -/
def Stage.isCheck : Stage → Bool
  | .localVerification | .review | .ciExecution | .installedAcceptance => true
  | _ => false

/-- `Activity`. -/
inductive Activity where
  | active | resourceContention | capabilityWait | refreshHold
  deriving DecidableEq, Repr

/-- `Outcome`. -/
inductive Outcome where
  | passed | failed | cancelled
  deriving DecidableEq, Repr

/-- What a row says of its timestamps, `None` where it has none. -/
structure Timestamps where
  monotonicStart : Option ℚ
  monotonicEnd : Option ℚ
  utcStart : Option Text

/-- `_timing`, of numbers and of a text that is not empty. `parse` gives a time and its offset, where it has one. -/
def timing (parse : Text → Option (Option DateTime)) (row : Timestamps) : Except Exc (Known Interval) :=
  match row.monotonicStart, row.monotonicEnd, row.utcStart with
  | some first, some last, some text =>
    if h : last - first < 0 then .error (.value "receipt monotonic_end precedes monotonic_start".toList)
    else
      match parse text with
      | none => .error (.value "Invalid isoformat string".toList)
      | some none => .error (.value "receipt utc_start lacks a UTC offset".toList)
      | some (some start) => .ok (.known ⟨start, last - first, not_lt.1 h⟩)
  | first, last, text =>
    .ok (.unknown ("receipt lacks ".toList ++ List.intercalate ", ".toList
      ((if first = none then ["monotonic_start".toList] else []) ++
        (if last = none then ["monotonic_end".toList] else []) ++
        (if text = none then ["utc_start".toList] else []))))

/-- `StageEvent`. -/
structure StageEvent where
  unit : Text
  behavior : Option Text
  policyVersion : Text
  candidate : Text
  stage : Stage
  activity : Activity
  producer : Text
  session : Text
  run : Text
  outcome : Outcome
  timing : Known Interval
  inputs : Finset Text
  evidence : List Text

/-- The interval of an event, where it is known. -/
def StageEvent.interval (e : StageEvent) : Option Interval :=
  match e.timing with
  | .known i => some i
  | .unknown _ => none

/-- Why the timing of an event is unknown. -/
def StageEvent.reason (e : StageEvent) : Option Text :=
  match e.timing with
  | .known _ => none
  | .unknown reason => some reason

/-! ## Figures -/

/-- `_intervals`. -/
def intervals (events : List StageEvent) : Known (List Interval) :=
  let unknown := events.filterMap StageEvent.reason
  if unknown ≠ [] then .unknown (List.intercalate "; ".toList (Lit.sorted unknown))
  else .known ((events.filterMap StageEvent.interval).insertionSort fun i j => i.utcStart.utc ≤ j.utcStart.utc)

/-- The loop of `_covered`. -/
def coveredFrom (total reached : ℚ) : List Interval → Except Exc ℚ
  | [] => .ok total
  | i :: l => do
    let utcEnd ← i.utcEnd
    if reached < utcEnd.utc then coveredFrom (total + (utcEnd.utc - max i.utcStart.utc reached)) utcEnd.utc l
    else coveredFrom total reached l

/-- `_covered`. -/
def covered (events : List StageEvent) : Except Exc (Known ℚ) :=
  match intervals events with
  | .unknown reason => .ok (.unknown reason)
  | .known l => do return .known (← coveredFrom 0 datetimeMin l)

/-- `_elapsed`. -/
def elapsed (events : List StageEvent) : Except Exc (Known ℚ) :=
  match intervals events with
  | .unknown reason => .ok (.unknown reason)
  | .known [] => .error (.value "max() iterable argument is empty".toList)
  | .known (first :: l) => do
    let utcEnd ← first.utcEnd
    let ends ← l.mapM Interval.utcEnd
    return .known ((ends.map DateTime.utc).foldl max utcEnd.utc - first.utcStart.utc)

/-- `_difference`. -/
def difference (total part : Known ℚ) : Known ℚ :=
  match total, part with
  | .unknown reason, _ => .unknown reason
  | _, .unknown reason => .unknown reason
  | .known t, .known p => .known (t - p)

/-- `_grouped`. -/
def grouped {κ : Type} [DecidableEq κ] (key : StageEvent → κ) (events : List StageEvent) :
    Except Exc (Table κ (Known ℚ)) :=
  (Table.gather key events).mapM fun group => do return (group.1, ← covered group.2)

/-- `_repeated_checks`. -/
def repeatedChecks (events : List StageEvent) : ℕ :=
  let keys := (events.filter fun e => e.stage.isCheck).map fun e => (e.stage, e.candidate, e.inputs)
  keys.length - keys.dedup.length

/-- `UnitReport`. -/
structure UnitReport where
  unit : Text
  behavior : Option Text
  policyVersions : List Text
  completed : Bool
  elapsedSeconds : Known ℚ
  unrecordedSeconds : Known ℚ
  stageSeconds : Table Stage (Known ℚ)
  activitySeconds : Table Activity (Known ℚ)
  repeatedChecks : ℕ
  rework : ℕ
  failedRuns : ℕ

/-- `_unit_report`. -/
def unitReport (unit : Text) (events : List StageEvent) (completed : Bool) : Except Exc UnitReport :=
  match (events.map StageEvent.behavior).dedup with
  | [behavior] => do
    let elapsedSeconds ← elapsed events
    let coveredSeconds ← covered events
    let stageSeconds ← grouped StageEvent.stage events
    let activitySeconds ← grouped StageEvent.activity events
    return {
      unit := unit
      behavior := behavior
      policyVersions := Lit.sorted (events.map StageEvent.policyVersion)
      completed := completed
      elapsedSeconds := elapsedSeconds
      unrecordedSeconds := difference elapsedSeconds coveredSeconds
      stageSeconds := stageSeconds
      activitySeconds := activitySeconds
      repeatedChecks := repeatedChecks events
      rework := events.countP fun e => e.stage = .correction
      failedRuns := ((events.filter fun e => e.outcome = .failed).map StageEvent.run).dedup.length }
  | _ => .error (.value ("unit ".toList ++ unit ++ " receipts disagree on delivered behavior".toList))

end WorkflowMetrics

end Arhugula
