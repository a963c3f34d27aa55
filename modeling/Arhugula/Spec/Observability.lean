import Arhugula.Spec.Codec

/-!
# The snapshots for offline consumers (`runtime/observability_adapter.py`, `runtime/views.py`)

A section of a snapshot shows the evidence of a source, or says that it could not be read. The detail section shows the
state of a projection and the diagnostics that are declared public, of each its category and its value.

Values are those of the codec: a mapping is a dict or a proxy of one, with its members in the order of their keys.
`none` is an exception. What a journal holds is a parameter.
-/

namespace Arhugula

namespace Observability

open Strings Codec

/-- `Projection`. -/
structure Projection where
  cursor : ℤ
  action : Option (List (Text × Py))
  interaction : Option (List (Text × Py))
  lane : Py
  provider : Option (List (Text × Py))
  activeMode : Option Text
  muted : Option Bool
  health : Option Text
  degradedCapabilities : List Py
  pending : Bool
  voiceLifecycle : List (Text × Py)

/-- `journal.read(after=cursor)`: the records beyond a cursor, each with its own. -/
structure Journal where
  read : ℤ → Option (List (ℤ × Py))

/-- `is_stale`. -/
def isStale (p : Projection) (j : Journal) : Option Bool := (j.read p.cursor).map fun records => !records.isEmpty

/-- What a key stands for is a string, and this one. -/
def isWord (v : Option Py) (word : String) : Bool :=
  match v with
  | some (.str s) => s = word.toList
  | _ => false

/-! ## Values -/

mutual

/-- `_detach`. -/
def detach : Py → Py
  | .dict members => .dict (detachMembers members)
  | .proxy members => .dict (detachMembers members)
  | .list items => .list (detachItems items)
  | .tuple items => .list (detachItems items)
  | v => v

def detachItems : List Py → List Py
  | [] => []
  | v :: vs => detach v :: detachItems vs

def detachMembers : List (Text × Py) → List (Text × Py)
  | [] => []
  | (k, v) :: ms => (k, detach v) :: detachMembers ms

end

/-- A mapping declares no sensitivity, or `public`. -/
def isDeclaredPublic (members : List (Text × Py)) : Bool :=
  (get members "sensitivity".toList).isNone || isWord (get members "sensitivity".toList) "public"

mutual

/-- `_is_public_value`. -/
def isPublicValue : Py → Bool
  | .dict members => isDeclaredPublic members && arePublicMembers members
  | .proxy members => isDeclaredPublic members && arePublicMembers members
  | .list items => arePublicItems items
  | .tuple items => arePublicItems items
  | _ => true

def arePublicItems : List Py → Bool
  | [] => true
  | v :: vs => isPublicValue v && arePublicItems vs

def arePublicMembers : List (Text × Py) → Bool
  | [] => true
  | (_, v) :: ms => isPublicValue v && arePublicMembers ms

end

/-! ## Views -/

/-- `None if mapping is None else mapping[key]`. -/
def field (mapping : Option (List (Text × Py))) (key : String) : Option Py :=
  match mapping with
  | none => some .none
  | some members => get members key.toList

/-- A value that may be `None`. -/
def optional {α : Type} (make : α → Py) : Option α → Py
  | none => .none
  | some a => make a

/-- `compact`. -/
def compact (p : Projection) : Option Py := do
  let status ← field p.action "status"
  let phase ← field p.interaction "phase"
  let provider ← field p.provider "status"
  some (.dict [
    ("action_status".toList, status),
    ("active_mode".toList, optional .str p.activeMode),
    ("cursor".toList, .int p.cursor),
    ("degraded_capabilities".toList, .list p.degradedCapabilities),
    ("health".toList, optional .str p.health),
    ("interaction_phase".toList, phase),
    ("lane".toList, p.lane),
    ("muted".toList, optional .bool p.muted),
    ("pending".toList, .bool p.pending),
    ("provider_status".toList, provider),
    ("voice_lifecycle".toList, detach (.proxy p.voiceLifecycle))])

/-- The members of a mapping. -/
def mapping : Py → Option (List (Text × Py))
  | .dict members => some members
  | .proxy members => some members
  | _ => none

/-- What a value yields when it is iterated. -/
def iterate : Py → Option (List Py)
  | .list items => some items
  | .tuple items => some items
  | .dict members => some (members.map fun m => .str m.1)
  | .proxy members => some (members.map fun m => .str m.1)
  | .str s => some (s.map fun c => .str [c])
  | _ => none

/-- Whether `detailed` shows a diagnostic of this sensitivity. -/
def isShown (includeSensitive : Bool) (sensitivity : Option Py) : Bool :=
  isWord sensitivity "public" || (isWord sensitivity "private" && includeSensitive)

/-- What `detailed` makes of a diagnostic that it shows. -/
def rendered (diagnostic : List (Text × Py)) : Option Py := do
  let category ← get diagnostic "category".toList
  let value ← get diagnostic "value".toList
  some (.dict [("category".toList, category), ("value".toList, detach value)])

/-- The loop of `detailed`. -/
def visible (includeSensitive : Bool) : List Py → Option (List Py)
  | [] => some []
  | d :: ds => do
    let diagnostic ← mapping d
    if isShown includeSensitive (get diagnostic "sensitivity".toList) then
      let shown ← rendered diagnostic
      let rest ← visible includeSensitive ds
      some (shown :: rest)
    else visible includeSensitive ds

/-- `detailed`. -/
def detailed (p : Projection) (diagnostics : Py) (includeSensitive : Bool) : Option Py := do
  let items ← iterate diagnostics
  let shown ← visible includeSensitive items
  let state ← compact p
  some (.dict [("diagnostics".toList, .list shown), ("state".toList, state)])

/-! ## Sections -/

/-- What a snapshot is given of a source. The evidence of one that is available may be of another class. -/
inductive Source (α : Type) where
  | available (evidence : Option α)
  | unreadable
  | contradictory
  | other

/-- `ProjectionEvidence`. -/
structure ProjectionEvidence where
  projection : Projection
  journal : Journal

/-- `DetailEvidence`. -/
structure DetailEvidence where
  projection : Projection
  journal : Journal
  diagnostics : Py

/-- `freshness`, of a source that is available. -/
inductive Freshness where
  | stale | current
  deriving DecidableEq, Repr

/-- A section of a snapshot. -/
inductive Section where
  | available (freshness : Freshness) (data : Py)
  | unreadable
  | contradictory

/-- `_failure_section`, or what is made of the evidence. An exception leaves a section unreadable. -/
def sectionOf {α : Type} (render : α → Option Section) : Source α → Section
  | .available (some evidence) => (render evidence).getD .unreadable
  | .available none => .unreadable
  | .unreadable => .unreadable
  | .contradictory => .contradictory
  | .other => .unreadable

/-- `"stale" if is_stale(projection, journal) else "current"`. -/
def freshness (p : Projection) (j : Journal) : Option Freshness :=
  (isStale p j).map fun stale => if stale then .stale else .current

/-- `_projection_section`, of the compact view. -/
def projectionSection : Source ProjectionEvidence → Section :=
  sectionOf fun evidence => do
    let fresh ← freshness evidence.projection evidence.journal
    let state ← compact evidence.projection
    some (.available fresh (detach state))

/-- `_detail_section`. -/
def detailSection : Source DetailEvidence → Section :=
  sectionOf fun evidence => do
    let fresh ← freshness evidence.projection evidence.journal
    let detail ← detailed evidence.projection evidence.diagnostics false
    if !isPublicValue detail then some .unreadable
    else some (.available fresh (detach detail))

end Observability

end Arhugula
