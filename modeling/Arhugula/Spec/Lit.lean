import Mathlib.Data.List.Sort
import Arhugula.Graph.Closure
import Arhugula.Spec.Contracts
import Arhugula.Spec.Strings

/-!
# Issue exports (`ops/orchestration/loop.py`)

What the loop reads of an export of LIT: the issues, the comments and the relations. A relation leads from the
child to its parent, and from the blocked issue to its prerequisite.

The members of an issue, a comment or a relation that nothing reads by name are kept as they are, for the
fingerprint; they stand in the order of their keys, as they are dumped. The hash is a parameter.
-/

namespace Arhugula

namespace Lit

open Strings Graph

/-- An issue: its id, and its other members. -/
structure Issue where
  id : Text
  fields : Mapping Json
  deriving DecidableEq

/-- A comment. -/
structure Comment where
  id : Text
  issueId : Text
  fields : Mapping Json
  deriving DecidableEq

/-- A relation. -/
structure Relation where
  src : Text
  dst : Text
  type : String
  fields : Mapping Json
  deriving DecidableEq

/-- An export. -/
structure Export where
  issues : List Issue
  comments : List Comment
  relations : List Relation
  deriving DecidableEq

/-- `issue["status"]`. -/
def Issue.status (i : Issue) : Option Json := i.fields.get "status"

/-- The issue is closed. -/
def Issue.isClosed (i : Issue) : Bool := i.status = some (.str "closed")

/-- A member is there, and is true. -/
def truthy : Option Json → Bool
  | none | some .null | some (.bool false) | some (.int 0) | some (.str "") | some (.arr []) | some (.obj []) => false
  | some (.float q) => q ≠ 0
  | some _ => true

/-- The issue is neither closed nor deleted nor archived. -/
def Issue.isActive (i : Issue) : Bool :=
  !i.isClosed && !truthy (i.fields.get "deleted_at") && !truthy (i.fields.get "archived_at")

/-- `sorted`, of texts that differ. -/
def sorted (texts : List Text) : List Text := texts.dedup.insertionSort (· ≤ ·)

/-! ## The graph -/

/-- The relations of some types, as edges from `src` to `dst`. -/
def Export.edges (data : Export) (types : List String) : List (Text × Text) :=
  (data.relations.filter fun r => types.contains r.type).map fun r => (r.src, r.dst)

/-- The relations of some types, as edges from `dst` to `src`. -/
def Export.backward (data : Export) (types : List String) : List (Text × Text) :=
  (data.edges types).map Prod.swap

/-- The scope of `fingerprint`: what the ticket and the goal depend on. -/
def scope (data : Export) (ticket goal : Text) : Finset Text :=
  closure (data.edges ["parent-child", "blocks"]) {ticket, goal}

/-- `excluded_scope`: what depends on what is quarantined. -/
def excludedScope (data : Export) (quarantined : List Text) : Finset Text :=
  closure (data.backward ["blocks", "parent-child"]) quarantined.toFinset

/-- `prerequisites`: a child inherits the blockers of its parents. -/
def prerequisites (data : Export) (ticket : Text) : List Text :=
  ((data.edges ["blocks"]).filter fun e => e.1 ∈ closure (data.edges ["parent-child"]) {ticket}).map Prod.snd

/-- The ids of the closed issues. -/
def closed (data : Export) : List Text := (data.issues.filter Issue.isClosed).map Issue.id

/-- `open_dependencies`. -/
def openDependencies (data : Export) (ticket : Text) : List Text :=
  sorted ((prerequisites data ticket).filter (· ∉ closed data))

/-! ## The fingerprint -/

/-- What `fingerprint` hashes. The order in which the relations are listed is one of their own. -/
structure Hashed where
  issues : List Issue
  comments : List Comment
  relations : Multiset Relation
  deriving DecidableEq

/-- The value that `fingerprint` hashes. -/
def hashed (data : Export) (ticket goal : Text) : Hashed where
  issues := (data.issues.filter (·.id ∈ scope data ticket goal)).insertionSort fun i j => i.id ≤ j.id
  comments := (data.comments.filter (·.issueId ∈ scope data ticket goal)).insertionSort fun c d => c.id ≤ d.id
  relations := (data.relations.filter fun r => r.src ∈ scope data ticket goal || r.dst ∈ scope data ticket goal : List Relation)

/-- `fingerprint`. -/
def fingerprint {H : Type} (digest : Hashed → H) (data : Export) (ticket goal : Text) : H :=
  digest (hashed data ticket goal)

/-- `PROGRESS`. -/
def progress : List String := ["status", "assignee", "updated_at", "closed_at"]

/-- An issue without its progress. -/
def Issue.unprogressed (i : Issue) : Issue := { i with fields := i.fields.filter fun m => !progress.contains m.1 }

/-- `beside`. -/
def beside (data : Export) (ticket : Text) (known : List Text) : Export where
  relations := data.relations
  issues := data.issues.map fun i => if i.id = ticket then i.unprogressed else i
  comments := data.comments.filter fun c => c.issueId ≠ ticket || known.contains c.id

end Lit

end Arhugula
