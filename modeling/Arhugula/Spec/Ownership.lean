import Arhugula.Spec.Contracts
import Arhugula.Spec.Strings
import Mathlib.Data.Finset.Image

/-!
# Reservations (`ops/orchestration/ownership.py`)

A reservation names a checkout, paths and resources before work uses them. A record is a JSON object; `parse`
makes a reservation of it, and `conflicts` says why it may not join those that are active.

What a path resolves to is a parameter.
-/

namespace Arhugula

namespace Ownership

open Strings

/-! ## The kinds -/

/-- `Writer`. -/
structure Writer where
  key : Text
  owner : Text
  reviewer : Text
  worktree : Text
  paths : Finset Text
  resources : Finset Text
  deriving DecidableEq

/-- `Hold`. -/
structure Hold where
  key : Text
  owner : Text
  resources : Finset Text
  deriving DecidableEq

/-- `Preserved`. -/
structure Preserved where
  key : Text
  worktree : Text
  paths : Finset Text
  deriving DecidableEq

/-- A reservation. -/
inductive Reservation where
  | writer (w : Writer)
  | hold (h : Hold)
  | preserved (p : Preserved)
  deriving DecidableEq

namespace Reservation

def key : Reservation → Text
  | writer w => w.key
  | hold h => h.key
  | preserved p => p.key

def worktrees : Reservation → Finset Text
  | writer w => {w.worktree}
  | hold _ => ∅
  | preserved p => {p.worktree}

def writes : Reservation → Finset Text
  | writer w => w.paths
  | _ => ∅

def resources : Reservation → Finset Text
  | writer w => w.resources
  | hold h => h.resources
  | preserved _ => ∅

/-- The owner and the reviewer, of a `Writer`. -/
def authors : Reservation → Option (Text × Text)
  | writer w => some (w.owner, w.reviewer)
  | _ => none

end Reservation

/-! ## Parsing -/

/-- What a `ValueError` of a record is about. -/
inductive Invalid where
  | kind
  | field (name : String)
  | path (path : Text)
  | relative
  deriving DecidableEq

/-- `_text`. -/
def text (record : Mapping Json) (name : String) : Except Invalid Text :=
  match record.get name with
  | some (.str value) => if value.toList = [] then .error (.field name) else .ok value.toList
  | _ => .error (.field name)

/-- A string of a list of names. -/
def name : Json → Option Text
  | .str value => if value.toList = [] then none else some value.toList
  | _ => none

/-- `_names`. -/
def names (record : Mapping Json) (field : String) : Except Invalid (List Text) :=
  match record.get field with
  | some (.arr items) =>
    match items.mapM name with
    | some values => .ok values
    | none => .error (.field field)
  | _ => .error (.field field)

/-- The parts of a relative `PurePosixPath`. -/
def parts (path : Text) : List Text := (path.splitOn '/').filter fun part => part ≠ [] && part ≠ ['.']

/-- `PurePosixPath(path).as_posix()`, of a relative path that has parts. -/
def asPosix (path : Text) : Text := List.intercalate ['/'] (parts path)

/-- `path.endswith("/")`. -/
def isTree (path : Text) : Bool := path.getLast? = some '/'

/-- One spelling of a path inside the checkout. -/
def isCanonical (path : Text) : Bool :=
  path.head? ≠ some '/' && parts path ≠ [] && !(parts path).contains ['.', '.'] &&
    path = asPosix path ++ if isTree path then ['/'] else []

/-- `_paths`. -/
def paths (record : Mapping Json) : Except Invalid (Finset Text) := do
  let declared ← names record "paths"
  match declared.find? (!isCanonical ·) with
  | some path => .error (.path path)
  | none => .ok declared.toFinset

/-- `_worktree`. -/
def worktree (resolve : Text → Text) (record : Mapping Json) : Except Invalid Text := do
  let path ← text record "worktree"
  if path.head? ≠ some '/' then .error .relative else .ok (resolve path)

/-- `_KINDS["writer"]`. -/
def writer (resolve : Text → Text) (record : Mapping Json) : Except Invalid Writer := do
  return {
    key := ← text record "key"
    owner := ← text record "owner"
    reviewer := ← text record "reviewer"
    worktree := ← worktree resolve record
    paths := ← paths record
    resources := (← names record "resources").toFinset }

/-- `_KINDS["hold"]`. -/
def hold (record : Mapping Json) : Except Invalid Hold := do
  return {
    key := ← text record "key"
    owner := ← text record "owner"
    resources := (← names record "resources").toFinset }

/-- `_KINDS["preserved"]`. -/
def preserved (resolve : Text → Text) (record : Mapping Json) : Except Invalid Preserved := do
  return {
    key := ← text record "key"
    worktree := ← worktree resolve record
    paths := ← paths record }

/-- `parse`. -/
def parse (resolve : Text → Text) : Json → Except Invalid Reservation
  | .obj record =>
    match Mapping.get record "kind" with
    | some (.str "writer") => .writer <$> writer resolve record
    | some (.str "hold") => .hold <$> hold record
    | some (.str "preserved") => .preserved <$> preserved resolve record
    | _ => .error .kind
  | _ => .error .kind

/-! ## Conflicts -/

/-- A declared path is or contains the path. -/
def isUnder (declared path : Text) : Bool := path = declared || isTree declared && declared.isPrefixOf path

/-- `covers`. -/
def covers (declared : Finset Text) (path : Text) : Bool := decide (∃ d ∈ declared, isUnder d path = true)

/-- `_overlap`. -/
def overlap (left right : Finset Text) : Bool :=
  decide (∃ p ∈ right, covers left p = true) || decide (∃ p ∈ left, covers right p = true)

/-- The reasons, in the order of their texts. -/
inductive Reason where
  | authorReservedAsReviewer | duplicateReservation | pathConflict | resourceConflict
  | reviewerIsActiveAuthor | reviewerNotIndependent | worktreeConflict
  deriving DecidableEq

def Reason.text : Reason → String
  | authorReservedAsReviewer => "author-reserved-as-reviewer"
  | duplicateReservation => "duplicate-reservation"
  | pathConflict => "path-conflict"
  | resourceConflict => "resource-conflict"
  | reviewerIsActiveAuthor => "reviewer-is-active-author"
  | reviewerNotIndependent => "reviewer-not-independent"
  | worktreeConflict => "worktree-conflict"

def Reason.all : List Reason :=
  [authorReservedAsReviewer, duplicateReservation, pathConflict, resourceConflict, reviewerIsActiveAuthor,
    reviewerNotIndependent, worktreeConflict]

/-- What the candidate shares with one reservation that is active. -/
def clashes (other candidate : Reservation) : Reason → Bool
  | .duplicateReservation => other.key = candidate.key
  | .worktreeConflict => (other.worktrees ∩ candidate.worktrees).Nonempty
  | .pathConflict => overlap other.writes candidate.writes
  | .resourceConflict => (other.resources ∩ candidate.resources).Nonempty
  | _ => false

/-- What speaks against the authors of the candidate. -/
def authored (active : List Reservation) (candidate : Reservation) : Reason → Bool
  | .reviewerNotIndependent => candidate.authors.any fun c => c.2 = c.1
  | .reviewerIsActiveAuthor =>
    candidate.authors.any fun c => active.any fun other => other.authors.any fun w => w.1 = c.2
  | .authorReservedAsReviewer =>
    candidate.authors.any fun c => active.any fun other => other.authors.any fun w => w.2 = c.1
  | _ => false

/-- `conflicts`. -/
def conflicts (active : List Reservation) (candidate : Reservation) : List Reason :=
  Reason.all.filter fun reason => active.any (clashes · candidate reason) || authored active candidate reason

/-! ## Dirty paths -/

/-- `declared_dirty`. -/
def Reservation.declaredDirty : Reservation → Finset Text
  | .writer w => w.paths
  | .hold _ => ∅
  | .preserved p => p.paths

/-- `undeclared`. -/
def undeclared (resolve : Text → Text) (active : List Reservation) (checkout : Text) (dirty : Finset Text) :
    Finset Text :=
  let declared := ((active.filter fun r => resolve checkout ∈ r.worktrees).map Reservation.declaredDirty).foldr (· ∪ ·) ∅
  dirty.filter fun path => covers declared path = false

end Ownership

end Arhugula
