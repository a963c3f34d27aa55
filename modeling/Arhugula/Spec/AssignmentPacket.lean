import Arhugula.Graph.Lineage
import Arhugula.Spec.Contracts
import Arhugula.Spec.Strings

/-!
# The artifact index (`ops/orchestration/assignment_packet.py`)

Artifacts are indexed in the order in which they were produced; each supersedes some before it. `effective_views`
gives one view for each current head, and holds where amendments leave an original with several heads, or with none.
-/

namespace Arhugula

namespace AssignmentPacket

open Strings Graph

/-- `Artifact`. -/
structure Artifact where
  uri : Text
  byteLength : ℕ
  sha256 : Text
  producer : Text
  purpose : Text
  policyVersion : Text
  supersedes : List Text
  deriving DecidableEq

/-- A `Hold`: an artifact that cannot be indexed, with the parents that are not indexed before it, or an original
with its current heads. -/
inductive Hold where
  | invalidInput (uri : Text) (unknown : List Text)
  | ownershipConflict (root : Text) (current : List Text)
  deriving DecidableEq

/-- The loop of `ArtifactIndex.__post_init__`, after those that were seen. -/
def admitAll (seen : Finset Text) : List Artifact → Except Hold Unit
  | [] => pure ()
  | artifact :: rest => do
    let unknown := artifact.supersedes.filter (· ∉ seen)
    if artifact.sha256 ∈ seen ∨ unknown ≠ [] then throw (.invalidInput artifact.uri unknown)
    admitAll (insert artifact.sha256 seen) rest

/-- `ArtifactIndex`. -/
structure ArtifactIndex where
  artifacts : List Artifact
  admitted : admitAll ∅ artifacts = .ok ()

namespace ArtifactIndex

variable (index : ArtifactIndex)

/-- The hashes of the artifacts, in index order. -/
def hashes : List Text := index.artifacts.map Artifact.sha256

/-- `_descendants`. -/
def descendants (root : Text) : Finset Text :=
  index.artifacts.foldl (fun reach artifact =>
    if artifact.supersedes.any (· ∈ reach) then insert artifact.sha256 reach else reach) {root}

/-- `_lineage`. -/
def lineage (head : Text) : List Text :=
  let reach := index.artifacts.reverse.foldl (fun reach artifact =>
    if artifact.sha256 ∈ reach then reach ∪ artifact.supersedes.toFinset else reach) ({head} : Finset Text)
  index.hashes.filter (· ∈ reach)

/-- `superseded`. -/
def superseded : Finset Text := (index.artifacts.flatMap Artifact.supersedes).toFinset

/-- `heads`. -/
def heads : List Text := index.hashes.filter (· ∉ index.superseded)

/-- The originals. -/
def roots : List Text := (index.artifacts.filter fun artifact => artifact.supersedes = []).map Artifact.sha256

/-- `current`. -/
def current (root : Text) : List Text := index.heads.filter (· ∈ index.descendants root)

end ArtifactIndex

/-- `EffectiveView`. -/
structure EffectiveView where
  document : Text
  lineage : List Text
  deriving DecidableEq

/-- `effective_views`. -/
def effectiveViews (index : ArtifactIndex) : Except Hold (List EffectiveView) :=
  match index.roots.find? fun root => (index.current root).length ≠ 1 with
  | some root => throw (.ownershipConflict root (index.current root))
  | none => pure (index.heads.map fun head => ⟨head, index.lineage head⟩)

end AssignmentPacket

end Arhugula
