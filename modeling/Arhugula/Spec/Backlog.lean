import Arhugula.Graph.Forest
import Arhugula.Spec.Lit

/-!
# The backlog (`ops/orchestration/routing.py`, `ops/orchestration/continuation.py`)

`index_backlog` checks an export and indexes it, `route` routes an issue, `route_backlog` lists the leaves, and
`select_ticket` goes from the issue that LIT names to a leaf. Labels, titles, types and ranks are strings; what
`str.lower` and `\w` are on other characters than those of ASCII is a parameter.
-/

namespace Arhugula

namespace Backlog

open Strings Lit Graph

/-! ## The index -/

/-- What is raised: a `ValueError` or a `Stop`, with its text. -/
inductive Refusal where
  | value (text : String)
  | stop (text : String)
  deriving DecidableEq

/-- `parents`, as edges from the child. -/
def parents (data : Export) : List (Text × Text) := data.edges ["parent-child"]

/-- The ids of the issues. -/
def ids (data : Export) : List Text := data.issues.map Issue.id

/-- **An export that was indexed**: the ids differ, every relation to a parent is between issues, a child has one
parent, and no issue is above itself. -/
structure Index where
  data : Export
  distinct : (ids data).Nodup
  known : ∀ e ∈ parents data, e.1 ∈ ids data ∧ e.2 ∈ ids data
  unique : ((parents data).map Prod.fst).Nodup
  ends : ∀ id ∈ ids data, (ancestors (parents data) id).isSome = true

/-- `index_backlog`. -/
def indexBacklog (version : Option Json) (data : Export) : Except Refusal Index :=
  if version ≠ some (.int 2) then throw (.value "unsupported LIT export version")
  else if hd : (ids data).Nodup then
    if hk : (∀ e ∈ parents data, e.1 ∈ ids data ∧ e.2 ∈ ids data) ∧ ((parents data).map Prod.fst).Nodup then
      if he : ∀ id ∈ ids data, (ancestors (parents data) id).isSome = true then pure ⟨data, hd, hk.1, hk.2, he⟩
      else throw (.value "parent cycle")
    else throw (.value "invalid parent relationship")
  else throw (.value "duplicate issue id")

namespace Index

variable (x : Index)

/-- `issues.get(identifier)`. -/
def find (id : Text) : Option Issue := x.data.issues.find? (·.id = id)

/-- `ancestors[identifier]`. -/
def chain (id : Text) : List Issue := ((ancestors (parents x.data) id).getD []).filterMap x.find

/-- The children of an issue. -/
def children (id : Text) : List Issue := (Graph.children (parents x.data) id).filterMap x.find

/-- The issue and its ancestors. -/
def scope (id : Text) : List Text := id :: (x.chain id).map Issue.id

end Index

/-! ## Completeness -/

/-- `i.get("issue_type") == "epic"`. -/
def isEpic (i : Issue) : Bool := i.fields.get "issue_type" = some (.str "epic")

/-- The issue is archived or deleted. -/
def isRetired (i : Issue) : Bool := truthy (i.fields.get "archived_at") || truthy (i.fields.get "deleted_at")

/-- `is_complete`, at most so many levels down. -/
def isCompleteIn (x : Index) : ℕ → Issue → Bool
  | 0, _ => false
  | n + 1, i =>
    if i.isClosed then true
    else if !isEpic i then false
    else
      let children := (x.children i.id).filter (!isRetired ·)
      children ≠ [] && children.all (isCompleteIn x n)

/-- `is_complete`. There are no more levels than relations (`isComplete_eq`). -/
def isComplete (x : Index) (i : Issue) : Bool := isCompleteIn x ((parents x.data).length + 1) i

/-- The issue of an id is there, and complete. -/
def isDone (x : Index) (id : Text) : Bool := (x.find id).any (isComplete x)

/-! ## Selection -/

/-- `i.get("rank", "")`. -/
def rank (i : Issue) : Text :=
  match i.fields.get "rank" with
  | some (.str s) => s.toList
  | _ => []

/-- `(i.get("rank", ""), i["id"])`, in order. -/
def ranked (i j : Issue) : Prop := rank i < rank j ∨ rank i = rank j ∧ i.id ≤ j.id

instance : DecidableRel ranked := fun _ _ => inferInstanceAs (Decidable (_ ∨ _ ∧ _))

/-- `line.split()[0]`, if there is one. -/
def firstWord (line : Text) : Option Text :=
  match line.dropWhile Conversation.isSpace with
  | [] => none
  | rest => some (rest.takeWhile (!Conversation.isSpace ·))

/-- The issues that the output of LIT names. -/
def named (x : Index) (output : Text) : List Text :=
  (splitlines output).filterMap fun line => (firstWord line).filter fun word => (x.find word).isSome

/-- The blocks of an issue or of one above it. -/
def blockers (x : Index) (id : Text) : List Text :=
  ((x.data.edges ["blocks"]).filter fun e => (x.scope id).contains e.1).map Prod.snd

/-- The children that are not finished. -/
def unfinished (x : Index) (id : Text) : List Issue := (x.children id).filter fun i => !i.isClosed && !isRetired i

/-- From an issue to a leaf that is not finished, at most so many levels down. -/
def descend (x : Index) : ℕ → Issue → Except Refusal Issue
  | 0, _ => throw (.stop "stale-lit-next")
  | n + 1, current =>
    match (unfinished x current.id).insertionSort ranked with
    | [] => if x.children current.id ≠ [] then throw (.stop "container-needs-reconciliation") else pure current
    | next :: _ => descend x n next

/-- `select_ticket`. There are no more levels than relations. -/
def selectTicket (version : Option Json) (data : Export) (output : Text) :
    Except Refusal (Option (Issue × List Issue)) := do
  let x ← indexBacklog version data
  match named x output with
  | [] => if strip output ≠ [] then throw (.stop "no-workable-ticket") else pure none
  | id :: rest =>
    if rest.any (· ≠ id) then throw (.stop "ambiguous-lit-next")
    else
      match x.find id with
      | none => throw (.stop "no-workable-ticket")
      | some issue => do
        let current ← descend x ((parents data).length + 1) issue
        if !current.isActive then throw (.stop "stale-lit-next")
        else if (blockers x current.id).any (!isDone x ·) then throw (.stop "blocked")
        else pure (some (current, x.chain current.id))

/-! ## Routing -/

/-- What `str.lower` and `\w` are. -/
structure Glyphs where
  lower : Text → Text
  isWord : Char → Bool

/-- `set(issue.get("labels") or [])`. -/
def labels (i : Issue) : List Text :=
  match i.fields.get "labels" with
  | some (.arr items) => items.filterMap fun
    | .str s => some s.toList
    | _ => none
  | _ => []

/-- `HIGH`. -/
def high : List String :=
  ["architecture", "contracts", "security", "cross-cutting", "session-lifecycle", "model-routing", "orchestration",
    "debugging", "high-risk-review"]

/-- `BOUNDED`. -/
def bounded : List String :=
  ["exploration", "inventory", "tests", "fixtures", "documentation", "bounded-implementation", "validation",
    "independent-review"]

/-- The keys of `MODELS`. -/
inductive ModelClass where
  | terra | astra
  deriving DecidableEq

/-- `MODELS`. -/
def ModelClass.model : ModelClass → String
  | terra => "gpt-5.6-terra"
  | astra => "gpt-6-astra"

def ModelClass.effort : ModelClass → String
  | terra => "medium"
  | astra => "high"

/-- `STOPS`. -/
def stops : List String :=
  ["hil-required", "needs-design", "privileged", "destructive", "external-credentials", "external-network"]

/-- Where the capability comes from. -/
inductive Source where
  | explicit | default | riskFloor
  deriving DecidableEq

/-- What `route` returns. Where `stopReason` is `none` the decision is `ready`. -/
structure Route where
  ticket : Text
  model : Option String
  effort : Option String
  role : Option String
  capability : Option String
  source : Option Source
  stopReason : Option String
  deriving DecidableEq

/-- A part of a pattern. -/
inductive Atom where
  | char (c : Char)
  | any
  | boundary

/-- The pattern matches here, after a character or at the beginning. -/
def matchesAt (g : Glyphs) : List Atom → Option Char → Text → Bool
  | [], _, _ => true
  | .char c :: rest, _, t :: ts => t = c && matchesAt g rest (some t) ts
  | .any :: rest, _, t :: ts => t ≠ '\n' && matchesAt g rest (some t) ts
  | .boundary :: rest, before, ts => before.any g.isWord ≠ ts.head?.any g.isWord && matchesAt g rest before ts
  | _ :: _, _, [] => false

/-- `re.search` of alternatives. -/
def search (g : Glyphs) (alternatives : List (List Atom)) : Option Char → Text → Bool
  | before, [] => alternatives.any (matchesAt g · before [])
  | before, t :: ts => alternatives.any (matchesAt g · before (t :: ts)) || search g alternatives (some t) ts

/-- A literal, in which a dot is any character. -/
def literal (s : String) : List Atom := s.toList.map fun c => if c = '.' then .any else .char c

/-- The titles that name a capability, in order. -/
def titled : List (List (List Atom) × String) :=
  [([literal "contract", literal "schema", literal "protocol"], "contracts"),
    ([literal "security", literal "permission", literal "authenticat", literal "policy", literal "redact",
      literal "sandbox"], "security"),
    ([literal "architecture", literal "stack", literal "boundar"], "architecture"),
    ([literal "lifecycle", literal "session", literal "handoff"], "session-lifecycle"),
    ([literal "model.routing"], "model-routing"),
    ([literal "orchestrat", literal "continuation", literal "circle.back", literal "reconcile"], "orchestration"),
    ([literal "inventory", literal "discover"], "inventory"),
    ([.boundary :: literal "test", literal "fixture", literal "replay"], "tests"),
    ([literal "documentation", Atom.boundary :: literal "docs" ++ [Atom.boundary]], "documentation"),
    ([literal "explor", literal "inspect"], "exploration"),
    ([literal "validat", literal "dry.run"], "validation"),
    ([literal "review"], "independent-review")]

/-- The values of the labels of a key. -/
def values (labels : List Text) (key : String) : List Text :=
  ((labels.filter fun l => (key.toList ++ [':']).isPrefixOf l).map fun l => l.drop (key.length + 1)).dedup

/-- The value of a key. There is at most one, of those that are allowed. -/
def field (labels : List Text) (key : String) (allowed : List String) : Except Unit (Option String) :=
  match values labels key with
  | [] => pure none
  | [v] =>
    match allowed.find? (·.toList = v) with
    | some s => pure (some s)
    | none => throw ()
  | _ => throw ()

/-- The title of an issue, in lower case. -/
def title (g : Glyphs) (i : Issue) : Text :=
  match i.fields.get "title" with
  | some (.str s) => g.lower s.toList
  | _ => []

/-- The capability of an issue that names none. Several high ones are a conflict. -/
def inferred (g : Glyphs) (i : Issue) : Except Unit (Option String) :=
  let has (l : String) := (labels i).contains l.toList
  match high.filter has with
  | _ :: _ :: _ => throw ()
  | [c] => pure (some c)
  | [] =>
    if has "validation" then pure (some "validation")
    else if has "session-continuity" then pure (some "session-lifecycle")
    else if has "workflow" || has "circle-back" then pure (some "orchestration")
    else pure ((titled.find? fun t => search g t.1 none (title g i)).map Prod.snd)

/-- The role of a capability. -/
def roleOf (capability : String) : String :=
  if capability = "independent-review" || capability = "high-risk-review" then "review"
  else if capability = "validation" then "validate"
  else if capability = "exploration" then "explore"
  else "implement"

/-- `route`. -/
def route (g : Glyphs) (i : Issue) (above : List Issue) : Route :=
  let own := labels i
  let all := own ++ above.flatMap labels
  let stop (reason : String) : Route := ⟨i.id, none, none, none, none, none, some reason⟩
  match stops.find? fun m => all.contains m.toList with
  | some m => stop m
  | none =>
    match (do
      let model ← field own "model" ["astra", "terra"]
      let effort ← field own "effort" ["high", "medium"]
      let role ← field own "role" ["implement", "review", "validate", "explore"]
      let capability ← field own "capability" (high ++ bounded)
      -- the floor holds for a task that is explicitly bounded, too
      if all.contains "security".toList || all.contains "high-risk".toList then
        pure (model, effort, role, some "security", Source.riskFloor)
      else
        match capability with
        | some c => pure (model, effort, role, some c, .explicit)
        | none => return (model, effort, role, ← inferred g i, .default) : Except Unit _) with
    | .error _ => stop "routing-conflict"
    | .ok (model, effort, role, capability, source) =>
      match capability with
      | none => stop "routing-ambiguous"
      | some capability =>
        let floor : ModelClass := if high.contains capability then .astra else .terra
        if floor = .astra && model = some "terra" then stop "routing-conflict"
        else
          let c : ModelClass := if model = some "astra" then .astra else floor
          if effort.any (· ≠ c.effort) then stop "routing-conflict"
          else
            ⟨i.id, some c.model, some c.effort, some (role.getD (roleOf capability)), some capability, some source,
              if own.contains "autonomous-safe".toList then none else some "autonomy-unclassified"⟩

/-- A row of `route_backlog`. -/
structure Row where
  route : Route
  blockedBy : List Text
  deriving DecidableEq

/-- The leaves. -/
def isLeaf (x : Index) (i : Issue) : Bool :=
  !((parents x.data).map Prod.snd).contains i.id && !isEpic i && i.isActive

/-- The blocks that are between issues. -/
def isLinked (x : Index) : Bool :=
  (x.data.edges ["blocks"]).all fun e => (x.find e.1).isSome && (x.find e.2).isSome

/-- The row of a leaf. -/
def row (g : Glyphs) (x : Index) (i : Issue) : Row :=
  let routed := route g i (x.chain i.id)
  let blocked := sorted ((blockers x i.id).filter (!isDone x ·))
  ⟨if blocked ≠ [] && routed.stopReason = none then { routed with stopReason := some "blocked" } else routed, blocked⟩

/-- `route_backlog`. -/
def routeBacklog (g : Glyphs) (version : Option Json) (data : Export) : Except Refusal (List Row) := do
  let x ← indexBacklog version data
  let leaves := data.issues.filter (isLeaf x)
  if leaves ≠ [] && !isLinked x then throw (.value "invalid dependency relationship")
  else pure ((leaves.insertionSort ranked).map (row g x))

end Backlog

end Arhugula
