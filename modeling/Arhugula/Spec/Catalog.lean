import Arhugula.Durable.Calls
import Arhugula.Spec.Codec

/-!
# The catalog (`runtime/catalog.py`, `runtime/inventory.py`)

`propose` makes a candidate of an inventory, and `publish` makes the candidate that is pending the current snapshot.
Each takes the lock of the registry for all that it does to it, so a run is a sequence of calls.

What the arguments are of another type than they should be is as of `Codec`. Where two errors could be raised of one
mapping, which of them is depends on the order of its insertion, which is not kept. What `json.dumps` and `sha256` return
are parameters.
-/

namespace Arhugula

namespace Catalog

open Strings Codec

/-- `json.dumps` of sorted keys, unless it raises, and `hashlib.sha256(..).hexdigest()`. -/
structure Host where
  dumps : Py → Option Text
  sha256 : Text → Text

/-! ## Discovery -/

/-- `_SOURCES`, with the keys that a record of each has. -/
def sources : List (Text × List Text) :=
  [("omarchy_commands".toList, ["id".toList, "argv".toList]), ("menus".toList, ["id".toList, "title".toList]),
    ("hyprland_bindings".toList, ["id".toList, "keys".toList, "action".toList]),
    ("custom_bindings".toList, ["id".toList, "keys".toList, "action".toList]),
    ("installed_apps".toList, ["id".toList, "desktop_id".toList])]

/-- An `InventoryItem` that was discovered. -/
structure Found where
  identifier : Text
  source : Text
  provenance : Text
  data : Py

/-- An `Inventory` that was discovered. -/
structure Discovery where
  capabilities : List Found
  state : Py
  stateProvenance : Text

/-- `type(value) is str and value`. -/
def isPart : Py → Bool
  | .str s => s ≠ []
  | _ => false

/-- `type(value) is str`. -/
def isStr : Option Py → Bool
  | some (.str _) => true
  | _ => false

/-- `_valid_record`. -/
def validRecord (source : Text) (required : List Text) (record : Py) : Bool :=
  match record with
  | .dict ms => required.all (fun key => key = "argv".toList || isStr (get ms key)) &&
      (source ≠ "omarchy_commands".toList ||
        match get ms "argv".toList with
        | some (.list parts) => !parts.isEmpty && parts.all isPart
        | _ => false)
  | _ => false

/-- `record["id"]`, of a valid record. -/
def idOf : Py → Text
  | .dict ms => match get ms "id".toList with
    | some (.str id) => id
    | _ => []
  | _ => []

/-- The records of one source. -/
def discoverRecords (source : Text) (required : List Text) : List Py → List Found → Except Text (List Found)
  | [], items => pure items
  | record :: records, items =>
    if !validRecord source required record then throw ("invalid ".toList ++ source ++ " record".toList)
    else if idOf record ∈ items.map Found.identifier then
      throw ("duplicate capability id: ".toList ++ idOf record)
    else
      discoverRecords source required records
        (items ++ [⟨idOf record, source, "fixture:".toList ++ source, freeze record⟩])

/-- The sources of a fixture. -/
def discoverSources (fixture : List (Text × Py)) : List (Text × List Text) → List Found → Except Text (List Found)
  | [], items => pure items
  | (source, required) :: rest, items =>
    match get fixture source with
    | some (.list records) => do
      let items ← discoverRecords source required records items
      discoverSources fixture rest items
    | _ => throw (source ++ " must be a list".toList)

/-- `value == 1`. -/
def isOne : Option Py → Bool
  | some (.int i) => i = 1
  | some (.bool b) => b
  | some (.float q) => q = 1
  | _ => false

/-- `discover`. -/
def discover (fixture : Py) : Except Text Discovery :=
  match fixture with
  | .dict ms =>
    let names := "version".toList :: "state".toList :: sources.map Prod.fst
    if !isOne (get ms "version".toList) then throw "unsupported inventory fixture".toList
    else if !isJson fixture then throw "inventory fixture must contain JSON-compatible values".toList
    else
      match get ms "state".toList with
      | some (.dict state) =>
        if names.all (fun n => (get ms n).isSome) && ms.all (fun m => names.contains m.1) then do
          let items ← discoverSources ms sources []
          pure ⟨items.insertionSort fun a b => a.identifier ≤ b.identifier, freeze (.dict state), "fixture:state".toList⟩
        else throw "inventory fixture is incomplete".toList
      | _ => throw "inventory fixture is incomplete".toList
  | _ => throw "unsupported inventory fixture".toList

/-! ## Entries -/

/-- An `InventoryItem` that is given, of any fields. -/
structure Item where
  identifier : Py
  source : Py
  provenance : Py
  data : Py

/-- What is given as an inventory: one whose capabilities are a tuple, of items or others, or anything else. -/
inductive Given where
  | inventory (capabilities : List (Option Item))
  | other

mutual

/-- `_plain`, with what is left of the budget. -/
def plain (v : Py) (depth budget : ℕ) : Except String (Py × ℕ) :=
  if budget = 0 || 16 < depth then throw "catalog.size"
  else
    match v with
    | .none => pure (.none, budget - 1)
    | .bool b => pure (.bool b, budget - 1)
    | .int i => pure (.int i, budget - 1)
    | .float q => pure (.float q, budget - 1)
    | .str s => if 16384 < s.length then throw "catalog.size" else pure (.str s, budget - 1)
    | .dict members =>
      if 4096 < members.length then throw "catalog.data"
      else do
        let (ms, budget) ← plainMembers members depth (budget - 1)
        pure (.dict ms, budget)
    | .proxy members =>
      if 4096 < members.length then throw "catalog.data"
      else do
        let (ms, budget) ← plainMembers members depth (budget - 1)
        pure (.dict ms, budget)
    | .list items =>
      if 4096 < items.length then throw "catalog.size"
      else do
        let (vs, budget) ← plainItems items depth (budget - 1)
        pure (.list vs, budget)
    | .tuple items =>
      if 4096 < items.length then throw "catalog.size"
      else do
        let (vs, budget) ← plainItems items depth (budget - 1)
        pure (.list vs, budget)
    | .record _ _ => throw "catalog.data"
    | .other => throw "catalog.data"

def plainItems : List Py → ℕ → ℕ → Except String (List Py × ℕ)
  | [], _, budget => pure ([], budget)
  | v :: vs, depth, budget => do
    let (v, budget) ← plain v (depth + 1) budget
    let (vs, budget) ← plainItems vs depth budget
    pure (v :: vs, budget)

def plainMembers : List (Text × Py) → ℕ → ℕ → Except String (List (Text × Py) × ℕ)
  | [], _, budget => pure ([], budget)
  | (k, v) :: ms, depth, budget => do
    let (v, budget) ← plain v (depth + 1) budget
    let (ms, budget) ← plainMembers ms depth budget
    pure ((k, v) :: ms, budget)

end

/-- What is kept of an item: its data in the fixture, and its metadata. -/
structure Row where
  identifier : Text
  source : Text
  provenance : Text
  fingerprint : Text
  data : Py

/-- `value == identifier`. -/
def isText (value : Option Py) (identifier : Text) : Bool :=
  match value with
  | some (.str s) => s = identifier
  | _ => false

/-- What is done with one item, given the identifiers of those before it. -/
def readItem (h : Host) (seen : List Text) (item : Option Item) : Except String Row :=
  match item with
  | some ⟨.str identifier, .str source, .str provenance, data⟩ =>
    if !isId (String.ofList identifier) || source ∉ sources.map Prod.fst || strip provenance = [] ||
        512 < provenance.length || identifier ∈ seen then
      throw "catalog.entry"
    else do
      let (data, _) ← plain data 0 4096
      match data with
      | .dict ms =>
        if !isText (get ms "id".toList) identifier then throw "catalog.entry"
        else
          match h.dumps (.dict (ordered [("data".toList, .dict ms), ("source".toList, .str source),
              ("provenance".toList, .str provenance)])) with
          | none => throw "catalog.data"
          | some encoded =>
            if 16384 < encoded.length then throw "catalog.size"
            else pure ⟨identifier, source, provenance, h.sha256 encoded, .dict ms⟩
      | _ => throw "catalog.entry"
  | _ => throw "catalog.entry"

/-- The loop over the items. -/
def readItems (h : Host) : List (Option Item) → List Row → Except String (List Row)
  | [], rows => pure rows
  | item :: items, rows => do
    let row ← readItem h (rows.map Row.identifier) item
    readItems h items (rows ++ [row])

/-- The fixture that the items are discovered from again. -/
def fixtureOf (rows : List Row) : Py :=
  .dict (ordered (("version".toList, .int 1) :: ("state".toList, .dict []) :: (sources.map Prod.fst).map fun source =>
    (source, .list ((rows.filter fun row => row.source = source).map Row.data))))

/-- `CatalogEntry`. -/
structure Entry where
  identifier : Text
  source : Text
  provenance : Text
  fingerprint : Text
  data : Py
  reviewed : Bool

/-- The entry of an item that was discovered, with the metadata of its identifier. -/
def entryOf (rows : List Row) (item : Found) : Except String Entry :=
  match rows.find? fun row => row.identifier = item.identifier with
  | some row => pure ⟨item.identifier, item.source, row.provenance, row.fingerprint, item.data, false⟩
  | none => throw "KeyError"

/-- `_entries`. -/
def entriesOf (h : Host) (inventory : Given) : Except String (List Entry) :=
  match inventory with
  | .other => throw "catalog.inventory"
  | .inventory capabilities =>
    if 256 < capabilities.length then throw "catalog.inventory"
    else do
      let rows ← readItems h capabilities []
      match discover (fixtureOf rows) with
      | .error _ => throw "catalog.inventory"
      | .ok frozen => frozen.capabilities.mapM (entryOf rows)

/-! ## The registry -/

/-- `CatalogSnapshot`. -/
structure Snapshot where
  version : ℤ
  entries : List Entry

/-- `CatalogDiff`. -/
structure Diff where
  added : List Text
  changed : List Text
  removed : List Text
  unchanged : List Text

/-- `CatalogCandidate`. -/
structure Candidate where
  baseVersion : ℤ
  snapshot : Snapshot
  diff : Diff

/-- `CatalogRegistry`. A candidate is known by how many were made before it. -/
structure Registry where
  current : Snapshot
  pending : Option (ℕ × Candidate)
  made : ℕ

/-- `CatalogRegistry.__init__`. -/
def Registry.fresh : Registry := ⟨⟨1, []⟩, none, 0⟩

/-- `{entry.identifier: entry for entry in entries}[key]`. -/
def lookup (entries : List Entry) (key : Text) : Option Entry := entries.reverse.find? fun e => e.identifier = key

/-- The keys of that dict. -/
def keys (entries : List Entry) : List Text := (entries.map Entry.identifier).dedup

/-- `sorted` of strings. -/
def sorted (texts : List Text) : List Text := texts.insertionSort (· ≤ ·)

/-- `previous[key].fingerprint != incoming[key].fingerprint`, of a key of both. -/
def isChanged (previous incoming : List Entry) (key : Text) : Bool :=
  (lookup previous key).map Entry.fingerprint ≠ (lookup incoming key).map Entry.fingerprint

/-- The difference of the current snapshot and what is proposed. -/
def diffOf (previous incoming : List Entry) : Diff :=
  let common := (keys incoming).filter fun key => key ∈ keys previous
  let changed := sorted (common.filter (isChanged previous incoming))
  { added := sorted ((keys incoming).filter fun key => key ∉ keys previous)
    changed := changed
    removed := sorted ((keys previous).filter fun key => key ∉ keys incoming)
    unchanged := sorted (common.filter fun key => key ∉ changed) }

/-- The candidate that is made of the entries of an inventory. -/
def candidateOf (current : Snapshot) (entries : List Entry) : Candidate :=
  let diff := diffOf current.entries entries
  let revised := !(diff.added.isEmpty && diff.changed.isEmpty && diff.removed.isEmpty)
  { baseVersion := current.version
    snapshot := ⟨current.version + if revised then 1 else 0, entries.map fun e =>
      if e.identifier ∈ diff.unchanged then (lookup current.entries e.identifier).getD e else e⟩
    diff := diff }

/-- `_require_version`. -/
def Registry.requireVersion (r : Registry) (version : Py) : Except String Unit :=
  match version with
  | .int v => if v = r.current.version then pure () else throw "catalog.stale"
  | _ => throw "catalog.stale"

/-- `CatalogRegistry.propose`, with the candidate that is returned. -/
def Registry.propose (h : Host) (r : Registry) (inventory : Given) (expectedVersion : Py) :
    Except String (Registry × ℕ × Candidate) := do
  let entries ← entriesOf h inventory
  r.requireVersion expectedVersion
  let candidate := candidateOf r.current entries
  pure ({ r with pending := some (r.made, candidate), made := r.made + 1 }, r.made, candidate)

/-- A string. -/
def textOf : Py → Option Text
  | .str s => some s
  | _ => none

/-- `reviewed_ids`, if it is a tuple of different strings. -/
def reviewOf (reviewedIds : Py) : Option (List Text) :=
  match reviewedIds with
  | .tuple items => (items.mapM textOf).bind fun ids => if ids.Nodup then some ids else none
  | _ => none

/-- What is published of a candidate. -/
def published (c : Candidate) : Snapshot :=
  ⟨c.snapshot.version, c.snapshot.entries.map fun e =>
    if e.identifier ∈ c.diff.added ++ c.diff.changed then { e with reviewed := true } else e⟩

/-- `CatalogRegistry.publish`, of a candidate that was proposed or of anything else. -/
def Registry.publish (r : Registry) (candidate : Option ℕ) (reviewedIds : Py) : Except String (Registry × Snapshot) :=
  match reviewOf reviewedIds with
  | none => throw "catalog.review"
  | some ids =>
    match r.pending with
    | none => throw "catalog.candidate"
    | some (k, c) =>
      if candidate ≠ some k || c.baseVersion ≠ r.current.version then throw "catalog.candidate"
      else if !(ids.all (fun id => id ∈ c.diff.added ++ c.diff.changed) &&
          (c.diff.added ++ c.diff.changed).all fun id => id ∈ ids) then
        throw "catalog.review"
      else pure ({ r with current := published c, pending := none }, published c)

/-! ## Runs -/

/-- A call. -/
inductive Call where
  | propose (inventory : Given) (expectedVersion : Py)
  | publish (candidate : Option ℕ) (reviewedIds : Py)

/-- What a call returns. -/
inductive Answer where
  | proposed (ref : ℕ) (candidate : Candidate)
  | published (snapshot : Snapshot)
  | raised (code : String)

/-- The registry after a call, and what the call returns. -/
def Registry.call (h : Host) (r : Registry) : Call → Registry × Answer
  | .propose inventory expectedVersion =>
    match r.propose h inventory expectedVersion with
    | .ok (r', ref, candidate) => (r', .proposed ref candidate)
    | .error code => (r, .raised code)
  | .publish candidate reviewedIds =>
    match r.publish candidate reviewedIds with
    | .ok (r', snapshot) => (r', .published snapshot)
    | .error code => (r, .raised code)

/-- The registry after `n` calls. -/
abbrev after (h : Host) (calls : ℕ → Call) : ℕ → Registry := Durable.Calls.after (Registry.call h) .fresh calls

/-- What the call after `n` others returns. -/
abbrev answer (h : Host) (calls : ℕ → Call) : ℕ → Answer := Durable.Calls.answer (Registry.call h) .fresh calls

end Catalog

end Arhugula
