import Mathlib.Data.Rat.Defs
import Mathlib.Tactic.Common

/-!
# Wire records (`runtime/contracts.py`, `schemas/contracts-v1.json`)

The records of the control plane, each with the checks that `decode` makes of it
and that its Lean type does not already make. `_snapshot(value)` is
`decode(encode(value))`: a record that passes its checks comes back unchanged,
any other raises `ContractError`.

A JSON object is kept as its list of members. The order of members is not
observed: the wire text of a record has sorted keys.
-/

namespace Arhugula

/-- A JSON value. Python's `int` and `float` are different types here too. -/
inductive Json where
  | null
  | bool (b : Bool)
  | int (i : ℤ)
  | float (q : ℚ)
  | str (s : String)
  | arr (items : List Json)
  | obj (members : List (String × Json))

namespace Json

mutual

/-- Equality of JSON values. -/
def decEq : (a b : Json) → Decidable (a = b)
  | .null, .null => isTrue rfl
  | .bool a, .bool b => if h : a = b then isTrue (h ▸ rfl) else isFalse (by simpa using h)
  | .int a, .int b => if h : a = b then isTrue (h ▸ rfl) else isFalse (by simpa using h)
  | .float a, .float b => if h : a = b then isTrue (h ▸ rfl) else isFalse (by simpa using h)
  | .str a, .str b => if h : a = b then isTrue (h ▸ rfl) else isFalse (by simpa using h)
  | .arr a, .arr b =>
    match decEqItems a b with
    | isTrue h => isTrue (h ▸ rfl)
    | isFalse h => isFalse (by simpa using h)
  | .obj a, .obj b =>
    match decEqMembers a b with
    | isTrue h => isTrue (h ▸ rfl)
    | isFalse h => isFalse (by simpa using h)
  | .null, .bool _ | .null, .int _ | .null, .float _ | .null, .str _ | .null, .arr _
  | .null, .obj _ | .bool _, .null | .bool _, .int _ | .bool _, .float _ | .bool _, .str _
  | .bool _, .arr _ | .bool _, .obj _ | .int _, .null | .int _, .bool _ | .int _, .float _
  | .int _, .str _ | .int _, .arr _ | .int _, .obj _ | .float _, .null | .float _, .bool _
  | .float _, .int _ | .float _, .str _ | .float _, .arr _ | .float _, .obj _ | .str _, .null
  | .str _, .bool _ | .str _, .int _ | .str _, .float _ | .str _, .arr _ | .str _, .obj _
  | .arr _, .null | .arr _, .bool _ | .arr _, .int _ | .arr _, .float _ | .arr _, .str _
  | .arr _, .obj _ | .obj _, .null | .obj _, .bool _ | .obj _, .int _ | .obj _, .float _
  | .obj _, .str _ | .obj _, .arr _ => isFalse (by simp)

/-- Equality of array items. -/
def decEqItems : (a b : List Json) → Decidable (a = b)
  | [], [] => isTrue rfl
  | [], _ :: _ | _ :: _, [] => isFalse (by simp)
  | x :: xs, y :: ys =>
    match decEq x y, decEqItems xs ys with
    | isTrue h, isTrue h' => isTrue (h ▸ h' ▸ rfl)
    | isFalse h, _ => isFalse fun e => h (List.cons.inj e).1
    | _, isFalse h => isFalse fun e => h (List.cons.inj e).2

/-- Equality of object members. -/
def decEqMembers : (a b : List (String × Json)) → Decidable (a = b)
  | [], [] => isTrue rfl
  | [], _ :: _ | _ :: _, [] => isFalse (by simp)
  | (k, x) :: xs, (l, y) :: ys =>
    if hk : k = l then
      match decEq x y, decEqMembers xs ys with
      | isTrue h, isTrue h' => isTrue (hk ▸ h ▸ h' ▸ rfl)
      | isFalse h, _ => isFalse fun e => h (Prod.mk.inj (List.cons.inj e).1).2
      | _, isFalse h => isFalse fun e => h (List.cons.inj e).2
    else isFalse fun e => hk (Prod.mk.inj (List.cons.inj e).1).1

end

instance : DecidableEq Json := decEq

end Json

/-- The steps of a computation that succeeds. -/
theorem bind_ok {ε α β : Type} {x : Except ε α} {f : α → Except ε β} {b : β} (hb : (x >>= f) = .ok b) :
    ∃ a, x = .ok a ∧ f a = .ok b := by
  cases x with
  | error e => cases hb
  | ok a => exact ⟨a, rfl, hb⟩

/-- A Python mapping with string keys, as its items. -/
abbrev Mapping (β : Type) := List (String × β)

/-- `mapping[key]`. -/
def Mapping.get {β : Type} (m : Mapping β) (key : String) : Option β :=
  (m.find? fun item => item.1 = key).map Prod.snd

theorem Mapping.get_mem {β : Type} {m : Mapping β} {key : String} {v : β}
    (h : m.get key = some v) : (key, v) ∈ m := by
  simp only [Mapping.get, Option.map_eq_some_iff] at h
  obtain ⟨⟨k, v'⟩, hf, rfl⟩ := h
  have hk : k = key := by simpa using List.find?_some hf
  exact hk ▸ List.mem_of_find?_eq_some hf

/-- `a.keys() == b.keys()`. -/
def Mapping.sameKeys {β γ : Type} (a : Mapping β) (b : Mapping γ) : Bool :=
  a.all (fun x => b.any fun y => y.1 = x.1) && b.all (fun y => a.any fun x => x.1 = y.1)

theorem Mapping.sameKeys_iff {β γ : Type} {a : Mapping β} {b : Mapping γ}
    (h : a.sameKeys b = true) (name : String) : (∃ v, (name, v) ∈ a) ↔ ∃ v, (name, v) ∈ b := by
  simp only [Mapping.sameKeys, Bool.and_eq_true, List.all_eq_true, List.any_eq_true,
    decide_eq_true_eq] at h
  constructor
  · rintro ⟨v, hv⟩
    obtain ⟨⟨k, u⟩, hy, hn⟩ := h.1 _ hv
    have hk : k = name := hn
    exact ⟨u, hk ▸ hy⟩
  · rintro ⟨v, hv⟩
    obtain ⟨⟨k, u⟩, hy, hn⟩ := h.2 _ hv
    have hk : k = name := hn
    exact ⟨u, hk ▸ hy⟩

/-- An ASCII letter or digit. -/
def isAlnum (c : Char) : Bool :=
  ('0' ≤ c && c ≤ '9') || ('A' ≤ c && c ≤ 'Z') || ('a' ≤ c && c ≤ 'z')

/-- `$defs/id`: `^[A-Za-z0-9][A-Za-z0-9_.:-]{0,127}$`. -/
def isId (s : String) : Bool :=
  match s.toList with
  | [] => false
  | c :: rest => isAlnum c && decide (rest.length ≤ 127) &&
      rest.all fun d => isAlnum d || d = '_' || d = '.' || d = ':' || d = '-'

/-- Where a command or an observation comes from. -/
inductive Source where
  | voice | panel | keyboard | terminal | mcp | test | runtime
  deriving DecidableEq, Repr

/-- How much of a record may be shown. -/
inductive Sensitivity where
  | «public» | «private» | secret
  deriving DecidableEq, Repr

/-- `$defs/context`. -/
structure Context where
  sessionId : String
  profileId : String
  laneId : Option String
  agentId : Option String
  source : Source
  providerId : Option String
  modelVersion : Option String
  provenance : String
  sensitivity : Sensitivity
  deriving DecidableEq

def Context.wellFormed (c : Context) : Bool :=
  isId c.sessionId && isId c.profileId && c.laneId.all isId && c.agentId.all isId &&
    c.providerId.all isId && c.modelVersion.all (fun v => v ≠ "") && decide (c.provenance ≠ "")

/-- `Command`. -/
structure Command where
  commandId : String
  correlationId : String
  capabilityId : String
  catalogVersion : ℤ
  requestedAtMs : ℤ
  arguments : Mapping Json
  context : Context
  deriving DecidableEq

def Command.wellFormed (c : Command) : Bool :=
  isId c.commandId && isId c.correlationId && isId c.capabilityId &&
    decide (1 ≤ c.catalogVersion) && decide (0 ≤ c.requestedAtMs) && c.context.wellFormed

/-- `Error`. -/
structure Error where
  code : String
  message : String
  retryable : Bool
  deriving DecidableEq

def Error.wellFormed (e : Error) : Bool := isId e.code && decide (e.message ≠ "")

/-- The status of a result. -/
inductive Status where
  | success | blocked | failed | canceled | uncertain
  deriving DecidableEq, Repr

/-- The status names an executor may report. -/
def Status.ofOutcome : String → Option Status
  | "success" => some .success
  | "failed" => some .failed
  | "canceled" => some .canceled
  | "uncertain" => some .uncertain
  | _ => none

/-- `Result`. -/
structure Result where
  resultId : String
  commandId : String
  correlationId : String
  status : Status
  output : Mapping Json
  error : Option Error
  deriving DecidableEq

/-- The checks of a result: an unsuccessful one needs an error, a success has none. -/
def Result.wellFormed (r : Result) : Bool :=
  isId r.resultId && isId r.commandId && isId r.correlationId && r.error.all Error.wellFormed &&
    match r.status with
    | .blocked | .failed | .uncertain => r.error.isSome
    | .success => r.error.isNone
    | .canceled => true

/-- The type of an execution event. -/
inductive EventType where
  | started | finished
  deriving DecidableEq, Repr

/-- `Event`. The status is `none` for `"pending"`. -/
structure Event where
  eventId : String
  commandId : String
  correlationId : String
  eventType : EventType
  timestampMs : ℤ
  status : Option Status
  capabilityId : String
  catalogVersion : ℤ
  policyRevision : ℤ
  durationMs : ℚ
  context : Context
  details : Mapping Json
  deriving DecidableEq

/-- The checks of an event: it is pending exactly when it is a start. -/
def Event.wellFormed (e : Event) : Bool :=
  isId e.eventId && isId e.commandId && isId e.correlationId && decide (0 ≤ e.timestampMs) &&
    isId e.capabilityId && decide (1 ≤ e.catalogVersion) && decide (1 ≤ e.policyRevision) &&
    decide (0 ≤ e.durationMs) && e.context.wellFormed &&
    (decide (e.eventType = .started) == e.status.isNone)

/-- The phase of a voice interaction. -/
inductive Phase where
  | preview | confirmation | clarification | blocked
  deriving DecidableEq, Repr

/-- `Interaction`. -/
structure Interaction where
  eventId : String
  interactionId : String
  correlationId : String
  timestampMs : ℤ
  context : Context
  phase : Phase
  details : Mapping Json
  deriving DecidableEq

def Interaction.wellFormed (e : Interaction) : Bool :=
  isId e.eventId && isId e.interactionId && isId e.correlationId && decide (0 ≤ e.timestampMs) &&
    e.context.wellFormed

/-- `VoiceObservation`. The control plane reads nothing of it but its identifier. -/
structure VoiceObservation where
  eventId : String
  document : Json
  deriving DecidableEq

/-- The type an argument must have. -/
inductive ArgKind where
  | string | integer | number | boolean
  deriving DecidableEq, Repr

/-- `type(value) in primitive_types[kind]`. A `bool` is no `integer`. -/
def ArgKind.admits : ArgKind → Json → Bool
  | .string, .str _ => true
  | .integer, .int _ => true
  | .number, .int _ => true
  | .number, .float _ => true
  | .boolean, .bool _ => true
  | _, _ => false

/-- The risk of a capability. -/
inductive Risk where
  | safe | confirm | blocked
  deriving DecidableEq, Repr

/-- `Capability`. -/
structure Capability where
  capabilityId : String
  catalogVersion : ℤ
  enabled : Bool
  risk : Risk
  arguments : Mapping ArgKind
  provenance : String
  deriving DecidableEq

def Capability.wellFormed (c : Capability) : Bool :=
  isId c.capabilityId && decide (1 ≤ c.catalogVersion) && c.arguments.all (fun a => isId a.1) &&
    decide (c.provenance ≠ "")

/-- `Policy`. -/
structure Policy where
  policyId : String
  revision : ℤ
  enabled : Bool
  allowedCapabilities : List String
  confirmationRequired : List String
  deriving DecidableEq

/-- `Profile`. -/
structure Profile where
  profileId : String
  policyId : String
  enabled : Bool
  voiceEnabled : Bool
  deriving DecidableEq

/-- Where a provider runs. -/
inductive Placement where
  | vm | host
  deriving DecidableEq, Repr

/-- The health of a provider. -/
inductive Health where
  | healthy | degraded | unavailable
  deriving DecidableEq, Repr

/-- `Provider`. -/
structure Provider where
  providerId : String
  placement : Placement
  modelVersion : String
  enabled : Bool
  health : Health
  capabilities : List String
  deriving DecidableEq

def Provider.wellFormed (p : Provider) : Bool :=
  isId p.providerId && decide (p.modelVersion ≠ "") && p.capabilities.all isId &&
    decide p.capabilities.Nodup

end Arhugula
