import Mathlib.Data.List.Sort
import Arhugula.Spec.Contracts
import Arhugula.Spec.Strings

/-!
# The codec of the wire records (`runtime/contracts.py`, `schemas/contracts-v1.json`)

`decode` makes a record of a payload, `encode` makes a payload of a record, `loads` reads a text. All three work on
Python values: a payload may be any of them, and so may the fields of a record that was built by hand.

A dict is kept as its members in the order of their keys; the order in which they were inserted is not observed. A
`$ref` of the schema is the definition that it names. What parses a JSON text is a parameter.
-/

namespace Arhugula

namespace Codec

open Strings

/-! ## Values -/

/-- The kinds of records, in the order of `_TYPES`. -/
inductive Kind where
  | command | error | result | event | interaction | voiceObservation | capability | policy | profile | provider
  deriving DecidableEq

/-- A Python value: one of JSON, a tuple, a `MappingProxyType`, a record, or anything else, such as a float that is
not finite or a dict with another key than a string. -/
inductive Py where
  | none
  | bool (b : Bool)
  | int (i : ℤ)
  | float (q : ℚ)
  | str (s : Text)
  | list (items : List Py)
  | dict (members : List (Text × Py))
  | tuple (items : List Py)
  | proxy (members : List (Text × Py))
  | record (kind : Kind) (fields : List (Text × Py))
  | other

/-- `value[key]`. -/
def get {β : Type} (members : List (Text × β)) (key : Text) : Option β := (members.find? fun m => m.1 = key).map Prod.snd

/-- The members of a dict that was filled in any order. -/
def ordered (members : List (Text × Py)) : List (Text × Py) := members.insertionSort fun a b => a.1 ≤ b.1

/-- `kind`, of a record class. -/
def Kind.name : Kind → Text
  | command => "command".toList
  | error => "error".toList
  | result => "result".toList
  | event => "event".toList
  | interaction => "interaction".toList
  | voiceObservation => "voice-observation".toList
  | capability => "capability".toList
  | policy => "policy".toList
  | profile => "profile".toList
  | provider => "provider".toList

/-- `_TYPES`. -/
def kinds : List Kind :=
  [.command, .error, .result, .event, .interaction, .voiceObservation, .capability, .policy, .profile, .provider]

/-- `_TYPES[name]`. -/
def Kind.ofName (name : Text) : Option Kind := kinds.find? fun k => k.name = name

/-- The names of the fields of a record class, in order. -/
def Kind.fields : Kind → List String
  | command => ["version", "command_id", "correlation_id", "capability_id", "catalog_version", "requested_at_ms",
      "arguments", "context"]
  | error => ["version", "code", "message", "retryable"]
  | result => ["version", "result_id", "command_id", "correlation_id", "status", "output", "error"]
  | event => ["version", "event_id", "command_id", "correlation_id", "event_type", "timestamp_ms", "status",
      "capability_id", "catalog_version", "policy_revision", "duration_ms", "context", "details"]
  | interaction => ["version", "event_id", "interaction_id", "correlation_id", "timestamp_ms", "context", "phase",
      "details"]
  | voiceObservation => ["version", "event_id", "session_id", "activation_id", "correlation_id", "timestamp_ms",
      "context", "phase", "status", "code"]
  | capability => ["version", "capability_id", "catalog_version", "enabled", "risk", "arguments", "provenance"]
  | policy => ["version", "policy_id", "revision", "enabled", "allowed_capabilities", "confirmation_required"]
  | profile => ["version", "profile_id", "policy_id", "enabled", "voice_enabled"]
  | provider => ["version", "provider_id", "placement", "model_version", "enabled", "health", "capabilities"]

/-- The names of the fields. -/
def Kind.names (k : Kind) : List Text := k.fields.map String.toList

/-- The members of a dict: their keys differ, and stand in order. -/
def Sorted (members : List (Text × Py)) : Prop := members.Pairwise fun a b => a.1 < b.1

mutual

/-- The dicts in a value are dicts, and its records have the fields of their class. -/
def Wf : Py → Prop
  | .list items => WfItems items
  | .tuple items => WfItems items
  | .dict members => Sorted members ∧ WfMembers members
  | .proxy members => Sorted members ∧ WfMembers members
  | .record kind fields => fields.map Prod.fst = kind.names ∧ WfMembers fields
  | _ => True

def WfItems : List Py → Prop
  | [] => True
  | v :: vs => Wf v ∧ WfItems vs

def WfMembers : List (Text × Py) → Prop
  | [] => True
  | (_, v) :: ms => Wf v ∧ WfMembers ms

end

/-- **A Python value.** -/
structure Value where
  val : Py
  wf : Wf val

/-! ## Schemas -/

/-- A rule of the schema, by its type. `anything` and `nothing` are what `additionalProperties` may be. -/
inductive Schema where
  | anything
  | nothing
  | anyOf (alternatives : List Schema)
  | null
  | boolean
  | string (const : Option String) (enum : Option (List String)) (minLength : ℕ) (isPattern : Bool)
  | integer (const : Option ℤ) (minimum : Option ℤ)
  | number (minimum : Option ℤ)
  | array (items : Schema) (isUnique : Bool)
  | object (properties : List (String × Schema)) (required : List String) (propertyNames : Schema)
      (additionalProperties : Schema)

mutual

/-- `_json`. -/
def isJson : Py → Bool
  | .none | .bool _ | .int _ | .float _ | .str _ => true
  | .list items => isJsonItems items
  | .dict members => isJsonMembers members
  | .tuple _ | .proxy _ | .record _ _ | .other => false

def isJsonItems : List Py → Bool
  | [] => true
  | v :: vs => isJson v && isJsonItems vs

def isJsonMembers : List (Text × Py) → Bool
  | [] => true
  | (_, v) :: ms => isJson v && isJsonMembers ms

end

mutual

/-- `json.dumps(a, sort_keys=True) == json.dumps(b, sort_keys=True)`, of JSON values. -/
def sameText : Py → Py → Bool
  | .none, .none => true
  | .bool a, .bool b => a = b
  | .int a, .int b => a = b
  | .float a, .float b => a = b
  | .str a, .str b => a = b
  | .list a, .list b => sameItems a b
  | .dict a, .dict b => sameMembers a b
  | _, _ => false

def sameItems : List Py → List Py → Bool
  | [], [] => true
  | a :: as, b :: bs => sameText a b && sameItems as bs
  | _, _ => false

def sameMembers : List (Text × Py) → List (Text × Py) → Bool
  | [], [] => true
  | (k, a) :: as, (l, b) :: bs => k = l && sameText a b && sameMembers as bs
  | _, _ => false

end

/-- No two items have one text. -/
def areUnique : List Py → Bool
  | [] => true
  | v :: vs => !vs.any (sameText v) && areUnique vs

mutual

/-- `_validate`. -/
def validate : Schema → Py → Bool
  | .anything, _ => true
  | .nothing, _ => false
  | .anyOf alternatives, v => validateAny alternatives v
  | .null, v => match v with
    | .none => true
    | _ => false
  | .boolean, v => match v with
    | .bool _ => true
    | _ => false
  | .string const enum minLength isPattern, v => match v with
    | .str s => const.all (·.toList = s) && enum.all (fun l => l.any (·.toList = s)) && minLength ≤ s.length &&
        (!isPattern || isId (String.ofList s))
    | _ => false
  | .integer const minimum, v => match v with
    | .int i => const.all (· = i) && minimum.all (· ≤ i)
    | _ => false
  | .number minimum, v => match v with
    | .int i => minimum.all (· ≤ i)
    | .float q => minimum.all fun m => (m : ℚ) ≤ q
    | _ => false
  | .array items isUnique, v => match v with
    | .list vs => vs.all (validate items) && (!isUnique || areUnique vs)
    | _ => false
  | .object properties required names additional, v => match v with
    | .dict ms => required.all (fun n => (get ms n.toList).isSome) &&
        ms.all fun m => validate names (.str m.1) &&
          (match validateProperty properties m.1 m.2 with
          | some valid => valid
          | none => validate additional m.2)
    | _ => false

/-- One of the alternatives. -/
def validateAny : List Schema → Py → Bool
  | [], _ => false
  | s :: ss, v => validate s v || validateAny ss v

/-- The rule of a property, if it has one. -/
def validateProperty : List (String × Schema) → Text → Py → Option Bool
  | [], _, _ => none
  | (n, s) :: rest, key, v => if n.toList = key then some (validate s v) else validateProperty rest key v

end

namespace Schema

/-- `$defs/id`. -/
def id : Schema := .string none none 0 true

/-- A string that is not empty. -/
def text : Schema := .string none none 1 false

/-- One of some strings. -/
def oneOf (values : List String) : Schema := .string none (some values) 0 false

/-- `$defs/bag`. -/
def bag : Schema := .object [] [] .anything .anything

/-- An object of some properties, all of them required. -/
def closed (properties : List (String × Schema)) : Schema :=
  .object properties (properties.map Prod.fst) .anything .nothing

/-- `$defs/context`. -/
def context : Schema := closed [
  ("session_id", id), ("profile_id", id), ("lane_id", .anyOf [id, .null]), ("agent_id", .anyOf [id, .null]),
  ("source", oneOf ["voice", "panel", "keyboard", "terminal", "mcp", "test", "runtime"]),
  ("provider_id", .anyOf [id, .null]), ("model_version", .anyOf [text, .null]), ("provenance", text),
  ("sensitivity", oneOf ["public", "private", "secret"])]

/-- The two properties that every record has. -/
def headed (kind : String) (properties : List (String × Schema)) : Schema :=
  closed (("kind", .string (some kind) none 0 false) :: ("version", .integer (some 1) none) :: properties)

/-- An integer that is at least `m`. -/
def atLeast (m : ℤ) : Schema := .integer none (some m)

/-- Different ids. -/
def idList : Schema := .array id true

/-- `$defs/error`. -/
def error : Schema := headed "error" [("code", id), ("message", text), ("retryable", .boolean)]

end Schema

open Schema in
/-- `_DEFS[kind]`. -/
def Kind.schema : Kind → Schema
  | command => headed "command" [("command_id", id), ("correlation_id", id), ("capability_id", id),
      ("catalog_version", atLeast 1), ("requested_at_ms", atLeast 0), ("arguments", bag), ("context", context)]
  | error => Schema.error
  | result => headed "result" [("result_id", id), ("command_id", id), ("correlation_id", id),
      ("status", oneOf ["success", "blocked", "failed", "canceled", "uncertain"]), ("output", bag),
      ("error", .anyOf [Schema.error, .null])]
  | event => headed "event" [("event_id", id), ("command_id", id), ("correlation_id", id),
      ("event_type", oneOf ["command.started", "command.finished"]), ("timestamp_ms", atLeast 0),
      ("status", oneOf ["success", "blocked", "failed", "canceled", "uncertain", "pending"]), ("capability_id", id),
      ("catalog_version", atLeast 1), ("policy_revision", atLeast 1), ("duration_ms", .number (some 0)),
      ("context", context), ("details", bag)]
  | interaction => headed "interaction" [("event_id", id), ("interaction_id", id), ("correlation_id", id),
      ("timestamp_ms", atLeast 0), ("context", context),
      ("phase", oneOf ["voice.preview", "voice.confirmation", "voice.clarification", "voice.blocked"]), ("details", bag)]
  | voiceObservation => headed "voice-observation" [("event_id", id), ("session_id", id), ("activation_id", id),
      ("correlation_id", id), ("timestamp_ms", atLeast 0), ("context", context),
      ("phase", oneOf ["capture.started", "capture.stopped", "capture.canceled", "transcription.started",
        "transcription.finished", "owner.faulted"]),
      ("status", oneOf ["recording", "processing", "idle", "success", "failed", "canceled", "uncertain"]),
      ("code", oneOf ["capture.started", "capture.silence", "capture.max-duration", "capture.initial-silence",
        "capture.invalid-frame", "capture.device-error", "capture.canceled", "transcription.started",
        "transcription.ok", "transcription.failed", "transcription.canceled", "transcription.cleanup-unproven",
        "owner.cleanup-unproven", "journal.unavailable", "context.stale"])]
  | capability => headed "capability" [("capability_id", id), ("catalog_version", atLeast 1), ("enabled", .boolean),
      ("risk", oneOf ["safe", "confirm", "blocked"]),
      ("arguments", .object [] [] id (oneOf ["string", "integer", "number", "boolean"])), ("provenance", text)]
  | policy => headed "policy" [("policy_id", id), ("revision", atLeast 1), ("enabled", .boolean),
      ("allowed_capabilities", idList), ("confirmation_required", idList)]
  | profile => headed "profile" [("profile_id", id), ("policy_id", id), ("enabled", .boolean), ("voice_enabled", .boolean)]
  | provider => headed "provider" [("provider_id", id), ("placement", oneOf ["vm", "host"]), ("model_version", text),
      ("enabled", .boolean), ("health", oneOf ["healthy", "degraded", "unavailable"]), ("capabilities", idList)]

/-! ## Freezing and thawing -/

mutual

/-- `_freeze`. -/
def freeze : Py → Py
  | .dict members => .proxy (freezeMembers members)
  | .list items => .tuple (freezeItems items)
  | v => v

def freezeItems : List Py → List Py
  | [] => []
  | v :: vs => freeze v :: freezeItems vs

def freezeMembers : List (Text × Py) → List (Text × Py)
  | [] => []
  | (k, v) :: ms => (k, freeze v) :: freezeMembers ms

end

mutual

/-- `_thaw`. -/
def thaw : Py → Py
  | .record kind fields => .dict (ordered (("kind".toList, .str kind.name) :: thawMembers fields))
  | .dict members => .dict (thawMembers members)
  | .proxy members => .dict (thawMembers members)
  | .list items => .list (thawItems items)
  | .tuple items => .list (thawItems items)
  | v => v

def thawItems : List Py → List Py
  | [] => []
  | v :: vs => thaw v :: thawItems vs

def thawMembers : List (Text × Py) → List (Text × Py)
  | [] => []
  | (k, v) :: ms => (k, thaw v) :: thawMembers ms

end

/-! ## Records -/

/-- The value of a key is one of some strings. -/
def isOneOf (payload : List (Text × Py)) (key : String) (values : List String) : Bool :=
  match get payload key.toList with
  | some (.str s) => values.any (·.toList = s)
  | _ => false

/-- The value of a key is `None`. -/
def isNone (payload : List (Text × Py)) (key : String) : Bool :=
  match get payload key.toList with
  | some .none => true
  | _ => false

/-- The statuses of a phase of an observation. -/
def statuses : List (String × List String) :=
  [("capture.started", ["recording"]), ("capture.stopped", ["idle", "processing", "failed"]),
    ("capture.canceled", ["canceled", "failed"]), ("transcription.started", ["processing"]),
    ("transcription.finished", ["success", "failed", "canceled", "uncertain"]), ("owner.faulted", ["uncertain"])]

/-- The rules across the fields of a payload. -/
def agrees (kind : Kind) (payload : List (Text × Py)) : Bool :=
  match kind with
  | .result => !(isOneOf payload "status" ["blocked", "failed", "uncertain"] && isNone payload "error") &&
      !(isOneOf payload "status" ["success"] && !isNone payload "error")
  | .event => isOneOf payload "event_type" ["command.started"] == isOneOf payload "status" ["pending"]
  | .voiceObservation => statuses.any fun s => isOneOf payload "phase" [s.1] && isOneOf payload "status" s.2
  | _ => true

/-- `_TYPES[kind](**values)`: the values are those of the fields. -/
def construct (kind : Kind) (values : List (Text × Py)) : Option Py :=
  if values.all (fun v => kind.names.contains v.1) then
    (kind.names.mapM fun n => (get values n).map fun v => (n, v)).map (.record kind)
  else none

/-- `decode`, given how an embedded record is decoded. What it raises is a `ContractError`. -/
def decodeWith (embedded : Py → Option Py) (payload : Py) : Option Py :=
  if !isJson payload then none
  else
    match payload with
    | .dict members =>
      match get members "kind".toList with
      | some (.str name) =>
        match Kind.ofName name with
        | none => none
        | some kind =>
          if !validate kind.schema payload || !agrees kind members then none
          else
            let values := (members.filter fun m => m.1 ≠ "kind".toList).map fun m => (m.1, freeze m.2)
            if kind = .result && !isNone members "error" then
              match (get members "error".toList).bind embedded with
              | none => none
              | some error => construct kind (values.map fun v => if v.1 = "error".toList then (v.1, error) else v)
            else construct kind values
      | _ => none
    | _ => none

/-- `decode`. A record that is embedded is an error, which embeds none. -/
def decode : Py → Option Py := decodeWith (decodeWith fun _ => none)

/-- `encode`. -/
def encode : Py → Option Py
  | .record kind fields => (decode (thaw (.record kind fields))).map fun _ => thaw (.record kind fields)
  | _ => none

/-! ## Texts -/

/-- What is parsed of a JSON text: the members of an object in the order of the text, and the constants that are not
finite. -/
inductive Doc where
  | null
  | bool (b : Bool)
  | int (i : ℤ)
  | float (q : ℚ)
  | constant
  | str (s : Text)
  | arr (items : List Doc)
  | obj (members : List (Text × Doc))

mutual

/-- `pairs` and `invalid_constant`, at every object and constant of a text. -/
def build : Doc → Option Py
  | .null => some .none
  | .bool b => some (.bool b)
  | .int i => some (.int i)
  | .float q => some (.float q)
  | .constant => none
  | .str s => some (.str s)
  | .arr items => (buildItems items).map .list
  | .obj members => (buildMembers members).bind fun ms =>
      if (ms.map Prod.fst).Nodup then some (.dict (ordered ms)) else none

def buildItems : List Doc → Option (List Py)
  | [] => some []
  | d :: ds => (build d).bind fun v => (buildItems ds).map (v :: ·)

def buildMembers : List (Text × Doc) → Option (List (Text × Py))
  | [] => some []
  | (k, d) :: ds => (build d).bind fun v => (buildMembers ds).map ((k, v) :: ·)

end

/-- `loads`, given what parses a text. -/
def loads (parse : Text → Option Doc) (text : Text) : Option Py := (parse text).bind fun d => (build d).bind decode

end Codec

end Arhugula
