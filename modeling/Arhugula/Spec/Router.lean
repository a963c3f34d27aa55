import Mathlib.Data.List.Sort
import Mathlib.Data.Rat.Cast.Order
import Arhugula.Spec.Plane

/-!
# The voice router (`runtime/voice/router.py`)

A `VoiceRouter` turns a transcript into a command for its plane. What it takes from the
Unicode tables, from `difflib` and from `json.dumps` is a parameter (`Text`).

A voice context is given as its items in the order of their keys, so that two contexts
are equal as Python mappings when they are equal here.
-/

namespace Arhugula

namespace Voice

open Reentrant Vm Plane

/-- The text functions of the Python library. -/
structure Text where
  /-- `unicodedata.normalize("NFKC", text).casefold()` -/
  fold : String → String
  /-- `\w` -/
  word : Char → Bool
  /-- `\s`, and what `str.split` splits at -/
  space : Char → Bool
  /-- `SequenceMatcher(None, a, b).ratio()` -/
  ratio : String → String → ℚ
  /-- `json.dumps({"key": key, "context": context}, sort_keys=True, allow_nan=False)`;
  `none` where it raises -/
  dumps : String → Mapping Json → Option String

/-- `normalize` of a text. -/
def Text.normalize (t : Text) (text : String) : String :=
  let spaced := (t.fold text).toList.map fun c => if t.word c || t.space c then c else ' '
  " ".intercalate (((spaced.splitOnP t.space).filter fun w => w ≠ []).map String.ofList)

/-- `VoiceReply`. -/
structure VoiceReply where
  status : String
  code : String
  token : Option String := none
  prompt : Option String := none
  result : Option Result := none
  deriving DecidableEq

def blocked (code : String) : VoiceReply := { status := "blocked", code := code }

/-- The name of a status. -/
def statusText : Status → String
  | .success => "success"
  | .blocked => "blocked"
  | .failed => "failed"
  | .canceled => "canceled"
  | .uncertain => "uncertain"

/-- An answer to a preview. -/
inductive Reply where
  | text (s : String)
  | truth (b : Bool)
  | other
  deriving DecidableEq

/-- `except (ValueError, TypeError)`: the errors of the runtime are all `ValueError`s. -/
def onValueError {α : Type} (p h : VM α) : VM α :=
  p.catching fun e => match e with
    | .contract _ | .confirmation _ | .value _ | .journal _ => h
    | e => .fail e

/-! ## Building the command -/

/-- The context of a command, decoded: exactly the nine fields, each of its type. -/
def decodeContext (m : Mapping Json) : Option Context := do
  let id (key : String) : Option String := do
    match m.get key with
    | some (.str s) => if isId s then some s else none
    | _ => none
  let optional (key : String) (valid : String → Bool) : Option (Option String) := do
    match m.get key with
    | some .null => some none
    | some (.str s) => if valid s then some (some s) else none
    | _ => none
  let keys := ["session_id", "profile_id", "lane_id", "agent_id", "source", "provider_id",
    "model_version", "provenance", "sensitivity"]
  if !(m.all fun item => keys.contains item.1) then none
  let source ← match m.get "source" with
    | some (.str "voice") => some .voice
    | some (.str "panel") => some .panel
    | some (.str "keyboard") => some .keyboard
    | some (.str "terminal") => some .terminal
    | some (.str "mcp") => some .mcp
    | some (.str "test") => some .test
    | some (.str "runtime") => some .runtime
    | _ => none
  let sensitivity ← match m.get "sensitivity" with
    | some (.str "public") => some .«public»
    | some (.str "private") => some .«private»
    | some (.str "secret") => some .secret
    | _ => none
  let provenance ← match m.get "provenance" with
    | some (.str s) => if s ≠ "" then some s else none
    | _ => none
  pure
    { sessionId := ← id "session_id"
      profileId := ← id "profile_id"
      laneId := ← optional "lane_id" isId
      agentId := ← optional "agent_id" isId
      source := source
      providerId := ← optional "provider_id" isId
      modelVersion := ← optional "model_version" fun s => s ≠ ""
      provenance := provenance
      sensitivity := sensitivity }

/-- A callback of the router that should give a text. -/
def askText (r : ℕ) (op : VoiceOp) : VM (Option String) := do
  match ← Prog.ask (.voice r op) with
  | .text s => pure (some s)
  | .raised e => throw e
  | _ => pure none

/-- `int(time.time() * 1000)`. -/
def time (r : ℕ) : VM ℤ := do
  match ← Prog.ask (.voice r .time) with
  | .time t => pure t
  | a => throw a.exc

/-- `_command`. -/
def command (r : ℕ) (action : Action) (state : VoiceState) (version : Option ℤ) : VM Command := do
  let id ← askText r .identifiers
  let correlation ← askText r .correlationIds
  let now ← time r
  let context := ("source", Json.str "voice") :: state.context.filter fun item => item.1 ≠ "source"
  match id, correlation, decodeContext context with
  | some id, some correlation, some context =>
    let c : Command :=
      { commandId := id
        correlationId := correlation
        capabilityId := action.capabilityId
        catalogVersion := version.getD action.catalogVersion
        requestedAtMs := now
        arguments := action.arguments
        context := context }
    if c.wellFormed then pure c else throw (.contract "command")
  | _, _, _ => throw (.contract "command")

/-! ## Candidates -/

/-- A candidate: the action, its score and the catalog version it names. -/
structure Candidate where
  action : Action
  score : ℚ
  version : ℤ

/-- `sorted(candidates, key=lambda value: (-value[1], value[0].capability_id))`. -/
def rank (candidates : List Candidate) : List Candidate :=
  candidates.insertionSort fun a b =>
    b.score < a.score ∨ a.score = b.score ∧ a.action.capabilityId ≤ b.action.capabilityId

/-- The aliases of the action, normalized, contain the text, normalized. -/
def matchesAlias (t : Text) (text : String) (action : Action) : Bool :=
  (action.aliases.map t.normalize).contains (t.normalize text)

/-- The candidates that a list of proposals stands for; `none` when it is not valid. -/
def proposed (actions : List Action) : List (Option Proposal) → List String →
    Option (List Candidate)
  | [], _ => some []
  | none :: _, _ => none
  | some item :: rest, seen =>
    match actions.find? fun a => a.capabilityId = item.capabilityId with
    | none => none
    | some action =>
      if seen.contains item.capabilityId || item.catalogVersion < 1
          || !(0 ≤ item.confidence && item.confidence ≤ 1) then none
      else (proposed actions rest (item.capabilityId :: seen)).map fun l =>
        ⟨action, item.confidence, item.catalogVersion⟩ :: l

/-- `_candidates`. -/
def candidates (t : Text) (r : ℕ) (text : String) : VM (List Candidate) := do
  let router ← Prog.read fun s => s.routers r
  let exact := router.actions.filter (matchesAlias t text)
  if exact ≠ [] then pure (exact.map fun a => ⟨a, 1, a.catalogVersion⟩)
  else if router.hasProposal then
    onException
      (do match ← Prog.ask (.voice r (.proposal text (router.actions.map Action.capabilityId))) with
          | .raised e => throw e
          | .proposals values =>
            if 32 < values.length then throw (.value "invalid candidate list")
            else match proposed router.actions values [] with
              | some l => pure (rank l)
              | none => throw (.value "invalid proposal data")
          | _ => throw (.value "invalid candidate list"))
      (pure [])
  else
    let scored := router.actions.map fun a =>
      let ratios := a.aliases.map fun name => t.ratio (t.normalize text) (t.normalize name)
      (⟨a, ratios.foldl max (ratios.headD 0), a.catalogVersion⟩ : Candidate)
    pure (rank scored)

/-- `score < 0.85`: the float `0.85` is this fraction. -/
def unsure (score : ℚ) : Bool := score < 7656119366529843 / 2 ^ 53

/-- `a - b < 0.15` in floats: the difference is rounded to nearest before it is compared, so
what lies at or below the midpoint under `0.15` is less. -/
def close (a b : ℚ) : Bool := a - b ≤ 10808639105689189 / 2 ^ 56

/-- No candidate, an unsure one, or two that are close. -/
def unclear : List Candidate → Bool
  | [] => true
  | [c] => unsure c.score
  | c :: d :: _ => unsure c.score || close c.score d.score

/-! ## Speaking -/

/-- `_activate`. -/
def activate (r : ℕ) (state : VoiceState) : VM (Option String) := do
  let router ← Prog.read fun s => s.routers r
  if router.activations.contains state.activationId then pure (some "activation.reused")
  else if 4096 ≤ router.activations.length then pure (some "session.exhausted")
  else do
    Prog.write fun s => s.modifyRouter r (.activate state.activationId)
    pure none

/-- `_speak`. -/
def speak (r : ℕ) (prompt : String) (state : VoiceState) : VM (Option VoiceReply) := do
  if ← current r state then
    match ← Prog.ask (.voice r (.speak prompt)) with
    | .raised e =>
      if e.isException then pure (some { status := "failed", code := "speech.unavailable" })
      else throw e
    | _ => pure none
  else pure (some (blocked "context.stale"))

/-- `_prompt`. -/
def prompt (r p : ℕ) (command : Command) (phase : Phase) (text : String) (details : Mapping Json)
    (state : VoiceState) : VM (Option VoiceReply) := do
  let observed ← onException
    (do observeInteraction p command phase details
        pure true)
    (pure false)
  if observed then speak r text state else pure (some (blocked "journal.unavailable"))

/-- `_binding`. -/
def binding (t : Text) (state : VoiceState) : VM String :=
  match t.dumps state.key state.context with
  | some s => pure s
  | none => throw (.value "binding")

/-! ## `handle` -/

/-- `_handle`, where no action is clear: ask for one. -/
def clarify (r p : ℕ) (actions : List Action) (command : Command) (state : VoiceState) :
    VM VoiceReply := do
  let text := "Please start a new command turn and name the action: " ++
    ", ".intercalate ((actions.take 3).map Action.label)
  match ← prompt r p command .clarification text [("reason", .str "ambiguous-or-unknown")] state with
  | some failure => pure failure
  | none =>
    pure { status := "clarify", code := "clarification.required", prompt := some text }

/-- `_handle`, where the command is to be previewed. -/
def preview (t : Text) (r p : ℕ) (action : Action) (command : Command) (state : VoiceState)
    (corrected inferred : Bool) : VM VoiceReply := do
  if 128 ≤ (← Prog.read fun s => (s.routers r).previews.length) then
    pure (blocked "confirmation.limit")
  else do
    let bound ← binding t state
    let issued ← (some <$> requestConfirmation p command (some bound)).catching fun e => match e with
      | .confirmation _ => pure none
      | e => .fail e
    match issued with
    | none => pure (blocked "confirmation.unavailable")
    | some confirmation =>
      let text := (if corrected then "Correction preview: "
        else if inferred then "Candidate preview: " else "Confirm: ") ++ action.label ++ "?"
      match ← speak r text state with
      | some failure => do
        let bound ← binding t state
        let _ ← Plane.confirm p (some confirmation.token) "panel" (some bound) (some false) none
        pure failure
      | none => do
        let bound ← binding t state
        Prog.write fun s => s.modifyRouter r (.keep confirmation bound)
        pure { status := "preview", code := "confirmation.required",
               token := some confirmation.token, prompt := some text }

/-- `_handle`, where the command goes to the plane at once. -/
def direct (r p : ℕ) (command : Command) (state : VoiceState) : VM VoiceReply := do
  let res ← dispatch p command (some false) (some (.voice r state))
  pure { status := statusText res.status
         code := (res.error.map Error.code).getD "command.success"
         result := some res }

/-- `_handle`, once there is a clear candidate: assess, then preview or dispatch. -/
def decide (t : Text) (r p : ℕ) (text : String) (action : Action) (command : Command)
    (state : VoiceState) (corrected : Bool) : VM VoiceReply := do
  let denial ← assess p command
  let inferred := !matchesAlias t text action
  let previewed := denial = some .confirmationRequired || ((corrected || inferred) && denial.isNone)
  let _ ← Prog.ask (.voice r (.assessed command ((corrected || inferred) && !previewed)))
  if previewed then preview t r p action command state corrected inferred
  else direct r p command state

/-- `_handle`. `none` stands for an argument of another type. -/
def handleBody (t : Text) (r : ℕ) (transcript : Option String) (corrected : Option Bool) :
    VM VoiceReply := do
  let state ← voiceState r
  match available state with
  | some denial => pure (blocked denial)
  | none => do
    match ← activate r state with
    | some denial => pure (blocked denial)
    | none =>
      match corrected, transcript with
      | none, _ => pure (blocked "voice.invalid")
      | some _, none => throw (.value "transcript must be text")
      | some corrected, some text => do
        let found ← candidates t r text
        let now ← voiceState r
        if now ≠ state || (available now).isSome then pure (blocked "context.stale")
        else do
          let router ← Prog.read fun s => s.routers r
          match found.head?.map Candidate.action <|> router.actions.head? with
          | none => throw .callback
          | some action => do
            let command ← command r action state (found.head?.map Candidate.version)
            if unclear found then clarify r router.plane router.actions command state
            else decide t r router.plane text action command state corrected

/-- `with self._lock`, and the flag that keeps callbacks of the same thread out. -/
def exclusively (r : ℕ) (invalid : String) (body : VM VoiceReply) : VM VoiceReply := do
  if ← Prog.read fun s => (s.routers r).busy then pure (blocked "voice.busy")
  else do
    Prog.write fun s => s.modifyRouter r (.occupy true)
    (onValueError body (pure (blocked invalid))).lastly
      (Prog.write fun s => s.modifyRouter r (.occupy false))

/-- `handle`. -/
def handle (t : Text) (r : ℕ) (transcript : Option String) (corrected : Option Bool) :
    VM VoiceReply :=
  exclusively r "voice.invalid" (handleBody t r transcript corrected)

/-! ## `confirm` -/

/-- The reply that reports a result of the plane. -/
def report (success : String) (res : Result) : VoiceReply :=
  { status := statusText res.status
    code := (res.error.map Error.code).getD success
    result := some res }

/-- `confirm`, once the answer is understood. -/
def answered (t : Text) (r p : ℕ) (token channel : String) (state : VoiceState) (approved : Bool) :
    VM VoiceReply := do
  Prog.write fun s => s.modifyRouter r (.drop token)
  let bound ← binding t state
  let res ← Plane.confirm p (some token) channel (some bound) (some approved) (some (.voice r state))
  pure (report ("command." ++ statusText res.status) res)

/-- The body of `confirm`. -/
def confirmBody (t : Text) (r : ℕ) (token : Option String) (channel : String) (answer : Reply) :
    VM VoiceReply := do
  let state ← voiceState r
  match available state with
  | some denial => pure (blocked denial)
  | none => do
    let router ← Prog.read fun s => s.routers r
    match token.bind fun tok => (router.previews.get tok).map fun v => (tok, v) with
    | none => pure (blocked "confirmation.unknown")
    | some (tok, kept, original) => do
      let bound ← binding t state
      if bound ≠ original then do
        Prog.write fun s => s.modifyRouter r (.drop tok)
        let bound ← binding t state
        let res ← Plane.confirm router.plane (some tok) channel (some bound) (some false) none
        pure (report "context.stale" res)
      else if channel = "voice" then do
        match ← activate r state with
        | some denial => pure (blocked denial)
        | none =>
          match answer with
          | .text s =>
            let normalized := t.normalize s
            if !(["yes", "confirm", "no", "cancel"].contains normalized) then do
              let text := "Start a new command turn and say yes or no."
              match ← prompt r router.plane kept.command .clarification text
                [("reason", .str "confirmation-answer")] state with
              | some failure => pure failure
              | none =>
                pure { status := "clarify", code := "confirmation.answer",
                       token := some tok, prompt := some text }
            else answered t r router.plane tok channel state (["yes", "confirm"].contains normalized)
          | _ => throw (.value "transcript must be text")
      else match ["panel", "keyboard"].contains channel, answer with
        | true, .truth approved => answered t r router.plane tok channel state approved
        | _, _ => pure (blocked "confirmation.invalid")

/-- `confirm`. -/
def confirm (t : Text) (r : ℕ) (token : Option String) (channel : String) (answer : Reply) :
    VM VoiceReply :=
  exclusively r "confirmation.invalid" (confirmBody t r token channel answer)

/-! ## The machine -/

/-- A call of a public method of a plane or of a router. -/
inductive Call where
  | plane (m : Method)
  | handle (r : ℕ) (transcript : Option String) (corrected : Option Bool)
  | confirm (r : ℕ) (token : Option String) (channel : String) (answer : Reply)
  deriving DecidableEq

/-- What it returns. -/
inductive Return where
  | value (v : Value)
  | reply (v : VoiceReply)

/-- A call, run. -/
def callBody (t : Text) : Call → VM Return
  | .plane m => .value <$> body m
  | .handle r transcript corrected => .reply <$> handle t r transcript corrected
  | .confirm r token channel answer => .reply <$> confirm t r token channel answer

/-- A world of planes and routers. -/
abbrev VWorld := World State Op Answer Exc Call Return

/-- A log entry of planes and routers. -/
abbrev VEntry := Entry State Op Answer Exc Call Return

/-- The planes and the routers, called as `enter` allows. -/
def voiceMachine (t : Text) (enter : VWorld → List (ℕ × Op) → Call → Bool) :
    Machine State Op Answer Exc Call Return where
  body := callBody t
  enter := enter

end Voice

end Arhugula
