import Arhugula.Spec.ConversationRecords
import Arhugula.Spec.Gateway

/-!
# Audio policy (`runtime/voice/tts_records.py`)

The records of the speech output, and `admit`, which makes a gateway request of an utterance. The hash
in the identifier of a request is a parameter, as are the codecs of the wire format.
-/

namespace Arhugula

namespace Tts

open Conversation (TurnToken number)

/-! ## Enumerations -/

/-- `Event`. -/
inductive Event where
  | response | status
  deriving DecidableEq

/-- `Phase`. -/
inductive Phase where
  | idle | synthesizing | playing | stopping | faulted
  deriving DecidableEq

/-- `Code`. -/
inductive Code where
  | idle | started | playing | played | degraded | muted | silent | denied | stale | unavailable
  | invalidAudio | limit | canceled | busy | replay | cleanup
  deriving DecidableEq

/-! ## Policies -/

/-- The ceiling of `_number` where none is given. -/
def maxNumber : ℕ := 2 ^ 53 - 1

/-- `Unchanged`, `Duck` or `Pause`. -/
inductive MixIntent where
  | unchanged
  | duck (gainMilli : ℕ)
  | pause
  deriving DecidableEq

def MixIntent.valid : MixIntent → Bool
  | .duck gain => gain < 1000
  | _ => true

/-- `RouteVoice`. -/
structure RouteVoice where
  providerId : String
  modelVersion : String
  voice : String
  deriving DecidableEq

def RouteVoice.valid (v : RouteVoice) : Bool := isId v.providerId && isId v.modelVersion && isId v.voice

/-- `Spoken` or `Silent`. -/
inductive Rule where
  | spoken (event : Event) (voice : String) (mix : MixIntent)
  | silent (event : Event)
  deriving DecidableEq

def Rule.event : Rule → Event
  | .spoken event _ _ => event
  | .silent event => event

def Rule.valid : Rule → Bool
  | .spoken _ voice mix => isId voice && mix.valid
  | .silent _ => true

/-- The voice of a rule that speaks. -/
def Rule.voice : Rule → Option String
  | .spoken _ voice _ => some voice
  | .silent _ => none

/-- `Limits`. -/
structure Limits where
  textChars : ℕ
  synthesisMs : ℕ
  synthesisPolls : ℕ
  playbackPolls : ℕ
  deriving DecidableEq

def Limits.valid (l : Limits) : Bool :=
  number l.textChars 16384 && number l.synthesisMs 30000 && number l.synthesisPolls 1024 &&
    number l.playbackPolls 1024

/-- `AudioPolicy`. -/
structure AudioPolicy where
  profileId : String
  policyId : String
  revision : ℕ
  configurationRevision : ℕ
  rules : List Rule
  voices : List RouteVoice
  limits : Limits
  deriving DecidableEq

def AudioPolicy.valid (p : AudioPolicy) : Bool :=
  isId p.profileId && isId p.policyId && number p.revision maxNumber &&
    number p.configurationRevision maxNumber && p.limits.valid && p.rules.length ≤ 2 &&
    p.rules.all Rule.valid && decide (p.rules.map Rule.event).Nodup && p.voices.length ≤ 4 &&
    p.voices.all RouteVoice.valid && decide p.voices.Nodup

/-- `AudioSnapshot`. -/
structure AudioSnapshot where
  conversation : Conversation.Snapshot
  currentTurn : Option TurnToken
  policy : Option AudioPolicy
  muted : Bool
  deriving DecidableEq

def AudioSnapshot.valid (s : AudioSnapshot) : Bool :=
  s.conversation.valid && s.currentTurn.all TurnToken.valid && s.policy.all AudioPolicy.valid

/-- `Utterance`. -/
structure Utterance where
  token : TurnToken
  event : Event
  text : String
  deriving DecidableEq

def Utterance.valid (u : Utterance) : Bool :=
  u.token.valid && Conversation.text u.text Conversation.maxText

/-- `Completion`. -/
structure Completion where
  code : Code
  providerId : Option String
  modelVersion : Option String
  failures : List Gateway.Failure
  deriving DecidableEq

/-- What `Completion.__post_init__` wants. -/
def Completion.valid (c : Completion) : Bool :=
  c.providerId.isNone = c.modelVersion.isNone && c.providerId.all isId && c.modelVersion.all isId &&
    c.failures.length ≤ 3 && c.failures.all fun f => isId f.providerId && isId f.modelVersion

/-- `Completion(...)`. -/
def Completion.make (c : Completion) : Option Completion := if c.valid then some c else none

/-! ## Admission -/

/-- What `admit` is given besides its arguments: the codecs of the wire format, the SHA-256 of the JSON
of a version, a token and an event, in hex; and the version of the catalog. -/
structure Binding where
  codec : Gateway.Codec
  sha256 : TurnToken → Event → String
  catalogVersion : ℤ

/-- `request_id`. -/
def requestId (b : Binding) (token : TurnToken) (event : Event) : String := "tts-" ++ b.sha256 token event

/-- `Ready`. -/
structure Ready where
  request : Gateway.Request
  mix : MixIntent
  deriving DecidableEq

/-- `Ready(...)`. -/
def Ready.make (b : Binding) (request : Gateway.Request) (mix : MixIntent) : Option Ready :=
  match Gateway.requestBytes b.codec (some request) with
  | .error _ => none
  | .ok raw =>
    match Gateway.parseRequest b.codec (some raw) with
    | .error _ => none
    | .ok parsed =>
      match parsed.payload with
      | .speech .. => some ⟨parsed, mix⟩
      | _ => none

variable {digest : Providers.Manifest → String}

/-- The routes of a candidate. -/
def routes (c : Providers.Candidate digest) : List Provider :=
  c.host.provider :: (c.localRoute.map Providers.Local.provider).toList

/-- The parts of a snapshot do not belong together, or do not allow any speech. -/
def denied (s : AudioSnapshot) (p : AudioPolicy) (q : Conversation.ConversationPolicy) : Bool :=
  let c := s.conversation
  !c.profile.enabled || !c.profile.voiceEnabled || p.profileId ≠ c.profile.profileId ||
    p.policyId ≠ c.profile.policyId || q.profileId ≠ c.profile.profileId || q.policyId ≠ c.profile.policyId

/-- The token is not of the current turn. -/
def outdated (t : TurnToken) (s : AudioSnapshot) (q : Conversation.ConversationPolicy) : Bool :=
  let c := s.conversation
  some t ≠ s.currentTurn || t.profileId ≠ c.profile.profileId || t.profileRevision ≠ c.revision ||
    t.policyRevision ≠ q.revision || t.contextRevision ≠ c.context.revision

/-- `admit`. A denial is an error. -/
def admission (b : Binding) (u : Utterance) (s : AudioSnapshot) (active : Providers.Status digest) : Except Code Ready :=
  if s.muted then .error .muted
  else match s.policy, s.conversation.policy with
    | some p, some q =>
      if denied s p q then .error .denied
      else if s.conversation.context.state = .unavailable then .error .unavailable
      else if outdated u.token s q then .error .stale
      else match p.rules.find? fun r => r.event = u.event with
        | some (.spoken _ voice mix) =>
          match active with
          | .disabled .. => .error .unavailable
          | .active revision candidate =>
            if p.configurationRevision ≠ revision then .error .denied
            else if !(p.rules.filterMap Rule.voice).all (fun v => (routes candidate).all fun r =>
                p.voices.contains ⟨r.providerId, r.modelVersion, v⟩) then .error .denied
            else if p.limits.textChars < u.text.length then .error .limit
            else match Ready.make b
                ⟨requestId b u.token u.event, candidate.host.provider.providerId,
                  candidate.host.provider.modelVersion, b.catalogVersion, p.limits.synthesisMs,
                  .speech u.text voice⟩ mix with
              | some ready => .ok ready
              | none => .error .limit
        | _ => .error .silent
    | _, _ => .error .denied

/-- **What is admitted is the current turn**, under a policy. -/
theorem admission_spec {b : Binding} {u : Utterance} {s : AudioSnapshot} {active : Providers.Status digest} {ready : Ready}
    (h : admission b u s active = .ok ready) : s.currentTurn = some u.token ∧ ∃ p, s.policy = some p := by
  unfold admission at h
  split at h
  · cases h
  split at h
  swap
  · cases h
  rename_i p q hp hq
  split at h
  · cases h
  split at h
  · cases h
  split at h
  · cases h
  rename_i hcurrent
  simp only [outdated, Bool.or_eq_true, decide_eq_true_eq, not_or, not_not] at hcurrent
  exact ⟨hcurrent.1.1.1.1.symm, p, hp⟩

end Tts

end Arhugula
