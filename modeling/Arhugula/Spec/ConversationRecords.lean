import Mathlib.Algebra.Ring.Nat
import Mathlib.Data.Finset.Card
import Arhugula.Spec.Contracts

/-!
# Conversation records (`runtime/voice/conversation_records.py`)

A record that the source makes itself has a `make`, which fails where `__post_init__` raises. A
record that its callers make has a `valid`, which says that it was made.
-/

namespace Arhugula

namespace Conversation

/-! ## Enumerations -/

/-- `Entry`. -/
inductive Entry where
  | voice | panel | keyboard
  deriving DecidableEq

/-- `ContextState`. -/
inductive ContextState where
  | available | empty | conflicting | unavailable
  deriving DecidableEq

/-- `Display`. -/
inductive Display where
  | inactive | ready | processing | clarifying | stopping | faulted
  deriving DecidableEq

/-- `Code`. -/
inductive Code where
  | inactive | ready | processing | conflict | canceled | ended | handoff | stale | limit | denied
  | unavailable | invalidResult | cleanup | busy
  deriving DecidableEq

/-! ## Values -/

/-- `_number`. -/
def number (n : ℕ) (ceiling : ℕ) : Bool := 0 < n && n ≤ ceiling

/-- The ceiling of `_number` where none is given. -/
def maxNumber : ℕ := 2 ^ 63 - 1

/-- What `str.strip` takes away. -/
def isSpace (c : Char) : Bool :=
  (9 ≤ c.toNat && c.toNat ≤ 13) || (28 ≤ c.toNat && c.toNat ≤ 32) ||
    (8192 ≤ c.toNat && c.toNat ≤ 8202) ||
    [133, 160, 5760, 8232, 8233, 8239, 8287, 12288].contains c.toNat

/-- `text`. A `String` has no surrogates. -/
def text (value : String) (ceiling : ℕ) : Bool :=
  0 < value.length && value.length ≤ ceiling && value.toList.any (fun c => !isSpace c) &&
    value.toList.all fun c => 32 ≤ c.toNat || c = '\n' || c = '\t'

/-- The ceiling of `text` where none is given. -/
def maxText : ℕ := 16384

/-- `_id`. -/
def isIdentifier (value : String) : Bool :=
  text value 128 &&
    value.toList.all fun c => isAlnum c || c = '-' || c = '_' || c = '.' || c = ':'

/-! ## What the callers make -/

/-- `Limits`. -/
structure Limits where
  turns : ℕ
  textChars : ℕ
  contextChars : ℕ
  contextItems : ℕ
  polls : ℕ
  deriving DecidableEq

def Limits.valid (l : Limits) : Bool :=
  number l.turns 64 && number l.textChars 16384 && number l.contextChars 65536 &&
    number l.contextItems 64 && number l.polls 1024

/-- `SetupEvidence`. -/
structure SetupEvidence where
  revision : ℕ
  occupied : Finset String
  reserved : Finset String
  deriving DecidableEq

def SetupEvidence.valid (e : SetupEvidence) : Bool :=
  number e.revision maxNumber && decide (∀ keys ∈ [e.occupied, e.reserved],
    keys.card ≤ 256 ∧ ∀ key ∈ keys, text key 128 = true)

/-- `ConversationPolicy`. -/
structure ConversationPolicy where
  profileId : String
  policyId : String
  revision : ℕ
  entries : Finset Entry
  exitPhrase : String
  exitKey : String
  limits : Limits
  deriving DecidableEq

def ConversationPolicy.valid (p : ConversationPolicy) : Bool :=
  isIdentifier p.profileId && isIdentifier p.policyId && number p.revision maxNumber &&
    decide (p.entries ≠ ∅) && p.limits.valid && text p.exitPhrase p.limits.textChars &&
    text p.exitKey 128

/-- `ContextItem`. -/
structure ContextItem where
  source : String
  text : String
  deriving DecidableEq

def ContextItem.valid (i : ContextItem) : Bool :=
  isIdentifier i.source && Conversation.text i.text maxText

/-- The characters of the items. -/
def itemChars (items : List ContextItem) : ℕ := (items.map fun i => i.text.length).sum

/-- `Context`. -/
structure Context where
  revision : ℕ
  state : ContextState
  items : List ContextItem
  conflictId : Option String
  deriving DecidableEq

def Context.valid (c : Context) : Bool :=
  number c.revision maxNumber && c.items.length ≤ 64 && c.items.all ContextItem.valid &&
    itemChars c.items ≤ 65536 && c.conflictId.all isIdentifier &&
    if c.state = .conflicting then 2 ≤ c.items.length && c.conflictId.isSome
    else c.conflictId.isNone && decide (c.items ≠ [] ↔ c.state = .available)

/-- `Snapshot`. The shared codec, which a profile passes, changes none of its fields. -/
structure Snapshot where
  profile : Profile
  revision : ℕ
  policy : Option ConversationPolicy
  setup : SetupEvidence
  context : Context
  deriving DecidableEq

def Snapshot.valid (s : Snapshot) : Bool :=
  isIdentifier s.profile.profileId && isIdentifier s.profile.policyId &&
    number s.revision maxNumber && s.policy.all ConversationPolicy.valid && s.setup.valid &&
    s.context.valid

/-! ## What the conversation makes -/

/-- `TurnToken`. -/
structure TurnToken where
  sessionId : String
  turn : ℕ
  generation : ℕ
  profileId : String
  profileRevision : ℕ
  policyRevision : ℕ
  contextRevision : ℕ
  deriving DecidableEq

def TurnToken.valid (t : TurnToken) : Bool :=
  isIdentifier t.sessionId && isIdentifier t.profileId &&
    [t.turn, t.generation, t.profileRevision, t.policyRevision, t.contextRevision].all fun n =>
      number n maxNumber

/-- `TurnToken(...)`. -/
def TurnToken.make (t : TurnToken) : Option TurnToken := if t.valid then some t else none

/-- `Response`. -/
structure Response where
  token : TurnToken
  text : String
  deriving DecidableEq

def Response.valid (r : Response) : Bool := r.token.valid && Conversation.text r.text maxText

/-- `Exchange`. -/
structure Exchange where
  token : TurnToken
  text : String
  response : String
  resolvedConflict : Option String
  deriving DecidableEq

/-- `Exchange(...)`. -/
def Exchange.make (e : Exchange) : Option Exchange :=
  if Conversation.text e.text maxText && Conversation.text e.response maxText &&
      e.resolvedConflict.all isIdentifier
  then some e else none

/-- `Request`. -/
structure Request where
  token : TurnToken
  text : String
  context : Context
  history : List Exchange
  resolvedConflict : Option String
  deriving DecidableEq

/-- What `Request.__post_init__` wants. -/
def Request.valid (r : Request) : Bool :=
  Conversation.text r.text maxText && r.history.length ≤ 64 && r.resolvedConflict.all isIdentifier &&
    decide (r.resolvedConflict = none ∨ r.resolvedConflict = r.context.conflictId) &&
    decide (r.token.contextRevision = r.context.revision)

/-- `Request(...)`, and `dataclasses.replace` of one. -/
def Request.make (r : Request) : Option Request := if r.valid then some r else none

/-- `Clarification`. -/
structure Clarification where
  token : TurnToken
  conflictId : String
  useCurrent : Bool
  deriving DecidableEq

def Clarification.valid (c : Clarification) : Bool := c.token.valid && isIdentifier c.conflictId

end Conversation

end Arhugula
