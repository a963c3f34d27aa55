import Arhugula.Durable.Calls
import Arhugula.Spec.Gateway

/-!
# Admission to the gateway (`runtime/gateway/admission.py`)

An `Admission` is the other end of the wire: it authenticates a caller by its bearer, parses what it sent, checks that
the request is for its provider, and claims the id of the request in a `ReplayHistory`, which never forgets one. The
`GatewayClient` claims the ids of its calls in another history of the same kind.
-/

namespace Arhugula

namespace Gateway

open Providers

/-! ## Ids -/

/-- `ReplayHistory.claim`: the ids that are held afterwards, newest first. -/
def claim (ids : List String) (requestId : String) : Except Code (List String) :=
  if ids.contains requestId then .error .replay
  else if historyLimit ≤ ids.length then .error .exhausted
  else .ok (requestId :: ids)

/-! ## Bearers -/

/-- `[A-Za-z0-9._~-]`. -/
def isBearerChar (c : Char) : Bool :=
  ('A' ≤ c && c ≤ 'Z') || ('a' ≤ c && c ≤ 'z') || ('0' ≤ c && c ≤ '9') || "._~-".toList.contains c

/-- `Bearer`. -/
structure Bearer where
  value : String
  valid : (32 ≤ value.length ∧ value.length ≤ 256) ∧ value.toList.all isBearerChar = true

/-- `Bearer.header`. -/
def Bearer.header (b : Bearer) : String := "Bearer " ++ b.value

/-- `encode()`. -/
def utf8 (s : String) : Bytes := s.toUTF8.toList

/-- `encode('ascii')`: no bytes for a text that has other characters. -/
def ascii (s : String) : Option Bytes :=
  if s.toList.all fun c => c.toNat < 128 then some (utf8 s) else none

/-- `admit`: is this the authorization? `none` stands for a value that is no string. -/
def Bearer.accepts (b : Bearer) (authorization : Option String) : Bool :=
  let supplied := match authorization with
    | some s => if s.length ≤ 263 then ascii s else some []
    | none => some []
  match supplied with
  | some bytes => bytes = utf8 b.header
  | none => false

/-! ## Admission -/

/-- `Admission`. -/
structure Admission where
  provider : Provider
  placed : provider.placement = .host
  catalogVersion : ℤ
  bearer : Bearer
  history : List String

namespace Admission

/-- A new admission. -/
def new (provider : Provider) (placed : provider.placement = .host) (catalogVersion : ℤ) (bearer : Bearer) :
    Admission :=
  ⟨provider, placed, catalogVersion, bearer, []⟩

/-- The method `admit`. -/
def admits (codec : Codec) (a : Admission) (authorization : Option String) (raw : Option Bytes) :
    Admission × Except Code Request :=
  if !a.bearer.accepts authorization then (a, .error .authentication)
  else match parseRequest codec raw with
    | .error code => (a, .error code)
    | .ok request => match checkProvider request a.provider a.catalogVersion with
      | .error code => (a, .error code)
      | .ok () => match claim a.history request.requestId with
        | .error code => (a, .error code)
        | .ok ids => ({ a with history := ids }, .ok request)

/-- `admits`, of an authorization and a body. -/
def call (codec : Codec) (a : Admission) (c : Option String × Option Bytes) : Admission × Except Code Request :=
  a.admits codec c.1 c.2

/-- The admission after `n` calls. -/
abbrev after (codec : Codec) (a : Admission) (calls : ℕ → Option String × Option Bytes) (n : ℕ) : Admission :=
  Durable.Calls.after (call codec) a calls n

/-- What the call after `n` others returns. -/
abbrev answer (codec : Codec) (a : Admission) (calls : ℕ → Option String × Option Bytes) (n : ℕ) :
    Except Code Request :=
  Durable.Calls.answer (call codec) a calls n

end Admission

end Gateway

end Arhugula
