import Mathlib.Data.Nat.Basic
import Mathlib.Data.Int.Basic
import Mathlib.Tactic.Common

/-!
# The session owner (`runtime/voice/session.py`)

A `SessionOwner` admits one client at a time. Each method runs under one lock and makes no
callback, so that every schedule of clients is a list of calls.

An argument that may be of another type is an `Option`: `none` stands for such a value.
-/

namespace Arhugula

namespace Session

/-- `ValueError`, `BusyError`, `FaultedError` (which is a `BusyError`) or `StaleOwnerError`. -/
inductive Error where
  | value | busy | faulted | stale
  deriving DecidableEq

/-- `_state`. -/
inductive State where
  | idle | owned | canceling | faulted
  deriving DecidableEq

/-- `SessionOwner`. -/
structure SessionOwner where
  sessionId : String
  generation : ℕ
  owner : Option ℕ
  state : State
  deriving DecidableEq

/-- A positive integer. -/
def positive : Option ℤ → Option ℕ
  | some z => if 0 < z then some z.toNat else none
  | none => none

namespace SessionOwner

/-- A new owner. -/
def new (sessionId : String) : SessionOwner := ⟨sessionId, 0, none, .idle⟩

variable (o : SessionOwner)

/-- The session modes. -/
def modes : List (Option String) := [some "command", some "dictation", some "conversation"]

/-- `begin`: the generation. -/
def begin (mode : Option String) : Except Error (ℕ × SessionOwner) :=
  if mode ∉ modes then .error .value
  else if o.state = .faulted then .error .faulted
  else if o.state ≠ .idle then .error .busy
  else .ok (o.generation + 1,
    { o with generation := o.generation + 1, owner := some (o.generation + 1), state := .owned })

/-- Invalidate what is owned. -/
def invalidate : SessionOwner :=
  { o with
    generation := o.generation + 1
    state := if o.state = .owned then .canceling else o.state }

/-- `cancel`, of every owner, or of the named one. -/
def cancel (generation : Option (Option ℤ)) : Except Error (ℕ × SessionOwner) :=
  match generation with
  | none => .ok (o.generation + 1, o.invalidate)
  | some g =>
    match positive g with
    | none => .error .value
    | some g =>
      if o.owner ≠ some g then .ok (o.generation, o) else .ok (o.generation + 1, o.invalidate)

/-- `accepts`. -/
def accepts (generation : Option ℤ) : Bool :=
  match positive generation with
  | none => false
  | some g => o.state = .owned && o.owner = some g

/-- `release`. -/
def release (generation : Option ℤ) (cleaned : Option Bool) : Except Error SessionOwner :=
  match positive generation, cleaned with
  | some g, some cleaned =>
    if o.state = .faulted then .error .faulted
    else if o.owner ≠ some g then .error .stale
    else if !cleaned then .ok { o with state := .faulted }
    else .ok { o with owner := none, state := .idle }
  | _, _ => .error .value

end SessionOwner

/-! ## Schedules -/

/-- A call by some client. -/
inductive Call where
  | begin (mode : Option String)
  | cancel (generation : Option (Option ℤ))
  | accepts (generation : Option ℤ)
  | release (generation : Option ℤ) (cleaned : Option Bool)

/-- What a call does: it returns a generation, an answer or nothing, or it raises. -/
inductive Outcome where
  | generation (g : ℕ)
  | accepted (b : Bool)
  | released
  | raised (e : Error)
  deriving DecidableEq

/-- One call. -/
def step (o : SessionOwner) : Call → Outcome × SessionOwner
  | .begin mode =>
    match o.begin mode with
    | .ok (g, o') => (.generation g, o')
    | .error e => (.raised e, o)
  | .cancel generation =>
    match o.cancel generation with
    | .ok (g, o') => (.generation g, o')
    | .error e => (.raised e, o)
  | .accepts generation => (.accepted (o.accepts generation), o)
  | .release generation cleaned =>
    match o.release generation cleaned with
    | .ok o' => (.released, o')
    | .error e => (.raised e, o)

/-- A call that was made, and what it did. -/
structure Event where
  call : Call
  outcome : Outcome

/-- **A schedule**: the calls, the last one first, made on a new owner. It leaves the events,
the last one first, and the owner. -/
def run (sessionId : String) : List Call → List Event × SessionOwner
  | [] => ([], .new sessionId)
  | c :: calls =>
    let w := run sessionId calls
    let r := step w.2 c
    (⟨c, r.1⟩ :: w.1, r.2)

end Session

end Arhugula
