import Arhugula.Reentrant.Machine
import Arhugula.Spec.Contracts

/-!
# The VM process: its state and its callbacks

Any number of `ControlPlane` objects (`runtime/core.py`) share one journal
(`runtime/journal.py`); a `VoiceRouter` (`runtime/voice/router.py`) calls one of them.
Clocks, identifier sources, executors, guards, `uuid4`, the journal's `append` and
`read`, and the voice owner's state, speech and proposal functions are callbacks.
The journal's `dispatch_lock` lets one thread in at a time, and lets the callbacks
of that thread in again.

A callback may raise an `Exception`, which the handlers below catch as the source
does, or something else (`Exc.interrupt`), which no handler catches.
-/

namespace Arhugula

open Reentrant

/-! ## The journal -/

/-- What a journal accepts. -/
inductive Record where
  | event (e : Event)
  | interaction (e : Interaction)
  | voice (e : VoiceObservation)
  deriving DecidableEq

def Record.eventId : Record → String
  | .event e => e.eventId
  | .interaction e => e.eventId
  | .voice e => e.eventId

/-- A journal, oldest record first; record `n` has sequence number `n + 1`. -/
abbrev Journal := List Record

/-- `MemoryJournal.append`: the same record again is accepted and not stored twice,
another record with its identifier is refused. -/
def Journal.append (j : Journal) (r : Record) : Option Journal :=
  match j.find? fun old => old.eventId = r.eventId with
  | some old => if old = r then some j else none
  | none => some (j ++ [r])

/-- An append only adds, and the record is there afterwards. -/
theorem Journal.append_mem {j j' : Journal} {r : Record} (h : j.append r = some j') :
    (∀ x ∈ j, x ∈ j') ∧ r ∈ j' := by
  unfold Journal.append at h
  split at h
  · rename_i old hold
    split at h
    · rename_i heq
      cases h
      exact ⟨fun _ hx => hx, heq ▸ List.mem_of_find?_eq_some hold⟩
    · cases h
  · cases h
    exact ⟨fun _ hx => List.mem_append_left _ hx, by simp⟩

namespace Vm

/-! ## The objects of the process -/

/-- What a method or a callback raises. -/
inductive Exc where
  | contract (text : String)
  | confirmation (text : String)
  | value (text : String)
  | journal (text : String)
  | callback
  | interrupt
  deriving DecidableEq, Repr

/-- `except Exception` catches it. -/
def Exc.isException (e : Exc) : Bool := decide (e ≠ .interrupt)

/-- `Outcome`, as an executor returns it. `none`: an output that is no JSON object. -/
structure Outcome where
  status : String
  output : Option (Mapping Json)
  error : Option Error
  deriving DecidableEq

/-- `Confirmation`. -/
structure Confirmation where
  token : String
  command : Command
  expiresAtMs : ℤ
  deriving DecidableEq

/-- A `ControlPlane`: its trusted configuration and its in-memory tables. -/
structure ControlPlane where
  catalog : List Capability
  catalogVersion : ℤ
  catalogUsers : ℕ
  policy : Policy
  profile : Profile
  seen : List String
  confirmations : Mapping (Confirmation × String)
  deriving DecidableEq

namespace ControlPlane

/-- `_catalog.get(capability_id)`. -/
def capability (c : ControlPlane) (capabilityId : String) : Option Capability :=
  c.catalog.find? fun item => item.capabilityId = capabilityId

/-- `_catalog_users += 1`. -/
def use (c : ControlPlane) : ControlPlane := { c with catalogUsers := c.catalogUsers + 1 }

/-- `_catalog_users -= 1`. -/
def release (c : ControlPlane) : ControlPlane := { c with catalogUsers := c.catalogUsers - 1 }

/-- `_seen.update(ids)`. -/
def see (ids : List String) (c : ControlPlane) : ControlPlane := { c with seen := ids ++ c.seen }

/-- `_confirmations.pop(token)`. -/
def take (token : String) (c : ControlPlane) : ControlPlane :=
  { c with confirmations := c.confirmations.filter fun item => item.1 ≠ token }

/-- `request_confirmation`: drop the previews that expired. -/
def expire (now : ℤ) (c : ControlPlane) : ControlPlane :=
  { c with confirmations := c.confirmations.filter fun item => now < item.2.1.expiresAtMs }

/-- `_confirmations[preview.token] = (preview, key)`. -/
def issue (preview : Confirmation) (key : String) (c : ControlPlane) : ControlPlane :=
  { c with confirmations :=
      (preview.token, preview, key) :: c.confirmations.filter fun item => item.1 ≠ preview.token }

/-- `replace_catalog`: the new catalog, and no previews. -/
def replace (catalog : List Capability) (version : ℤ) (c : ControlPlane) : ControlPlane :=
  { c with catalog := catalog, catalogVersion := version, confirmations := [] }

end ControlPlane

/-- `Action`. -/
structure Action where
  capabilityId : String
  catalogVersion : ℤ
  arguments : Mapping Json
  aliases : List String
  label : String
  deriving DecidableEq

/-- `VoiceState`. -/
structure VoiceState where
  context : Mapping Json
  key : String
  activationId : String
  muted : Bool
  mode : String
  deriving DecidableEq

/-- A `VoiceRouter` of plane `plane`: its actions and its in-memory tables. A preview
is kept under its token with the binding it was issued for. -/
structure Router where
  plane : ℕ
  actions : List Action
  hasProposal : Bool
  activations : List String
  previews : Mapping (Confirmation × String)
  busy : Bool
  deriving DecidableEq

namespace Router

/-- `_busy = b`. -/
def occupy (b : Bool) (r : Router) : Router := { r with busy := b }

/-- `_activations.add(id)`. -/
def activate (id : String) (r : Router) : Router := { r with activations := id :: r.activations }

/-- `_previews[preview.token] = (preview, binding)`. -/
def keep (preview : Confirmation) (binding : String) (r : Router) : Router :=
  { r with previews :=
      (preview.token, preview, binding) :: r.previews.filter fun item => item.1 ≠ preview.token }

/-- `_previews.pop(token)`. -/
def drop (token : String) (r : Router) : Router :=
  { r with previews := r.previews.filter fun item => item.1 ≠ token }

end Router

/-- The planes and routers of the process, by number, and the journal they share. -/
structure State where
  planes : ℕ → ControlPlane
  routers : ℕ → Router
  journal : Journal

/-- The same state with plane `p` changed. -/
def State.modify (s : State) (p : ℕ) (f : ControlPlane → ControlPlane) : State :=
  { s with planes := fun q => if q = p then f (s.planes q) else s.planes q }

@[simp] theorem State.modify_self (s : State) (p : ℕ) (f : ControlPlane → ControlPlane) :
    (s.modify p f).planes p = f (s.planes p) := if_pos rfl

theorem State.modify_other (s : State) {p q : ℕ} (f : ControlPlane → ControlPlane) (h : q ≠ p) :
    (s.modify p f).planes q = s.planes q := if_neg h

@[simp] theorem State.modify_journal (s : State) (p : ℕ) (f : ControlPlane → ControlPlane) :
    (s.modify p f).journal = s.journal := rfl

/-- The same state with router `r` changed. -/
def State.modifyRouter (s : State) (r : ℕ) (f : Router → Router) : State :=
  { s with routers := fun q => if q = r then f (s.routers q) else s.routers q }

@[simp] theorem State.modifyRouter_self (s : State) (r : ℕ) (f : Router → Router) :
    (s.modifyRouter r f).routers r = f (s.routers r) := if_pos rfl

theorem State.modifyRouter_other (s : State) {r q : ℕ} (f : Router → Router) (h : q ≠ r) :
    (s.modifyRouter r f).routers q = s.routers q := if_neg h

/-! ## Callbacks -/

/-- What a router asks of its owner. `assessed` is no callback: it marks the moment after
the plane has assessed a command, when no lock is held and another thread may run;
`unpreviewed` if a correction or an inferred command is to be dispatched at once. -/
inductive VoiceOp where
  | state
  | speak (prompt : String)
  | proposal (text : String) (capabilities : List String)
  | identifiers
  | correlationIds
  | time
  | assessed (command : Command) (unpreviewed : Bool)
  deriving DecidableEq

/-- A callback: of plane `p`, of router `r`, of the journal, or a guard. -/
inductive Op where
  | clock (p : ℕ)
  | identifiers (p : ℕ)
  | guard (p : ℕ) (g : ℕ)
  | execute (p : ℕ) (c : Command)
  | uuid4
  | append (r : Record)
  | read
  | voice (r : ℕ) (o : VoiceOp)
  deriving DecidableEq

/-- One candidate a proposal function returns. -/
structure Proposal where
  capabilityId : String
  catalogVersion : ℤ
  confidence : ℚ
  deriving DecidableEq

/-- What a callback does. A guard answers `truth true` when it returns exactly
`True`. A proposal answers a list, `none` standing for an item of another shape or
type. `object` is any other value. -/
inductive Answer where
  | raised (e : Exc)
  | time (t : ℤ)
  | text (s : String)
  | truth (b : Bool)
  | outcome (o : Outcome)
  | voiceState (s : VoiceState)
  | proposals (l : List (Option Proposal))
  | object
  | done
  deriving DecidableEq

/-- What a callback raises when it gives no value of its kind. -/
def Answer.exc : Answer → Exc
  | .raised e => e
  | _ => .callback

/-- A body running in the process. -/
abbrev VM (α : Type) := Prog State Op Answer Exc α

/-- `try: p except Exception: h`. -/
def onException {α : Type} (p : VM α) (h : VM α) : VM α :=
  p.catching fun e => if e.isException then h else .fail e

/-- `self._clock()` of plane `p`. -/
def clock (p : ℕ) : VM ℤ := do
  match ← Prog.ask (.clock p) with
  | .time t => pure t
  | a => throw a.exc

/-- `self._identifiers()` of plane `p`. -/
def identifiers (p : ℕ) : VM String := do
  match ← Prog.ask (.identifiers p) with
  | .text s => pure s
  | a => throw a.exc

/-- `str(uuid4())`. -/
def uuid4 : VM String := do
  match ← Prog.ask .uuid4 with
  | .text s => pure s
  | a => throw a.exc

/-- `self._journal.append`. -/
def append (r : Record) : VM Unit := do
  match ← Prog.ask (.append r) with
  | .done =>
    match (← Prog.read State.journal).append r with
    | some j => Prog.write fun s => { s with journal := j }
    | none => throw (.journal "event ID conflicts with existing payload")
  | a => throw a.exc

/-- `self._journal.read()`. -/
def readJournal : VM Journal := do
  match ← Prog.ask .read with
  | .done => Prog.read State.journal
  | a => throw a.exc

/-! ## Voice state and guards -/

/-- `_state` of router `r`. -/
def voiceState (r : ℕ) : VM VoiceState := do
  match ← Prog.ask (.voice r .state) with
  | .raised e =>
    throw (if e.isException then .value "trusted voice state is unavailable" else e)
  | .voiceState s =>
    if s.key = "" || s.activationId = "" then throw (.value "invalid trusted voice state")
    else pure s
  | _ => throw (.value "invalid trusted voice state")

/-- `_available`: why a voice state cannot take a command. -/
def available (s : VoiceState) : Option String :=
  if s.muted then some "voice.muted"
  else if s.mode ≠ "command" then some "voice.wrong-mode"
  else none

/-- `_current` of router `r`: the voice state is still `s`. -/
def current (r : ℕ) (s : VoiceState) : VM Bool :=
  onException
    (do let now ← voiceState r
        pure (now = s && (available now).isNone))
    (pure false)

/-- A guard: a callable of the owner's, or `lambda: self._current(state)` of a router. -/
inductive Guard where
  | callback (g : ℕ)
  | voice (r : ℕ) (s : VoiceState)
  deriving DecidableEq

/-- Call a guard of plane `p`: does it return exactly `True`? -/
def Guard.run (p : ℕ) : Guard → VM Bool
  | .callback g => do
    match ← Prog.ask (.guard p g) with
    | .raised e => throw e
    | .truth b => pure b
    | _ => pure false
  | .voice r s => current r s

end Vm

end Arhugula
