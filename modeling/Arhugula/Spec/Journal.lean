import Arhugula.Durable.Calls
import Arhugula.Spec.Codec

/-!
# The journals (`runtime/journal.py`)

`Memory` and `Lite` are `MemoryJournal` and `SQLiteJournal`, after they were opened by the process that calls them. Each
call holds the lock of the journal for all that it does to it.

`json` is a parameter. Of SQLite: rows that are committed are kept, what is bound to a statement is an integer of 64
bits, and the sequences are 1, 2, 3 and so on.
-/

namespace Arhugula

namespace Journal

open Strings Codec

/-- `json.dumps` of sorted keys, unless it raises, as for an integer of too many digits, and what parses a text. -/
structure Host where
  dumps : Py → Option Text
  parse : Text → Option Doc

/-- What is raised: a `JournalError` with its text, or another exception. -/
inductive Error where
  | journal (text : String)
  | contract
  | value
  | overflow
  deriving DecidableEq

/-- `isinstance(value, (Event, Interaction, VoiceObservation))`. -/
def isEvent : Py → Bool
  | .record .event _ | .record .interaction _ | .record .voiceObservation _ => true
  | _ => false

/-- `_event`. -/
def eventOf (value : Py) : Except Error Py :=
  if !isEvent value then throw (.journal "journal accepts only execution or observation records")
  else
    match (encode value).bind decode with
    | some event => pure event
    | none => throw .contract

/-- `_cursor`. -/
def cursorOf (after : Py) : Except Error ℕ :=
  match after with
  | .int (.ofNat n) => pure n
  | _ => throw (.journal "cursor must be a nonnegative integer")

/-- `_wire`. -/
def wire (h : Host) (event : Py) : Except Error Text :=
  match encode event with
  | none => throw .contract
  | some payload =>
    match h.dumps payload with
    | none => throw .value
    | some text => pure text

/-- `event.event_id`. -/
def eventId (event : Py) : Text :=
  match event with
  | .record _ fields =>
    match get fields "event_id".toList with
    | some (.str id) => id
    | _ => []
  | _ => []

/-! ## `MemoryJournal` -/

/-- `MemoryJournal`. -/
structure Memory where
  events : List (ℕ × Py)
  ids : List (Text × ℕ × Py)
  closed : Bool

/-- `MemoryJournal.__init__`. -/
def Memory.fresh : Memory := ⟨[], [], false⟩

/-- `MemoryJournal.append`. -/
def Memory.append (h : Host) (m : Memory) (event : Py) : Except Error (Memory × ℕ) := do
  let event ← eventOf event
  if m.closed then throw (.journal "journal is closed")
  else
    match m.ids.find? fun x => x.1 = eventId event with
    | some (_, sequence, existing) =>
      let old ← wire h existing
      let new ← wire h event
      if old ≠ new then throw (.journal "event ID conflicts with existing payload")
      else pure (m, sequence)
    | none =>
      let sequence := m.events.length + 1
      pure ({ m with
        events := m.events ++ [(sequence, event)]
        ids := m.ids ++ [(eventId event, sequence, event)] }, sequence)

/-- `MemoryJournal.read`. -/
def Memory.read (m : Memory) (after : Py) : Except Error (List (ℕ × Py)) := do
  let after ← cursorOf after
  if m.closed then throw (.journal "journal is closed")
  else pure (m.events.drop after)

/-! ## `SQLiteJournal` -/

/-- A row of the table `events`. -/
structure Row where
  sequence : ℕ
  eventId : Text
  payload : Text

/-- `SQLiteJournal`: the rows in the order in which they were inserted, and the last sequence. -/
structure Lite where
  rows : List Row
  last : ℕ
  closed : Bool

/-- A journal that was created. -/
def Lite.fresh : Lite := ⟨[], 0, false⟩

/-- `SQLiteJournal.append`. -/
def Lite.append (h : Host) (s : Lite) (event : Py) : Except Error (Lite × ℕ) := do
  let event ← eventOf event
  let payload ← wire h event
  if s.closed then throw (.journal "journal is closed")
  else
    match s.rows.find? fun row => row.eventId = eventId event with
    | some existing =>
      if existing.payload ≠ payload then throw (.journal "event ID conflicts with existing payload")
      else pure (s, existing.sequence)
    | none =>
      let sequence := s.last + 1
      pure ({ s with rows := s.rows ++ [⟨sequence, eventId event, payload⟩], last := sequence }, sequence)

/-- An integer that is bound to a statement. -/
def bound (n : ℕ) : Except Error ℕ := if n < 2 ^ 63 then pure n else throw .overflow

/-- The loop over the rows that were selected. -/
def readRows (h : Host) : List Row → Except Error (List (ℕ × Py))
  | [] => pure []
  | row :: rows =>
    match loads h.parse row.payload with
    | none => throw (.journal "cannot read valid journal events")
    | some event =>
      if !isEvent event || eventId event ≠ row.eventId then throw (.journal "stored event identity mismatch")
      else do
        let rest ← readRows h rows
        pure ((row.sequence, event) :: rest)

/-- `SQLiteJournal.read`. -/
def Lite.read (h : Host) (s : Lite) (after : Py) : Except Error (List (ℕ × Py)) := do
  let after ← cursorOf after
  if s.closed then throw (.journal "journal is closed")
  else
    let after ← bound after
    readRows h ((s.rows.filter fun row => after < row.sequence).insertionSort fun a b => a.sequence ≤ b.sequence)

/-! ## Calls -/

/-- A call. -/
inductive Call where
  | append (event : Value)
  | read (after : Py)
  | close

/-- What a call returns. -/
inductive Answer where
  | sequence (n : ℕ)
  | events (events : List (ℕ × Py))
  | done
  | raised (e : Error)

/-- A call of a `MemoryJournal`. -/
def Memory.call (h : Host) (m : Memory) : Call → Memory × Answer
  | .append event =>
    match m.append h event.val with
    | .ok (m', n) => (m', .sequence n)
    | .error e => (m, .raised e)
  | .read after =>
    match m.read after with
    | .ok events => (m, .events events)
    | .error e => (m, .raised e)
  | .close => ({ m with closed := true }, .done)

/-- A call of a `SQLiteJournal`. -/
def Lite.call (h : Host) (s : Lite) : Call → Lite × Answer
  | .append event =>
    match s.append h event.val with
    | .ok (s', n) => (s', .sequence n)
    | .error e => (s, .raised e)
  | .read after =>
    match s.read h after with
    | .ok events => (s, .events events)
    | .error e => (s, .raised e)
  | .close => ({ s with closed := true }, .done)

end Journal

end Arhugula
