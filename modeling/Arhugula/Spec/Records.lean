import Arhugula.Durable.Disk
import Arhugula.Reentrant.Machine

/-!
# Atomic JSON records (`ops/orchestration/records.py`)

`atomic_json` writes a record under a temporary name and renames it; a replacement that is not known to be
on the disk is moved to a `.publication-uncertain` residue. Each system call may fail, a signal may come
with it, and the power may be lost while it is under way. Writers of one record are serialised by their
callers; readers are not.
-/

namespace Arhugula

namespace Records

open Reentrant Durable

variable {V : Type}

/-- The names: the record, its residue, and the temporary file. -/
inductive Name where
  | path | uncertain | temporary
  deriving DecidableEq

/-- The disk of one record. -/
abbrev Store (V : Type) := Disk Name V

/-- The system calls: the checks of the directory and of symbolic links, the look at the residue, and those
of the body. `replaced` is the moment between the rename and the note of it. -/
inductive Op where
  | directory | check | exists
  | mkstemp | write | fsync | close | replace | replaced | sync
  | quarantine | quarantineSync
  | unlink
  | readText
  deriving DecidableEq

/-- What a call does: it succeeds, or it raises an `OSError`, another `Exception`, or what is none. -/
inductive Answer where
  | ok | os | exception | interrupt
  deriving DecidableEq

/-- What is raised: the refusal of a residue, a `ValueError` of the text, `FileNotFoundError`, or what a
call raises. -/
inductive Exc where
  | uncertain | value | missing
  | os | exception | interrupt
  deriving DecidableEq

/-- A body on the disk. -/
abbrev RM (V : Type) (α : Type) := Prog (Store V) Op Answer Exc α

/-- A system call. -/
def call (op : Op) : RM V Unit := do
  match ← Prog.ask op with
  | .ok => pure ()
  | .os => throw .os
  | .exception => throw .exception
  | .interrupt => throw .interrupt

/-- `refuse_uncertain`. -/
def refuseUncertain : RM V Unit := do
  call .exists
  if ← Prog.read fun d => (d.now .uncertain).isSome then throw .uncertain

/-- `read_json`. -/
def readJson : RM V V := do
  call .check
  refuseUncertain
  call .readText
  match ← Prog.read fun d => d.text d.now .path with
  | none => throw .missing
  | some .torn => throw .value
  | some (.whole v) => pure v

/-- `atomic_json`: the temporary file is written. -/
def fill (v : V) : RM V Unit := do
  call .write
  Prog.write fun d => d.modify .temporary fun f => { f with content := .whole v }
  call .fsync
  Prog.write fun d => d.modify .temporary fun f => { f with synced := true }
  call .close

/-- `atomic_json`: a replacement that is not known to be on the disk is moved to the residue. -/
def quarantine : RM V Unit := do
  call .quarantine
  Prog.write fun d => d.rename .path .uncertain
  call .quarantineSync
  Prog.write Disk.sync

/-- `atomic_json`: the `try`, with its handler. -/
def publish (v : V) : RM V Unit := do
  fill v
  call .replace
  Prog.write fun d => d.rename .temporary .path
  call .replaced
  Prog.catching
    (do call .sync
        Prog.write Disk.sync)
    (fun error => do
      quarantine
      throw error)

/-- `atomic_json`: the `finally`. -/
def discard : RM V Unit := do
  if ← Prog.read fun d => (d.now .temporary).isSome then do
    call .unlink
    Prog.write fun d => d.unlink .temporary

/-- `atomic_json`. -/
def atomicJson (v : V) : RM V Unit := do
  call .directory
  refuseUncertain
  call .mkstemp
  Prog.write fun d => d.create .temporary
  Prog.lastly (publish v) discard

/-! ## The machine -/

/-- A call: `atomic_json`, `read_json`, the removal of the residue by an operator, or a change of the
directory that gets on the disk. -/
inductive Method (V : Type) where
  | save (v : V)
  | read
  | remove
  | settle

/-- What a call returns: nothing, or a record. -/
inductive Value (V : Type) where
  | none
  | record (v : V)

/-- A call, run. -/
def body : Method V → RM V (Value V)
  | .save v => do
    atomicJson v
    pure .none
  | .read => do
    let v ← readJson
    pure (.record v)
  | .remove => do
    Prog.write fun d => (d.unlink .uncertain).sync
    pure .none
  | .settle => do
    Prog.write Disk.settle
    pure .none

/-- **The record.** It is read at any time, and written by one call at a time. -/
def records (V : Type) : Machine (Store V) Op Answer Exc (Method V) (Value V) where
  body := body
  enter _ ctx m :=
    match m with
    | .save _ | .remove => ctx.isEmpty
    | .read | .settle => true
  crash d := some d.lose

/-- A disk on which the record is `v`, or is absent. -/
def holding (v : Option V) : Store V :=
  match v with
  | none => ⟨[], fun _ => none, fun _ => none, []⟩
  | some v =>
    let D : Directory Name := fun n => if n = .path then some 0 else none
    ⟨[⟨.whole v, true⟩], D, D, []⟩

end Records

end Arhugula
