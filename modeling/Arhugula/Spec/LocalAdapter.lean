import Mathlib.Data.Finset.Insert
import Mathlib.Data.Finset.Dedup
import Arhugula.Sequence.Fields
import Arhugula.Spec.Strings

/-!
# Dirty paths (`ops/orchestration/local.py`)

What `LocalAdapter.dirty` reads off the output of `git status --porcelain=v1 -z --untracked-files=all`. The output is
the text that `git` wrote, decoded; `communicate` translates its line ends, as `text=True` asks for.
-/

namespace Arhugula

namespace Local

open Strings

/-- What is raised: `Stop`, with its reason, or what `next` raises where there is no record left. -/
inductive Exc where
  | stop (reason : Text)
  | stopIteration
  deriving DecidableEq

/-- `CompletedProcess`, without its arguments. -/
structure Completed where
  returncode : ℤ
  stdout : Text
  stderr : Text
  deriving DecidableEq

/-- `data.replace("\r\n", "\n")`. -/
def joinBreaks : Text → Text
  | '\r' :: '\n' :: t => '\n' :: joinBreaks t
  | c :: t => c :: joinBreaks t
  | [] => []

/-- `data.replace("\r\n", "\n").replace("\r", "\n")`: what a pipe that is read as text returns. -/
def translateNewlines (t : Text) : Text := (joinBreaks t).map fun c => if c = '\r' then '\n' else c

/-- `command`, of a process that ended and wrote this. -/
def command (p : Completed) : Completed :=
  ⟨p.returncode, translateNewlines p.stdout, translateNewlines p.stderr⟩

/-- `LocalAdapter.checked`, of the arguments as `shlex.join` writes them. -/
def checked (argv : Text) (p : Completed) : Except Exc Text :=
  let result := command p
  if result.returncode ≠ 0 then
    .error (.stop ("command-failed: ".toList ++ argv ++ ": ".toList ++ strip result.stderr))
  else .ok result.stdout

/-- The arguments of `dirty`. -/
def statusArgv : Text := "git status --porcelain=v1 -z --untracked-files=all".toList

/-- `{"R", "C"} & set(record[:2])`. -/
def moves (record : Text) : Bool := (record.take 2).any fun c => c = 'R' || c = 'C'

/-- The loop of `dirty`, with the paths so far. -/
def collect (paths : Finset Text) : List Text → Except Exc (Finset Text)
  | [] => .ok paths
  | record :: records =>
    let paths := insert (record.drop 3) paths
    if moves record then
      match records with
      | [] => .error .stopIteration
      | source :: records => collect (insert source paths) records
    else collect paths records

/-- `LocalAdapter.dirty`, of what `git` did. -/
def dirty (p : Completed) : Except Exc (Finset Text) := do
  let stdout ← checked statusArgv p
  collect ∅ (stdout.splitOn '\x00').dropLast

/-! ## Records of porcelain v1 -/

/-- A letter of a status. -/
inductive Letter where
  | unmodified | modified | typeChanged | added | deleted | renamed | copied | unmerged | untracked | ignored
  deriving DecidableEq, Repr

namespace Letter

/-- The letter. -/
def char : Letter → Char
  | unmodified => ' '
  | modified => 'M'
  | typeChanged => 'T'
  | added => 'A'
  | deleted => 'D'
  | renamed => 'R'
  | copied => 'C'
  | unmerged => 'U'
  | untracked => '?'
  | ignored => '!'

/-- A second path follows. -/
def moved (l : Letter) : Bool := l = renamed || l = copied

end Letter

/-- A record: two letters, a path, and for a rename or a copy its source. No path has a NUL. -/
structure Entry where
  index : Letter
  worktree : Letter
  path : Text
  source : Option Text
  sourced : source.isSome = (index.moved || worktree.moved)
  path_text : '\x00' ∉ path
  source_text : ∀ s, source = some s → '\x00' ∉ s

namespace Entry

/-- The paths that a record names. -/
def names (e : Entry) : List Text := e.path :: e.source.toList

/-- What `-z` writes of a record: a field, or two. -/
def fields (e : Entry) : List Text := (e.index.char :: e.worktree.char :: ' ' :: e.path) :: e.source.toList

end Entry

/-- What `-z` writes: each field ends with a NUL. -/
def serialise (entries : List Entry) : Text := Sequence.terminated '\x00' (entries.flatMap Entry.fields)

/-- All the paths that are named. -/
def named (entries : List Entry) : Finset Text := (entries.flatMap Entry.names).toFinset

end Local

end Arhugula
