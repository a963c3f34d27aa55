import Mathlib.Data.List.Basic
import Mathlib.Tactic.Common

/-!
# Disks that lose power

A directory names files. A change of the directory, or of the bytes of a file, is seen at once and is on
the disk later: the bytes of a file once it was synced, the changes of the directory in their order, all
of them once the directory was synced. A loss of power leaves what is on the disk.
-/

namespace Durable

/-- The bytes of a file: those of a value, or of none. -/
inductive Content (V : Type) where
  | whole (v : V)
  | torn
  deriving DecidableEq

/-- A file, and whether its bytes are on the disk. -/
structure File (V : Type) where
  content : Content V
  synced : Bool
  deriving DecidableEq

/-- The files that the names of a directory name. -/
abbrev Directory (N : Type) := N → Option ℕ

/-- **A disk**: its files, its directory as it is seen, as it is on the disk, and as the changes since then
have made it, the earliest first. -/
structure Disk (N V : Type) where
  files : List (File V)
  now : Directory N
  kept : Directory N
  since : List (Directory N)

variable {N V : Type}

namespace Disk

variable (d : Disk N V)

/-- Every directory that the disk may come to have, without another change. -/
def directories : List (Directory N) := d.now :: d.kept :: d.since

/-- The file of a name. -/
def file (D : Directory N) (n : N) : Option (File V) := (D n).bind fun k => d.files[k]?

/-- The bytes of a name. -/
def text (D : Directory N) (n : N) : Option (Content V) := (d.file D n).map File.content

/-- A change of the directory. -/
def change (f : Directory N → Directory N) : Disk N V := { d with now := f d.now, since := d.since ++ [f d.now] }

/-- A new file. -/
def create [DecidableEq N] (n : N) : Disk N V :=
  change { d with files := d.files ++ [⟨.torn, false⟩] } fun D => Function.update D n (some d.files.length)

/-- A change of the file of a name. -/
def modify (n : N) (f : File V → File V) : Disk N V :=
  match d.now n with
  | some k => { d with files := d.files.modify k f }
  | none => d

/-- `os.replace`. -/
def rename [DecidableEq N] (n n' : N) : Disk N V := d.change fun D => Function.update (Function.update D n' (D n)) n none

/-- `os.unlink`. -/
def unlink [DecidableEq N] (n : N) : Disk N V := d.change fun D => Function.update D n none

/-- `os.fsync` of the directory. -/
def sync : Disk N V := { d with kept := d.now, since := [] }

/-- One change of the directory gets on the disk. -/
def settle : Disk N V :=
  match d.since with
  | [] => d
  | D :: since => { d with kept := D, since := since }

/-- A loss of power. -/
def lose : Disk N V :=
  { files := d.files.map fun f => if f.synced then f else ⟨.torn, false⟩, now := d.kept, kept := d.kept, since := [] }

/-! ## What each operation does to the directories -/

variable {d} {D : Directory N} {n n' : N} {f : Directory N → Directory N}

theorem now_mem : d.now ∈ d.directories := List.mem_cons_self

theorem mem_directories : D ∈ d.directories ↔ D = d.now ∨ D = d.kept ∨ D ∈ d.since := by
  simp only [directories, List.mem_cons]

theorem mem_change (h : D ∈ (d.change f).directories) : D ∈ d.directories ∨ D = f d.now := by
  rcases mem_directories.1 h with rfl | rfl | h
  · exact .inr rfl
  · exact .inl (mem_directories.2 (.inr (.inl rfl)))
  · rcases List.mem_append.1 h with h | h
    · exact .inl (mem_directories.2 (.inr (.inr h)))
    · exact .inr (List.mem_singleton.1 h)

theorem mem_sync (h : D ∈ d.sync.directories) : D = d.now := by
  rcases mem_directories.1 h with rfl | rfl | h
  · rfl
  · rfl
  · cases h

theorem mem_settle (h : D ∈ d.settle.directories) : D ∈ d.directories := by
  unfold settle at h
  cases hs : d.since with
  | nil =>
    rw [hs] at h
    exact h
  | cons E since =>
    rw [hs] at h
    rcases mem_directories.1 h with rfl | rfl | h
    · exact now_mem
    · exact mem_directories.2 (.inr (.inr (by rw [hs]; exact List.mem_cons_self)))
    · exact mem_directories.2 (.inr (.inr (by rw [hs]; exact List.mem_cons_of_mem _ h)))

theorem mem_lose (h : D ∈ d.lose.directories) : D = d.kept := by
  rcases mem_directories.1 h with rfl | rfl | h
  · rfl
  · rfl
  · cases h

theorem kept_mem : d.kept ∈ d.directories := mem_directories.2 (.inr (.inl rfl))

@[simp] theorem change_now : (d.change f).now = f d.now := rfl
@[simp] theorem change_files : (d.change f).files = d.files := rfl
@[simp] theorem sync_now : d.sync.now = d.now := rfl
@[simp] theorem sync_files : d.sync.files = d.files := rfl
@[simp] theorem lose_now : d.lose.now = d.kept := rfl

@[simp] theorem settle_now : d.settle.now = d.now := by
  unfold settle
  cases d.since <;> rfl

@[simp] theorem settle_files : d.settle.files = d.files := by
  unfold settle
  cases d.since <;> rfl

@[simp] theorem rename_files [DecidableEq N] : (d.rename n n').files = d.files := rfl
@[simp] theorem unlink_files [DecidableEq N] : (d.unlink n).files = d.files := rfl

theorem modify_directories {g : File V → File V} : (d.modify n g).directories = d.directories := by
  unfold modify
  cases d.now n <;> rfl

@[simp] theorem modify_now {g : File V → File V} : (d.modify n g).now = d.now := by
  unfold modify
  cases d.now n <;> rfl

/-! ## What each operation does to the files -/

/-- A file that was synced survives a loss of power. -/
theorem file_lose {x : File V} (h : d.file D n = some x) (hs : x.synced = true) : d.lose.file D n = some x := by
  unfold file at h ⊢
  obtain ⟨k, hk, hx⟩ := Option.bind_eq_some_iff.1 h
  rw [hk]
  show (d.files.map _)[k]? = some x
  rw [List.getElem?_map, hx]
  show some (if x.synced then x else _) = some x
  rw [if_pos hs]

/-- A new file is no other one. -/
theorem file_create [DecidableEq N] {x : File V} (h : d.file D n' = some x) : (d.create n).file D n' = some x := by
  unfold file at h ⊢
  obtain ⟨k, hk, hx⟩ := Option.bind_eq_some_iff.1 h
  rw [hk]
  show (d.files ++ [⟨.torn, false⟩])[k]? = some x
  rw [List.getElem?_append_left (List.getElem?_eq_some_iff.1 hx).1]
  exact hx

/-- A change of the last file. -/
theorem modify_last (xs : List (File V)) (x : File V) (g : File V → File V) :
    (xs ++ [x]).modify xs.length g = xs ++ [g x] := by
  induction xs with
  | nil => rfl
  | cons y xs ih =>
    show y :: (xs ++ [x]).modify xs.length g = y :: (xs ++ [g x])
    rw [ih]

/-- A change of a file leaves the others. -/
theorem file_modify {g : File V → File V} (h : ∀ k, d.now n = some k → D n' ≠ some k) :
    (d.modify n g).file D n' = d.file D n' := by
  unfold modify file
  cases hn : d.now n with
  | none => rfl
  | some k =>
    cases hk : D n' with
    | none => rfl
    | some j =>
      have hne : k ≠ j := by
        rintro rfl
        exact h k hn hk
      show (d.files.modify k g)[j]? = d.files[j]?
      rw [List.getElem?_modify]
      simp only [if_neg hne]
      exact Option.map_id'

end Disk

end Durable
