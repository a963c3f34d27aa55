import Arhugula.Reentrant.Logic
import Arhugula.Spec.Records

/-!
# What a record may be

`Outcome`: what a save that was begun on the disk `k` may leave, in each directory that the disk may come
to have. `RInv`: this holds whatever is under way, and a residue that is on the disk stays there until it
is removed.
-/

namespace Arhugula

namespace Records

open Reentrant Durable

variable {V : Type}

/-- A world of the record. -/
abbrev RWorld (V : Type) := World (Store V) Op Answer Exc (Method V) (Value V)

/-- A log entry of the record. -/
abbrev REntry (V : Type) := Entry (Store V) Op Answer Exc (Method V) (Value V)

/-- A configuration of the record. -/
abbrev RConfig (V : Type) := Config (Store V) Op Answer Exc (Method V) (Value V)

variable {s₀ k d : Store V} {D E : Directory Name} {v : V} {w w' : RWorld V} {log l base : List (REntry V)}
  {e : REntry V} {i : ℕ} {ctx : List (ℕ × Op)} {op : Op} {a : Answer} {m : Method V}

/-! ## What the log says -/

/-- The last call that may change the record, and the disk that it was begun on. -/
def mark : List (REntry V) → Option (Method V × Store V)
  | [] => none
  | e :: log =>
    match e.act with
    | .invoke (.save v) => some (.save v, e.st)
    | .invoke .remove => some (.remove, e.st)
    | _ => mark log

/-- The power was lost since then. -/
def crashed : List (REntry V) → Bool
  | [] => false
  | e :: log =>
    match e.act with
    | .invoke (.save _) | .invoke .remove => false
    | .crash => true
    | _ => crashed log

/-- A quarantine succeeded, and the residue was not removed. -/
def quarantined : List (REntry V) → Bool
  | [] => false
  | e :: log =>
    match e.act with
    | .reply .quarantineSync .ok => true
    | .invoke .remove => false
    | _ => quarantined log

/-- The call of an activation, and the disk that it was begun on. -/
def invoked (i : ℕ) : List (REntry V) → Option (Method V × Store V)
  | [] => none
  | e :: log =>
    match e.act with
    | .invoke m => if e.frame = i then some (m, e.st) else invoked i log
    | _ => invoked i log

/-- What was logged before an activation. -/
def before (i : ℕ) : List (REntry V) → List (REntry V)
  | [] => []
  | e :: log =>
    match e.act with
    | .invoke _ => if e.frame = i then log else before i log
    | _ => before i log

/-- The activation has renamed its temporary file. -/
def Renamed (i : ℕ) (log : List (REntry V)) : Prop := ∃ e ∈ log, e.frame = i ∧ e.act = .reply .replace .ok

/-! ## What the disk holds -/

/-- The record and the residue are the same. -/
structure Alike (d : Store V) (D : Directory Name) (k : Store V) (E : Directory Name) : Prop where
  path : d.text D .path = k.text E .path
  uncertain : d.text D .uncertain = k.text E .uncertain

/-- The directories that may be old: after a loss of power, all that the disk might have come to have. -/
def olds (lost : Bool) (k : Store V) : List (Directory Name) := if lost then k.directories else [k.now]

/-- **What a save of `v` leaves**: the old record, the complete new one, or none, with a residue. -/
def Outcome (lost : Bool) (k : Store V) (v : V) (d : Store V) (D : Directory Name) : Prop :=
  (∃ E ∈ olds lost k, Alike d D k E) ∨
    (d.text D .path = some (.whole v) ∧ d.text D .uncertain = none) ∨
      (d.text D .path = none ∧ d.text D .uncertain = some (.whole v))

/-- **What a directory holds**, after the last call that may have changed it. -/
def Stands (s₀ : Store V) (lost : Bool) (log : List (REntry V)) (d : Store V) (D : Directory Name) : Prop :=
  match mark log with
  | none => ∃ E ∈ olds lost s₀, Alike d D s₀ E
  | some (.save v, k) => Outcome lost k v d D
  | some (_, k) => d.text D .uncertain = none ∧ d.text D .path = k.text k.now .path

/-- What a name names is complete, and on the disk. -/
def Solid (d : Store V) (D : Directory Name) : Prop :=
  ∀ n, n ≠ .temporary → D n = none ∨ ∃ v, d.file D n = some ⟨.whole v, true⟩

theorem olds_mono (h : E ∈ olds false k) : E ∈ k.directories := by
  rw [List.mem_singleton.1 h]
  exact Disk.now_mem

theorem Outcome.lose (h : Outcome false k v d D) : Outcome true k v d D :=
  h.imp_left fun ⟨E, hE, halike⟩ => ⟨E, olds_mono hE, halike⟩

theorem Alike.refl (d : Store V) (D : Directory Name) : Alike d D d D := ⟨rfl, rfl⟩

/-- What rests on the files rests on nothing else. -/
theorem text_congr {d' : Store V} (hf : d'.files = d.files) (n : Name) : d'.text D n = d.text D n := by
  unfold Disk.text Disk.file
  rw [hf]

theorem Outcome.congr {lost : Bool} {d' : Store V} (h : Outcome lost k v d D) (hf : d'.files = d.files) :
    Outcome lost k v d' D := by
  unfold Outcome at h ⊢
  rw [text_congr hf, text_congr hf]
  exact h.imp_left fun ⟨E, hE, ha⟩ => ⟨E, hE, (text_congr hf _).trans ha.path, (text_congr hf _).trans ha.uncertain⟩

theorem Stands.congr {lost : Bool} {d' : Store V} {log' : List (REntry V)} (h : Stands s₀ lost log d D)
    (hf : d'.files = d.files) (hm : mark log' = mark log) : Stands s₀ lost log' d' D := by
  unfold Stands at h ⊢
  rw [hm]
  cases hmark : mark log with
  | none =>
    rw [hmark] at h
    obtain ⟨E, hE, ha⟩ := h
    exact ⟨E, hE, (text_congr hf _).trans ha.path, (text_congr hf _).trans ha.uncertain⟩
  | some x =>
    rw [hmark] at h
    obtain ⟨m, k⟩ := x
    cases m with
    | save v => exact Outcome.congr h hf
    | _ => exact ⟨(text_congr hf _).trans h.1, (text_congr hf _).trans h.2⟩

theorem Solid.congr {d' : Store V} (h : Solid d D) (hf : d'.files = d.files) : Solid d' D := by
  unfold Solid Disk.file at h ⊢
  rw [hf]
  exact h

/-! ## What an entry owes -/

/-- What an entry owes to the entries before it. -/
structure Owes (e : REntry V) (older : List (REntry V)) : Prop where
  refused : ∀ x, e.act = .ret (.ok x) → ∀ m k, invoked e.frame older = some (m, k) →
    (m = .read ∨ ∃ v, m = .save v) → quarantined (before e.frame older) = false
  whole : e.act ≠ .ret (.error .value)
  kept : ∀ x, e.act = .ret (.error x) → ∀ v k, invoked e.frame older = some (.save v, k) →
    ¬ Renamed e.frame older ∨ quarantined (before e.frame older) = true → Alike e.st e.st.now k k.now

/-- **The invariant.** -/
structure RInv (s₀ : Store V) (w : RWorld V) : Prop where
  owes : Throughout Owes w.log
  solid : ∀ D ∈ w.st.directories, Solid w.st D
  stands : ∀ D ∈ w.st.directories, Stands s₀ true w.log w.st D
  visible : crashed w.log = false → Stands s₀ false w.log w.st w.st.now
  residue : quarantined w.log = true → ∀ D ∈ w.st.directories, (D .uncertain).isSome = true

/-- **What may happen while a call is under way**: changes of the directory get on the disk. -/
structure Steady (w w' : RWorld V) : Prop where
  now : w'.st.now = w.st.now
  files : w'.st.files = w.st.files
  directories : ∀ D ∈ w'.st.directories, D ∈ w.st.directories
  mark : mark w'.log = mark w.log
  crashed : crashed w'.log = crashed w.log
  quarantined : quarantined w'.log = quarantined w.log

theorem Steady.refl (w : RWorld V) : Steady w w := ⟨rfl, rfl, fun _ h => h, rfl, rfl, rfl⟩

theorem Steady.trans {w'' : RWorld V} (h : Steady w w') (h' : Steady w' w'') : Steady w w'' :=
  ⟨h'.now.trans h.now, h'.files.trans h.files, fun D hD => h.directories D (h'.directories D hD),
    h'.mark.trans h.mark, h'.crashed.trans h.crashed, h'.quarantined.trans h.quarantined⟩

/-- **The contract of the record.** -/
def recordsContract (s₀ : Store V) : Contract (records V) where
  Inv := RInv s₀
  Rel ctx w w' := ctx ≠ [] → Steady w w'
  refl _ w := fun _ => .refl w
  trans h h' := fun hc => (h hc).trans (h' hc)

/-! ## The log of an activation -/

theorem invoked_append (h : ∀ e ∈ l, e.frame = i → ∀ m, e.act ≠ .invoke m) : invoked i (l ++ log) = invoked i log := by
  induction l with
  | nil => rfl
  | cons e l ih =>
    have hrest := ih fun e' he' => h e' (List.mem_cons_of_mem e he')
    cases hact : e.act with
    | invoke m =>
      have hne : e.frame ≠ i := fun hf => h e List.mem_cons_self hf m hact
      simpa only [List.cons_append, invoked, hact, if_neg hne] using hrest
    | _ => simpa only [List.cons_append, invoked, hact] using hrest

theorem before_append (h : ∀ e ∈ l, e.frame = i → ∀ m, e.act ≠ .invoke m) : before i (l ++ log) = before i log := by
  induction l with
  | nil => rfl
  | cons e l ih =>
    have hrest := ih fun e' he' => h e' (List.mem_cons_of_mem e he')
    cases hact : e.act with
    | invoke m =>
      have hne : e.frame ≠ i := fun hf => h e List.mem_cons_self hf m hact
      simpa only [List.cons_append, before, hact, if_neg hne] using hrest
    | _ => simpa only [List.cons_append, before, hact] using hrest

/-- What is under way: the activation, its call, and what was logged before it. -/
structure Under (i : ℕ) (m : Method V) (k : Store V) (base : List (REntry V)) (log : List (REntry V)) : Prop where
  invoked : invoked i log = some (m, k)
  before : before i log = base

theorem Under.grow (h : Under i m k base log) (hl : ∀ e ∈ l, e.frame = i → ∀ m, e.act ≠ .invoke m) :
    Under i m k base (l ++ log) :=
  ⟨(invoked_append hl).trans h.invoked, (before_append hl).trans h.before⟩

theorem Under.grows (h : Under i m k base w.log) (hg : Grows i w w') : Under i m k base w'.log := by
  obtain ⟨-, l, hl, hf⟩ := hg
  rw [hl]
  refine h.grow fun e he hfe => ?_
  have hlt := hf e he
  rw [hfe] at hlt
  exact absurd hlt (lt_irrefl i)

/-- An act of the activation itself. -/
theorem Under.push (h : Under i m k base w.log) {x : Act Op Answer Exc (Method V) (Value V)}
    (hx : ∀ m, x ≠ .invoke m) : Under i m k base (w.push i x).log := by
  refine h.grow (l := [⟨i, x, w.st⟩]) fun e he _ m => ?_
  rw [List.mem_singleton.1 he]
  exact hx m

theorem Under.enter (w : RWorld V) (m : Method V) : Under w.next m w.st w.log (w.enter m).log :=
  ⟨if_pos rfl, if_pos rfl⟩

theorem Renamed.grow (h : Renamed i log) : Renamed i (l ++ log) := by
  obtain ⟨e, he, hr⟩ := h
  exact ⟨e, List.mem_append_right l he, hr⟩

/-! ## Entries that say nothing of the record -/

/-- An act that no part of the invariant reads. -/
def Silent (x : Act Op Answer Exc (Method V) (Value V)) : Prop :=
  match x with
  | .invoke (.save _) | .invoke .remove | .crash => False
  | .reply .quarantineSync .ok => False
  | _ => True

theorem silent_log {x : Act Op Answer Exc (Method V) (Value V)} (hx : Silent x) (s : Store V) :
    mark (⟨i, x, s⟩ :: log) = mark log ∧ crashed (⟨i, x, s⟩ :: log) = crashed log ∧
      quarantined (⟨i, x, s⟩ :: log) = quarantined log := by
  cases x with
  | invoke m =>
    cases m with
    | save v => cases hx
    | remove => cases hx
    | read => exact ⟨rfl, rfl, rfl⟩
    | settle => exact ⟨rfl, rfl, rfl⟩
  | reply op a =>
    refine ⟨rfl, rfl, ?_⟩
    cases op <;> first | rfl | (cases a <;> first | rfl | cases hx)
  | crash => cases hx
  | call op => exact ⟨rfl, rfl, rfl⟩
  | ret r => exact ⟨rfl, rfl, rfl⟩

theorem Steady.push {x : Act Op Answer Exc (Method V) (Value V)} (hx : Silent x) : Steady w (w.push i x) := by
  obtain ⟨hmark, hcrashed, hquarantined⟩ := @silent_log _ w.log i x hx w.st
  exact ⟨rfl, rfl, fun _ h => h, hmark, hcrashed, hquarantined⟩

/-- What is neither a return nor read by the invariant. -/
theorem RInv.push (h : RInv s₀ w) {x : Act Op Answer Exc (Method V) (Value V)} (hx : Silent x)
    (ho : Owes ⟨i, x, w.st⟩ w.log) : RInv s₀ (w.push i x) := by
  obtain ⟨hmark, hcrashed, hquarantined⟩ := @silent_log _ w.log i x hx w.st
  refine ⟨⟨ho, h.owes⟩, h.solid, fun D hD => (h.stands D hD).congr rfl hmark, fun hc => ?_, fun hq => ?_⟩
  · rw [World.push_log, hcrashed] at hc
    exact (h.visible hc).congr rfl hmark
  · rw [World.push_log, hquarantined] at hq
    exact h.residue hq

theorem owes_call (op : Op) (s : Store V) : Owes (⟨i, .call op, s⟩ : REntry V) log :=
  ⟨fun x hx => (by cases hx), fun hx => (by cases hx), fun x hx => (by cases hx)⟩

theorem owes_reply (op : Op) (a : Answer) (s : Store V) : Owes (⟨i, .reply op a, s⟩ : REntry V) log :=
  ⟨fun x hx => (by cases hx), fun hx => (by cases hx), fun x hx => (by cases hx)⟩

theorem owes_invoke (m : Method V) (s : Store V) : Owes (⟨i, .invoke m, s⟩ : REntry V) log :=
  ⟨fun x hx => (by cases hx), fun hx => (by cases hx), fun x hx => (by cases hx)⟩

/-! ## System calls -/

/-- What a system call gives. -/
def Answer.result : Answer → Except Exc Unit
  | .ok => .ok ()
  | .os => .error .os
  | .exception => .error .exception
  | .interrupt => .error .interrupt

/-- **A system call.** -/
theorem holds_call {Q : Except Exc Unit → RWorld V → Prop} (h : RInv s₀ (w.push i (.call op)))
    (hq : ∀ w', RInv s₀ w' → Grows i (w.push i (.call op)) w' → Steady (w.push i (.call op)) w' →
      ∀ a, Q a.result (w'.push i (.reply op a))) :
    Holds (recordsContract s₀) ctx i (call op) Q w := by
  unfold call
  rw [holds_bind, holds_ask]
  refine ⟨h, fun w' hi hg hr a _ => ?_⟩
  have hend := hq w' hi hg (hr (List.cons_ne_nil _ _)) a
  cases a <;> exact hend

end Records

end Arhugula
