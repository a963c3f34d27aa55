import Arhugula.Reentrant.Keeps

/-!
# Records that are saved by replacement

`Slot` is what a record's path holds, as its readers see it: nothing, a value, or nothing with a residue of
a replacement that may not have got on the disk. `Saver.save` replaces it: what is done before the rename is
one callback, the sync of the directory one, and the quarantine one. `Saver.holds_save` is its rule.
-/

namespace Durable

open Reentrant

variable {S Op A ε M V W α : Type}

/-- What a path holds. -/
inductive Slot (W : Type) where
  | absent
  | holding (v : W)
  | uncertain
  deriving DecidableEq

/-- **What a save of `v` leaves**, where it succeeds and where it fails. -/
inductive Slot.Saves (old : Slot W) (v : W) : Bool → Slot W → Prop where
  | done : Saves old v true (.holding v)
  | kept : Saves old v false old
  | placed : Saves old v false (.holding v)
  | moved : Saves old v false .uncertain

/-- The callbacks of a save, and the field that it is about. -/
structure Saver (S Op A ε W : Type) where
  slot : S → Slot W
  put : S → Slot W → S
  replace : W → Op
  sync : Op
  quarantine : Op
  raised : A → Option ε
  refused : ε

namespace Saver

variable (c : Saver S Op A ε W)

/-- A callback, what it raises raised. -/
def call (op : Op) : Prog S Op A ε Unit := do
  match c.raised (← Prog.ask op) with
  | none => pure ()
  | some e => .fail e

/-- A replacement that is not known to be on the disk is moved away. -/
def unacknowledged (e : ε) : Prog S Op A ε Unit := do
  c.call c.quarantine
  Prog.write fun s => c.put s .uncertain
  .fail e

/-- **A save.** A residue refuses it. -/
def save (v : W) : Prog S Op A ε Unit := do
  match ← Prog.read c.slot with
  | .uncertain => .fail c.refused
  | _ => do
    c.call (c.replace v)
    Prog.write fun s => c.put s (.holding v)
    (c.call c.sync).catching c.unacknowledged

variable {c} {m : Machine S Op A ε M V} {K : Contract m} {ctx : List (ℕ × Op)} {i : ℕ} {op : Op}
  {L : Slot W → World S Op A ε M V → Prop} {w : World S Op A ε M V} {s : Slot W} {v : W}

/-- A callback that an assertion survives. -/
theorem keeps_call {P : World S Op A ε M V → Prop} (h : Survives K ctx i P op) :
    Keeps K ctx i P (c.call op) fun _ => True := by
  unfold call
  refine (keeps_ask h).bind fun a _ => ?_
  cases c.raised a with
  | none => exact keeps_pure trivial
  | some e => exact keeps_fail

/-- **The rule of a save**: an assertion of the slot that survives its callbacks and its two writes. -/
theorem holds_save (hslot : ∀ {s w}, L s w → c.slot w.st = s)
    (hcall : ∀ s op, op = c.replace v ∨ op = c.sync ∨ op = c.quarantine → Survives K ctx i (L s) op)
    (hput : ∀ {s s' w}, L s w → s' = .holding v ∨ s' = .uncertain → L s' (w.put (c.put w.st s')))
    (hw : L s w) :
    Holds K ctx i (c.save v) (fun r w' => ∃ s', L s' w' ∧ s.Saves v r.isOk s') w := by
  have hsave : Holds K ctx i (do
      c.call (c.replace v)
      Prog.write fun s => c.put s (.holding v)
      (c.call c.sync).catching c.unacknowledged) (fun r w' => ∃ s', L s' w' ∧ s.Saves v r.isOk s') w := by
    refine (keeps_call (hcall s _ (.inl rfl))).seq hw (fun _ w₁ h₁ _ => ?_) fun e w₁ h₁ => ⟨s, h₁, .kept⟩
    rw [holds_bind, holds_write]
    have h₂ := hput h₁ (.inl rfl)
    refine (keeps_call (hcall _ _ (.inr (.inl rfl)))).handle h₂ (fun _ w₃ h₃ _ => ⟨_, h₃, .done⟩) fun e w₃ h₃ => ?_
    unfold unacknowledged
    refine (keeps_call (hcall _ _ (.inr (.inr rfl)))).seq h₃ (fun _ w₄ h₄ _ => ?_) fun e w₄ h₄ => ⟨_, h₄, .placed⟩
    rw [holds_bind, holds_write]
    exact ⟨_, hput h₄ (.inr rfl), .moved⟩
  unfold save
  rw [holds_bind, holds_read]
  dsimp only
  rw [hslot hw]
  cases s with
  | uncertain => exact ⟨.uncertain, hw, .kept⟩
  | absent => exact hsave
  | holding v' => exact hsave

end Saver

end Durable
