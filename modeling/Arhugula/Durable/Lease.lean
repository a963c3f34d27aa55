import Arhugula.Reentrant.Keeps

/-!
# Exclusive leases

`Lease.during p` takes a kernel lease, runs `p`, and gives the lease back whether `p` returns or raises. It
does not wait: where another holds the lease it raises.
-/

namespace Durable

open Reentrant

variable {S Op A ε M V α : Type}

/-- A lease: whether it is held, how it is taken and given back, and the callback that opens its file. -/
structure Lease (S Op A ε : Type) where
  held : S → Bool
  put : S → Bool → S
  lock : Op
  raised : A → Option ε
  conflict : ε

namespace Lease

variable (c : Lease S Op A ε)

/-- `with Lease(...)`. -/
def during (p : Prog S Op A ε α) : Prog S Op A ε α := do
  match c.raised (← Prog.ask c.lock) with
  | some e => .fail e
  | none =>
    if ← Prog.read c.held then .fail c.conflict
    else do
      Prog.write fun s => c.put s true
      p.lastly (Prog.write fun s => c.put s false)

variable {c} {m : Machine S Op A ε M V} {K : Contract m} {ctx : List (ℕ × Op)} {i : ℕ} {p : Prog S Op A ε α}
  {Q : Except ε α → World S Op A ε M V → Prop} {w : World S Op A ε M V}

/-- **The rule of a lease**: its file is opened, it is free, and it is given back. -/
theorem holds_during (hcall : K.Inv (w.push i (.call c.lock)))
    (hrest : ∀ w', K.Inv w' → Grows i (w.push i (.call c.lock)) w' → K.Rel ((i, c.lock) :: ctx) (w.push i (.call c.lock)) w' →
      ∀ a, m.legal w' c.lock a → (∀ e, Q (.error e) (w'.push i (.reply c.lock a))) ∧
        (c.held w'.st = false → Holds K ctx i p (fun r w'' => Q r (w''.put (c.put w''.st false)))
          ((w'.push i (.reply c.lock a)).put (c.put w'.st true)))) :
    Holds K ctx i (c.during p) Q w := by
  unfold during
  rw [holds_bind, holds_ask]
  refine ⟨hcall, fun w' hi hg hr a ha => ?_⟩
  obtain ⟨herr, hgo⟩ := hrest w' hi hg hr a ha
  dsimp only
  cases hraised : c.raised a with
  | some e => exact herr e
  | none =>
    dsimp only
    rw [holds_bind, holds_read]
    dsimp only [World.push_st]
    cases hheld : c.held w'.st with
    | true => exact herr c.conflict
    | false =>
      show Holds K ctx i (_ >>= fun _ => p.lastly _) Q _
      rw [holds_bind, holds_write]
      dsimp only
      rw [holds_lastly]
      exact hgo hheld

end Lease

end Durable
