import Arhugula.Reentrant.Logic

/-!
# Assertions that survive a body

`Keeps K ctx i L p P`: a body `p` of activation `i`, run from a world in `L`, ends in
a world in `L`, and returns a value in `P` if it returns. With one assertion `L` for
a stretch of code, each callback and each write in it is checked once (`Survives`,
`keeps_write`), and the rules below do the rest.
-/

namespace Reentrant

variable {S Op A ε M V α β : Type} {m : Machine S Op A ε M V} (K : Contract m)

/-- Run from `L`, the body ends in `L`, with a value in `P`. -/
def Keeps (ctx : List (ℕ × Op)) (i : ℕ) (L : World S Op A ε M V → Prop) (p : Prog S Op A ε α)
    (P : α → Prop) : Prop :=
  ∀ w, L w → Holds K ctx i p (fun r w' => L w' ∧ ∀ a, r = .ok a → P a) w

/-- The invariant holds at a callback made in `L`, and `L` holds again after it. -/
def Survives (ctx : List (ℕ × Op)) (i : ℕ) (L : World S Op A ε M V → Prop) (op : Op) : Prop :=
  ∀ w, L w → K.Inv (w.push i (.call op)) ∧
    ∀ w', K.Inv w' → Grows i (w.push i (.call op)) w' → K.Rel ((i, op) :: ctx) (w.push i (.call op)) w' →
      ∀ a, m.legal w' op a → L (w'.push i (.reply op a))

variable {K} {ctx : List (ℕ × Op)} {i : ℕ} {L : World S Op A ε M V → Prop}
  {p : Prog S Op A ε α} {P : α → Prop} {w : World S Op A ε M V}

/-- Use of a kept assertion in a larger body. -/
theorem Keeps.holds {Q : Except ε α → World S Op A ε M V → Prop} (h : Keeps K ctx i L p P) (hw : L w)
    (hok : ∀ a w', L w' → P a → Q (.ok a) w') (herr : ∀ e w', L w' → Q (.error e) w') :
    Holds K ctx i p Q w := by
  refine (h w hw).mono fun r w' hr => ?_
  cases r with
  | ok a => exact hok a w' hr.1 (hr.2 a rfl)
  | error e => exact herr e w' hr.1

/-- Use of a kept assertion before the rest of a body. -/
theorem Keeps.seq {f : α → Prog S Op A ε β} {Q : Except ε β → World S Op A ε M V → Prop}
    (h : Keeps K ctx i L p P) (hw : L w) (hok : ∀ a w', L w' → P a → Holds K ctx i (f a) Q w')
    (herr : ∀ e w', L w' → Q (.error e) w') : Holds K ctx i (p >>= f) Q w :=
  holds_bind.2 (h.holds hw hok herr)

/-- Use of a kept assertion under an exception handler. -/
theorem Keeps.handle {h : ε → Prog S Op A ε α} {Q : Except ε α → World S Op A ε M V → Prop}
    (hp : Keeps K ctx i L p P) (hw : L w) (hok : ∀ a w', L w' → P a → Q (.ok a) w')
    (herr : ∀ e w', L w' → Holds K ctx i (h e) Q w') : Holds K ctx i (p.catching h) Q w :=
  holds_catching.2 (hp.holds hw hok herr)

theorem Keeps.weaken {P' : α → Prop} (h : Keeps K ctx i L p P) (hP : ∀ a, P a → P' a) :
    Keeps K ctx i L p P' :=
  fun w hw => h.holds hw (fun a w' hl ha => ⟨hl, fun b hb => by cases hb; exact hP a ha⟩)
    (fun e w' hl => ⟨hl, fun b hb => by cases hb⟩)

theorem keeps_pure {a : α} (ha : P a) : Keeps K ctx i L (pure a) P :=
  fun w hw => ⟨hw, fun b hb => by cases hb; exact ha⟩

theorem keeps_throw {e : ε} : Keeps K ctx i L (throw e : Prog S Op A ε α) P :=
  fun w hw => ⟨hw, fun b hb => by cases hb⟩

theorem keeps_fail {e : ε} : Keeps K ctx i L (.fail e : Prog S Op A ε α) P := keeps_throw

theorem keeps_read {f : S → α} (hf : ∀ w, L w → P (f w.st)) : Keeps K ctx i L (Prog.read f) P :=
  fun w hw => ⟨hw, fun b hb => by cases hb; exact hf w hw⟩

theorem keeps_write {f : S → S} (hf : ∀ w, L w → L (w.put (f w.st))) :
    Keeps K ctx i L (Prog.write f) (fun _ => True) :=
  fun w hw => ⟨hf w hw, fun _ _ => trivial⟩

theorem keeps_ask {op : Op} (h : Survives K ctx i L op) :
    Keeps K ctx i L (Prog.ask op) (fun _ => True) := by
  intro w hw
  obtain ⟨hinv, hnext⟩ := h w hw
  exact ⟨hinv, fun w' hi hg hr a ha => ⟨hnext w' hi hg hr a ha, fun _ _ => trivial⟩⟩

theorem Keeps.bind {f : α → Prog S Op A ε β} {P' : β → Prop} (h : Keeps K ctx i L p P)
    (hf : ∀ a, P a → Keeps K ctx i L (f a) P') : Keeps K ctx i L (p >>= f) P' :=
  fun w hw => h.seq hw (fun a w' hl ha => hf a ha w' hl)
    (fun e w' hl => ⟨hl, fun b hb => by cases hb⟩)

theorem Keeps.map {f : α → β} {P' : β → Prop} (h : Keeps K ctx i L p P) (hf : ∀ a, P a → P' (f a)) :
    Keeps K ctx i L (f <$> p) P' :=
  h.bind fun a ha => keeps_pure (hf a ha)

theorem Keeps.catching {h : ε → Prog S Op A ε α} (hp : Keeps K ctx i L p P)
    (hh : ∀ e, Keeps K ctx i L (h e) P) : Keeps K ctx i L (p.catching h) P :=
  fun w hw => hp.handle hw (fun a w' hl ha => ⟨hl, fun b hb => by cases hb; exact ha⟩)
    (fun e w' hl => hh e w' hl)

theorem Keeps.lastly {c : Prog S Op A ε Unit} (hp : Keeps K ctx i L p P)
    (hc : Keeps K ctx i L c (fun _ => True)) : Keeps K ctx i L (p.lastly c) P := by
  intro w hw
  rw [holds_lastly]
  refine (hp w hw).mono fun r w' h' => (hc w' h'.1).mono fun rc w'' h'' => ?_
  cases rc with
  | ok _ => exact ⟨h''.1, h'.2⟩
  | error e => exact ⟨h''.1, fun b hb => by cases hb⟩

theorem Keeps.ite {c : Prop} [Decidable c] {q : Prog S Op A ε α} (hp : c → Keeps K ctx i L p P)
    (hq : ¬ c → Keeps K ctx i L q P) : Keeps K ctx i L (if c then p else q) P := by
  by_cases hc : c
  · rw [if_pos hc]; exact hp hc
  · rw [if_neg hc]; exact hq hc

end Reentrant
