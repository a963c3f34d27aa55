import Arhugula.Reentrant.Logic

/-!
# What returns owe

What a method is to return is often said of its call as a whole: of the state that it was made in, of the entries that
were logged since, and of the state that it leaves. `Discharges` is such an obligation of the calls of a log. Where every
body meets it, verified under a contract that asks for less than one that is kept, all returns of a run do
(`Contract.returns`).
-/

namespace Reentrant

variable {S Op A ε M V α : Type} {m : Machine S Op A ε M V} {K L : Contract m} {ctx : List (ℕ × Op)} {i : ℕ}
  {w : World S Op A ε M V}

/-- `L` asks for less than `K`. -/
structure Contract.Weaker (L K : Contract m) : Prop where
  inv : ∀ w, K.Inv w → L.Inv w
  rel : ∀ ctx w w', K.Rel ctx w w' → L.Rel ctx w w'

/-- **A body that is verified twice**, once under a contract that asks for less. -/
theorem Holds.both (hL : L.Weaker K) {p : Prog S Op A ε α} {Q Q' : Except ε α → World S Op A ε M V → Prop}
    (h : Holds K ctx i p Q w) (h' : Holds L ctx i p Q' w) : Holds K ctx i p (fun r w' => Q r w' ∧ Q' r w') w := by
  induction p generalizing w with
  | ret a => exact ⟨h, h'⟩
  | fail e => exact ⟨h, h'⟩
  | get k ih => exact ih _ h h'
  | set s k ih => exact ih h h'
  | call op k ih =>
    refine ⟨h.1, fun w' hi hg hr a ha => ?_⟩
    have hafter := h.2 w' hi hg hr a ha
    have hafter' := h'.2 w' (hL.inv w' hi) hg (hL.rel _ _ _ hr) a ha
    exact ih a hafter hafter'

/-- What a call of a method owes: made in a state, it returned a result as an activation, with these entries before it,
and left a state. -/
abbrev Obligation (S Op A ε M V : Type) := M → S → Except ε V → ℕ → List (Entry S Op A ε M V) → S → Prop

/-- **An entry meets an obligation**: where it is a return, its call does. -/
def Discharges (owed : Obligation S Op A ε M V) (e : Entry S Op A ε M V) (older : List (Entry S Op A ε M V)) : Prop :=
  ∀ r, e.act = .ret r → ∀ c ∈ older, c.frame = e.frame → ∀ meth, c.act = .invoke meth →
    owed meth c.st r e.frame older e.st

variable {owed : Obligation S Op A ε M V}

/-- What is no return owes nothing. -/
theorem Discharges.none {e : Entry S Op A ε M V} {older : List (Entry S Op A ε M V)} (h : ∀ r, e.act ≠ .ret r) :
    Discharges owed e older := by
  intro r hr
  exact absurd hr (h r)

/-- A contract, and that all returns meet an obligation. -/
def Contract.owing (K : Contract m) (owed : Obligation S Op A ε M V) : Contract m where
  Inv w := K.Inv w ∧ Throughout (Discharges owed) w.log
  Rel := K.Rel
  refl := K.refl
  trans := K.trans

/-- A body leaves a log whose returns meet the obligation. -/
theorem Holds.owing {p : Prog S Op A ε α} {Q : Except ε α → World S Op A ε M V → Prop} (h : Holds K ctx i p Q w)
    (hw : Throughout (Discharges owed) w.log) :
    Holds (K.owing owed) ctx i p (fun r w' => Q r w' ∧ Throughout (Discharges owed) w'.log) w := by
  induction p generalizing w with
  | ret a => exact ⟨h, hw⟩
  | fail e => exact ⟨h, hw⟩
  | get k ih => exact ih _ h hw
  | set s k ih => exact ih h hw
  | call op k ih =>
    have hcall : Throughout (Discharges owed) (w.push i (.call op)).log := ⟨.none fun r hr => (by cases hr), hw⟩
    refine ⟨⟨h.1, hcall⟩, fun w' hi hg hr a ha => ?_⟩
    have hreply : Throughout (Discharges owed) (w'.push i (.reply op a)).log := ⟨.none fun r hr => (by cases hr), hi.2⟩
    exact ih a (h.2 w' hi.1 hg hr a ha) hreply

/-- **Every call meets its obligation**, where its body is verified for it. -/
theorem Contract.Kept.owing (hK : K.Kept) (hL : L.Weaker K)
    (hbody : ∀ ctx meth w, m.enter w ctx meth → (∀ e ∈ w.log, e.frame < w.next) → K.Inv w →
      Holds L ctx w.next (m.body meth) (fun r w' => owed meth w.st r w.next w'.log w'.st) (w.enter meth)) :
    (K.owing owed).Kept := by
  constructor
  · intro ctx meth w hm hlog hctx hinv
    -- the only call of the new activation is this one
    have hcalled : ∀ e ∈ (w.enter meth).log, e.frame = w.next → ∀ x, e.act = .invoke x → x = meth ∧ e.st = w.st := by
      intro e he hf x hx
      rcases List.mem_cons.1 he with rfl | he
      · cases hx
        exact ⟨rfl, rfl⟩
      · exact absurd hf (hlog e he).ne
    have hold : Throughout (Discharges owed) (w.enter meth).log := ⟨.none fun r hr => (by cases hr), hinv.2⟩
    have hverified := (hK.method ctx meth w hm hlog hctx hinv.1).both hL (hbody ctx meth w hm hlog hinv.1)
    refine ((hverified.invoked (P := fun x s => x = meth ∧ s = w.st) hcalled).owing hold).mono ?_
    rintro r w' ⟨⟨⟨⟨hinv', hrel⟩, howed⟩, hcalls⟩, howes⟩
    refine ⟨⟨hinv', ?_, howes⟩, hrel⟩
    intro r' hr' c hc hf x hx
    cases hr'
    obtain ⟨rfl, hst⟩ := hcalls c hc hf x hx
    rw [hst]
    exact howed
  · intro w s hinv hs
    exact ⟨hK.crash w s hinv.1 hs, .none fun r hr => (by cases hr), hinv.2⟩

/-- **All returns of a run meet their obligation.** -/
theorem Contract.returns (hK : (K.owing owed).Kept) {s : S}
    (h0 : K.Inv (Machine.start s : Config S Op A ε M V).w) {c : Config S Op A ε M V} (h : m.Reachable s c)
    {newer older : List (Entry S Op A ε M V)} {e : Entry S Op A ε M V} (hlog : c.w.log = newer ++ e :: older) :
    Discharges owed e older := by
  have hinv := Contract.sound hK ⟨h0, trivial⟩ h
  have howes := hinv.2
  rw [hlog] at howes
  exact howes.at

end Reentrant
