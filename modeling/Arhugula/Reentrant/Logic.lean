import Arhugula.Reentrant.Machine

/-!
# Verifying methods with re-entrant callbacks

A `Contract` for a machine has an invariant `Inv`, which holds at every callback
and every return, and a relation `Rel ctx`, which says what one complete method
call made while the callbacks `ctx` are pending may do to the world.

`Holds K ctx i p Q w`: activation `i`, called while `ctx` were pending, runs `p`
from `w` so that `Inv` holds at each of its callbacks and `Q` at its end, whatever
complete method calls the environment makes at each callback, provided these keep
the contract. If every method keeps the contract in this sense (`Contract.Kept`)
then the invariant holds in every reachable configuration (`Contract.sound`): the
assumption about nested calls is discharged by the induction over the run.
-/

namespace Reentrant

variable {S Op A ε M V α β : Type}

/-- From `w` to `w'` the log grew, by activations later than `i` only. -/
def Grows (i : ℕ) (w w' : World S Op A ε M V) : Prop :=
  w.next ≤ w'.next ∧ ∃ new, w'.log = new ++ w.log ∧ ∀ e ∈ new, i < e.frame

theorem Grows.refl (i : ℕ) (w : World S Op A ε M V) : Grows i w w := ⟨le_rfl, [], rfl, by simp⟩

theorem Grows.trans {i : ℕ} {a b c : World S Op A ε M V} (h : Grows i a b) (h' : Grows i b c) :
    Grows i a c := by
  obtain ⟨hn, l, hl, hf⟩ := h
  obtain ⟨hn', l', hl', hf'⟩ := h'
  refine ⟨hn.trans hn', l' ++ l, by rw [hl', hl, List.append_assoc], fun e he => ?_⟩
  rcases List.mem_append.1 he with he | he
  · exact hf' e he
  · exact hf e he

theorem Grows.mono {i j : ℕ} {a b : World S Op A ε M V} (hij : j ≤ i) (h : Grows i a b) :
    Grows j a b := by
  obtain ⟨hn, l, hl, hf⟩ := h
  exact ⟨hn, l, hl, fun e he => lt_of_le_of_lt hij (hf e he)⟩

theorem Grows.mem {i : ℕ} {a b : World S Op A ε M V} (h : Grows i a b) {e : Entry S Op A ε M V}
    (he : e ∈ a.log) : e ∈ b.log := by
  obtain ⟨-, l, hl, -⟩ := h
  rw [hl]; exact List.mem_append_right _ he

theorem Grows.push {i j : ℕ} {a b : World S Op A ε M V} (h : Grows i a b) (hj : i < j)
    (x : Act Op A ε M V) : Grows i a (b.push j x) := by
  obtain ⟨hn, l, hl, hf⟩ := h
  refine ⟨hn, ⟨j, x, b.st⟩ :: l, by simp [hl], fun e he => ?_⟩
  rcases List.mem_cons.1 he with rfl | he
  · exact hj
  · exact hf e he

theorem Grows.put {i : ℕ} {a b : World S Op A ε M V} (h : Grows i a b) (s : S) :
    Grows i a (b.put s) := h

/-- **A contract**: an invariant of worlds, and what a complete nested call may do. -/
structure Contract (m : Machine S Op A ε M V) where
  Inv : World S Op A ε M V → Prop
  Rel : List (ℕ × Op) → World S Op A ε M V → World S Op A ε M V → Prop
  refl : ∀ ctx w, Rel ctx w w
  trans : ∀ {ctx a b c}, Rel ctx a b → Rel ctx b c → Rel ctx a c

variable {m : Machine S Op A ε M V} (K : Contract m)

/-- Activation `i` runs `p` from `w` under the contract, ending in `Q`. -/
def Holds (ctx : List (ℕ × Op)) (i : ℕ) : Prog S Op A ε α →
    (Except ε α → World S Op A ε M V → Prop) → World S Op A ε M V → Prop
  | .ret a, Q, w => Q (.ok a) w
  | .fail e, Q, w => Q (.error e) w
  | .get k, Q, w => Holds ctx i (k w.st) Q w
  | .set s k, Q, w => Holds ctx i k Q (w.put s)
  | .call op k, Q, w => K.Inv (w.push i (.call op)) ∧
      ∀ w', K.Inv w' → Grows i (w.push i (.call op)) w' → K.Rel ((i, op) :: ctx) (w.push i (.call op)) w' →
        ∀ a, m.legal w' op a → Holds ctx i (k a) Q (w'.push i (.reply op a))

section Rules

variable {K} {ctx : List (ℕ × Op)} {i : ℕ} {Q : Except ε α → World S Op A ε M V → Prop}
  {w : World S Op A ε M V}

/-- **Consequence.** -/
theorem Holds.mono {p : Prog S Op A ε α} {Q' : Except ε α → World S Op A ε M V → Prop}
    (h : Holds K ctx i p Q w) (hQ : ∀ r w', Q r w' → Q' r w') : Holds K ctx i p Q' w := by
  induction p generalizing w with
  | ret a => exact hQ _ _ h
  | fail e => exact hQ _ _ h
  | get k ih => exact ih _ h
  | set s k ih => exact ih h
  | call op k ih => exact ⟨h.1, fun w' hi hg hr a ha => ih a (h.2 w' hi hg hr a ha)⟩

@[simp] theorem holds_pure (a : α) : Holds K ctx i (pure a) Q w ↔ Q (.ok a) w := Iff.rfl

@[simp] theorem holds_ret (a : α) : Holds K ctx i (.ret a) Q w ↔ Q (.ok a) w := Iff.rfl

@[simp] theorem holds_fail (e : ε) : Holds K ctx i (.fail e) Q w ↔ Q (.error e) w := Iff.rfl

@[simp] theorem holds_throw (e : ε) :
    Holds K ctx i (throw e : Prog S Op A ε α) Q w ↔ Q (.error e) w := Iff.rfl

@[simp] theorem holds_read (f : S → α) : Holds K ctx i (Prog.read f) Q w ↔ Q (.ok (f w.st)) w :=
  Iff.rfl

@[simp] theorem holds_write (f : S → S) {Q : Except ε Unit → World S Op A ε M V → Prop} :
    Holds K ctx i (Prog.write f) Q w ↔ Q (.ok ()) (w.put (f w.st)) := Iff.rfl

/-- **Sequencing.** -/
theorem holds_bind {p : Prog S Op A ε β} {f : β → Prog S Op A ε α} :
    Holds K ctx i (p >>= f) Q w ↔
      Holds K ctx i p (fun r w' => match r with
        | .ok b => Holds K ctx i (f b) Q w'
        | .error e => Q (.error e) w') w := by
  show Holds K ctx i (p.bind f) Q w ↔ _
  induction p generalizing w with
  | ret b => exact Iff.rfl
  | fail e => exact Iff.rfl
  | get k ih => exact ih _
  | set s k ih => exact ih
  | call op k ih =>
    refine and_congr_right fun _ => ?_
    exact forall_congr' fun w' => forall_congr' fun _ => forall_congr' fun _ =>
      forall_congr' fun _ => forall_congr' fun a => forall_congr' fun _ => ih a

theorem holds_attempt {p : Prog S Op A ε β} {Q : Except ε (Except ε β) → World S Op A ε M V → Prop} :
    Holds K ctx i p.attempt Q w ↔ Holds K ctx i p (fun r w' => Q (.ok r) w') w := by
  induction p generalizing w with
  | ret b => exact Iff.rfl
  | fail e => exact Iff.rfl
  | get k ih => exact ih _
  | set s k ih => exact ih
  | call op k ih =>
    refine and_congr_right fun _ => ?_
    exact forall_congr' fun w' => forall_congr' fun _ => forall_congr' fun _ =>
      forall_congr' fun _ => forall_congr' fun a => forall_congr' fun _ => ih a

/-- **Exception handlers.** -/
theorem holds_catching {p : Prog S Op A ε α} {h : ε → Prog S Op A ε α} :
    Holds K ctx i (p.catching h) Q w ↔
      Holds K ctx i p (fun r w' => match r with
        | .ok a => Q (.ok a) w'
        | .error e => Holds K ctx i (h e) Q w') w := by
  show Holds K ctx i (p.attempt >>= _) Q w ↔ _
  rw [holds_bind, holds_attempt]
  constructor <;> refine fun hp => hp.mono fun r w' hr => ?_
  · cases r <;> exact hr
  · cases r <;> exact hr

theorem holds_tryCatch {p : Prog S Op A ε α} {h : ε → Prog S Op A ε α} :
    Holds K ctx i (tryCatch p h) Q w ↔
      Holds K ctx i p (fun r w' => match r with
        | .ok a => Q (.ok a) w'
        | .error e => Holds K ctx i (h e) Q w') w := holds_catching

/-- The end of a body under a handler that lets the raises in `c` pass. -/
structure Guarded (K : Contract m) (ctx : List (ℕ × Op)) (i : ℕ) (c : ε → Prop) (h : Prog S Op A ε α)
    (Q : Except ε α → World S Op A ε M V → Prop) (r : Except ε α) (w : World S Op A ε M V) : Prop where
  caught : ∀ e, r = .error e → ¬ c e → Holds K ctx i h Q w
  passed : (∀ e, r = .error e → c e) → Q r w

theorem Guarded.pass {c : ε → Prop} {h : Prog S Op A ε α} {r : Except ε α} (hr : ∀ e, r = .error e → c e)
    (hq : Q r w) : Guarded K ctx i c h Q r w :=
  ⟨fun e he hc => absurd (hr e he) hc, fun _ => hq⟩

theorem Guarded.handle {c : ε → Prop} {h : Prog S Op A ε α} {e : ε} (hc : ¬ c e) (hh : Holds K ctx i h Q w) :
    Guarded K ctx i c h Q (.error e) w :=
  ⟨fun _ _ _ => hh, fun hr => absurd (hr e rfl) hc⟩

/-- **A handler for some exceptions.** -/
theorem holds_guarded {p h : Prog S Op A ε α} {c : ε → Prop} [DecidablePred c]
    (hp : Holds K ctx i p (Guarded K ctx i c h Q) w) :
    Holds K ctx i (p.catching fun e => if c e then .fail e else h) Q w := by
  rw [holds_catching]
  refine hp.mono fun r w' hr => ?_
  cases r with
  | ok a => exact hr.passed fun e he => by cases he
  | error e =>
    dsimp only
    split
    · rename_i hc
      refine hr.passed fun x hx => ?_
      cases hx
      exact hc
    · rename_i hc
      exact hr.caught e rfl hc

/-- **Finalisers.** -/
theorem holds_lastly {p : Prog S Op A ε α} {c : Prog S Op A ε Unit} :
    Holds K ctx i (p.lastly c) Q w ↔
      Holds K ctx i p (fun r w' => Holds K ctx i c (fun rc w'' => match rc with
        | .ok _ => Q r w''
        | .error e => Q (.error e) w'') w') w := by
  show Holds K ctx i (p.attempt >>= fun r => c >>= fun _ => Prog.ofExcept r) Q w ↔ _
  rw [holds_bind, holds_attempt]
  have key : ∀ r w', Holds K ctx i (c >>= fun _ => Prog.ofExcept r) Q w' ↔
      Holds K ctx i c (fun rc w'' => match rc with
        | .ok _ => Q r w''
        | .error e => Q (.error e) w'') w' := by
    intro r w'
    rw [holds_bind]
    constructor <;> refine fun hc => hc.mono fun rc w'' h => ?_
    · cases rc with
      | ok _ => cases r <;> exact h
      | error e => exact h
    · cases rc with
      | ok _ => cases r <;> exact h
      | error e => exact h
  constructor <;> exact fun hp => hp.mono fun r w' => by simpa only [key] using id

/-- **One callback.** -/
theorem holds_ask (op : Op) {Q : Except ε A → World S Op A ε M V → Prop} :
    Holds K ctx i (Prog.ask op) Q w ↔ K.Inv (w.push i (.call op)) ∧
      ∀ w', K.Inv w' → Grows i (w.push i (.call op)) w' → K.Rel ((i, op) :: ctx) (w.push i (.call op)) w' →
        ∀ a, m.legal w' op a → Q (.ok a) (w'.push i (.reply op a)) := Iff.rfl

/-- Log entries by activation `i` and by later ones only. -/
def Extends (i : ℕ) (w w' : World S Op A ε M V) : Prop :=
  w.next ≤ w'.next ∧ ∃ new, w'.log = new ++ w.log ∧ ∀ e ∈ new, i ≤ e.frame

/-- A body only adds to the log, under its own activation and later ones. -/
theorem Holds.extends {p : Prog S Op A ε α} (h : Holds K ctx i p Q w) :
    Holds K ctx i p (fun r w' => Q r w' ∧ Extends i w w') w := by
  have key : ∀ w₀, Extends i w₀ w → Holds K ctx i p (fun r w' => Q r w' ∧ Extends i w₀ w') w := by
    induction p generalizing w with
    | ret a => exact fun w₀ h₀ => ⟨h, h₀⟩
    | fail e => exact fun w₀ h₀ => ⟨h, h₀⟩
    | get k ih => exact fun w₀ h₀ => ih _ h w₀ h₀
    | set s k ih => exact fun w₀ h₀ => ih h w₀ h₀
    | call op k ih =>
      refine fun w₀ h₀ => ⟨h.1, fun w' hi hg hr a ha => ih a (h.2 w' hi hg hr a ha) w₀ ?_⟩
      obtain ⟨hn, l, hl, hf⟩ := h₀
      obtain ⟨hn', l', hl', hf'⟩ := hg
      refine ⟨hn.trans hn', ⟨i, .reply op a, w'.st⟩ :: (l' ++ ⟨i, .call op, w.st⟩ :: l),
        by simp [hl', hl], fun e he => ?_⟩
      simp only [List.mem_cons, List.mem_append] at he
      rcases he with rfl | he | rfl | he
      · exact le_rfl
      · exact (hf' e he).le
      · exact le_rfl
      · exact hf e he
  exact key w ⟨le_rfl, [], rfl, by simp⟩

/-- A body adds no call of a method under its own activation. -/
theorem Holds.invoked {p : Prog S Op A ε α} {P : M → S → Prop} (h : Holds K ctx i p Q w)
    (hP : ∀ e ∈ w.log, e.frame = i → ∀ x, e.act = .invoke x → P x e.st) :
    Holds K ctx i p (fun r w' => Q r w' ∧
      ∀ e ∈ w'.log, e.frame = i → ∀ x, e.act = .invoke x → P x e.st) w := by
  induction p generalizing w with
  | ret a => exact ⟨h, hP⟩
  | fail e => exact ⟨h, hP⟩
  | get k ih => exact ih _ h hP
  | set s k ih => exact ih h hP
  | call op k ih =>
    refine ⟨h.1, fun w' hi hg hr a ha => ih a (h.2 w' hi hg hr a ha) fun e he hf x hx => ?_⟩
    obtain ⟨-, l, hl, hnew⟩ := hg
    rw [World.push_log, hl] at he
    simp only [World.push_log, List.mem_cons, List.mem_append] at he
    rcases he with rfl | he | rfl | he
    · cases hx
    · exact absurd hf (hnew e he).ne'
    · cases hx
    · exact hP e he hf x hx

end Rules

/-- **Every method keeps the contract**, whenever the environment may call it. -/
structure Contract.Kept : Prop where
  method : ∀ ctx meth w, m.enter w ctx meth → (∀ e ∈ w.log, e.frame < w.next) →
    (∀ f ∈ ctx, f.1 < w.next) → K.Inv w →
    Holds K ctx w.next (m.body meth)
      (fun r w' => K.Inv (w'.push w.next (.ret r)) ∧ K.Rel ctx w (w'.push w.next (.ret r)))
      (w.enter meth)
  crash : ∀ w s, K.Inv w → m.crash w.st = some s → K.Inv (w.lose s)

/-- The waiting activations can go on from any world that nested calls lead to. Where none waits,
`B` holds. -/
def Waiting (B : World S Op A ε M V → Prop) : List (Frame S Op A ε V) → World S Op A ε M V → Prop
  | [], w => B w
  | f :: rest, w => f.id < w.next ∧
      ∀ w', K.Inv w' → Grows f.id w w' → K.Rel (pending (f :: rest)) w w' → ∀ a, m.legal w' f.op a →
        Holds K (pending rest) f.id (f.k a)
          (fun r w'' => K.Inv (w''.push f.id (.ret r)) ∧ Waiting B rest (w''.push f.id (.ret r)))
          (w'.push f.id (.reply f.op a))

/-- What every call leaves that is made where nothing is under way. -/
def Contract.Leaves (B : World S Op A ε M V → Prop) : Prop :=
  ∀ w w', B w → K.Rel [] w w' → B w'

variable {K} {B : World S Op A ε M V → Prop}

/-- Waiting survives a complete nested call. -/
theorem Waiting.after {stack : List (Frame S Op A ε V)} {w w' : World S Op A ε M V} {j : ℕ}
    (hB : K.Leaves B) (h : Waiting K B stack w) (hj : w.next ≤ j) (hg : Extends j w w')
    (hr : K.Rel (pending stack) w w') : Waiting K B stack w' := by
  cases stack with
  | nil => exact hB w w' h hr
  | cons f rest =>
    obtain ⟨hf, h⟩ := h
    obtain ⟨hn, l, hl, hm⟩ := hg
    refine ⟨hf.trans_le hn, fun w'' hi hg' hr' a ha => h w'' hi ?_ (K.trans hr hr') a ha⟩
    have hgrow : Grows f.id w w' :=
      ⟨hn, l, hl, fun e he => lt_of_lt_of_le hf (hj.trans (hm e he))⟩
    exact hgrow.trans hg'

/-- Running a body to its next stop keeps the invariant and leaves every activation waiting. -/
theorem Holds.advance {i : ℕ} {stack : List (Frame S Op A ε V)} {p : Prog S Op A ε V}
    {w : World S Op A ε M V} (hi : i < w.next)
    (h : Holds K (pending stack) i p
      (fun r w' => K.Inv (w'.push i (.ret r)) ∧ Waiting K B stack (w'.push i (.ret r))) w) :
    K.Inv (advance i stack p w).w ∧
      Waiting K B (Reentrant.advance i stack p w).stack (Reentrant.advance i stack p w).w := by
  induction p generalizing w with
  | ret v => exact h
  | fail e => exact h
  | get k ih => exact ih _ hi h
  | set s k ih => exact ih hi h
  | call op k ih => exact ⟨h.1, hi, h.2⟩

/-- **Soundness, where nothing is under way too.** If every method keeps the contract, and leaves
`B` where nothing is under way, then the invariant holds in every reachable configuration, and `B`
in those in which nothing is under way. -/
theorem Contract.sound_idle (hK : K.Kept) (hB : K.Leaves B)
    (hcrash : ∀ (w : World S Op A ε M V) s, m.crash w.st = some s → B (w.lose s)) {s : S}
    (h0 : K.Inv (Machine.start s : Config S Op A ε M V).w) (hB0 : B (Machine.start s : Config S Op A ε M V).w)
    {c : Config S Op A ε M V} (h : m.Reachable s c) : K.Inv c.w ∧ (c.stack = [] → B c.w) := by
  suffices Machine.Tidy c ∧ K.Inv c.w ∧ Waiting K B c.stack c.w by
    obtain ⟨-, hinv, hwait⟩ := this
    refine ⟨hinv, fun hidle => ?_⟩
    rw [hidle] at hwait
    exact hwait
  refine Machine.Reachable.induction
    (P := fun c => Machine.Tidy c ∧ K.Inv c.w ∧ Waiting K B c.stack c.w)
    ⟨⟨by simp [Machine.start], by simp [Machine.start]⟩, h0, hB0⟩ ?_ h
  rintro ⟨w, stack⟩ c' x ⟨htidy, hinv, hwait⟩ hs
  refine ⟨htidy.step hs, ?_⟩
  cases x with
  | invoke meth =>
    simp only [Machine.step] at hs
    split at hs
    · rename_i hen
      cases hs
      have hctx : ∀ f ∈ pending stack, f.1 < w.next := by
        intro f hf
        obtain ⟨g, hg, rfl⟩ := List.mem_map.1 hf
        exact htidy.stack g hg
      refine Holds.advance (by simp) (((hK.method _ meth w hen htidy.log hctx hinv).extends).mono ?_)
      rintro r w' ⟨⟨hi', hr'⟩, hn, l, hl, hf⟩
      refine ⟨hi', Waiting.after (j := w.next) hB hwait le_rfl ⟨?_, ⟨w.next, .ret r, w'.st⟩ :: (l ++ [⟨w.next, .invoke meth, w.st⟩]), ?_, ?_⟩ hr'⟩
      · simp only [World.push_next, World.enter_next] at hn ⊢; omega
      · simp [hl]
      · intro e he
        simp only [List.mem_cons, List.mem_append, List.not_mem_nil, or_false] at he
        rcases he with rfl | he | rfl
        · exact le_rfl
        · exact hf e he
        · exact le_rfl
    · exact absurd hs (by simp)
  | reply a =>
    cases stack with
    | nil => simp [Machine.step] at hs
    | cons f rest =>
      simp only [Machine.step] at hs
      split at hs
      · rename_i hl
        cases hs
        obtain ⟨hf, hk⟩ := hwait
        exact Holds.advance (by simpa using hf)
          (hk w hinv (Grows.refl _ _) (K.refl _ _) a hl)
      · exact absurd hs (by simp)
  | crash =>
    simp only [Machine.step, Option.map_eq_some_iff] at hs
    obtain ⟨s', hs', rfl⟩ := hs
    exact ⟨hK.crash w s' hinv hs', hcrash w s' hs'⟩

/-- **Soundness.** If every method keeps the contract and the invariant holds at the
start, it holds in every reachable configuration. -/
theorem Contract.sound (hK : K.Kept) {s : S} (h0 : K.Inv (Machine.start s : Config S Op A ε M V).w)
    {c : Config S Op A ε M V} (h : m.Reachable s c) : K.Inv c.w :=
  (Contract.sound_idle (B := fun _ => True) hK (fun _ _ _ _ => trivial) (fun _ _ _ => trivial) h0 trivial h).1

end Reentrant
