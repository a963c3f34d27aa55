import Arhugula.Durable.Lease
import Arhugula.Durable.Slot

/-!
# Transactions under a lease

Activations change what a state shows (`view`) under a lease only. A `Law` says which changes an activation may
make, given what it did so far (its `trace`), and what it owes to what it returns. `Does` are the triples over
the body of a transaction, `Outside` those around the lease. If every body keeps the law then it stands in
every reachable configuration (`Law.sound`), whatever other activations do meanwhile.
-/

namespace Durable

open Reentrant

variable {S Op A ε M V J α β : Type}

/-- The entries of one activation, newest first. -/
def trace (i : ℕ) (log : List (Entry S Op A ε M V)) : List (Entry S Op A ε M V) := log.filter fun e => e.frame = i

variable {log l : List (Entry S Op A ε M V)} {e : Entry S Op A ε M V} {i : ℕ}

theorem trace_self (h : e.frame = i) : trace i (e :: log) = e :: trace i log :=
  List.filter_cons_of_pos (by simpa using h)

theorem trace_other (h : e.frame ≠ i) : trace i (e :: log) = trace i log :=
  List.filter_cons_of_neg (by simpa using h)

theorem trace_append : trace i (l ++ log) = trace i l ++ trace i log := List.filter_append ..

theorem trace_nil (h : ∀ e ∈ log, e.frame ≠ i) : trace i log = [] :=
  List.filter_eq_nil_iff.2 fun e he => by simpa using h e he

theorem mem_trace : e ∈ trace i log ↔ e ∈ log ∧ e.frame = i := by
  unfold trace
  rw [List.mem_filter, decide_eq_true_eq]

theorem trace_grows {w w' : World S Op A ε M V} (h : Grows i w w') : trace i w'.log = trace i w.log := by
  obtain ⟨-, l, hl, hf⟩ := h
  rw [hl, trace_append, trace_nil fun e he => (hf e he).ne', List.nil_append]

theorem trace_push (w : World S Op A ε M V) (x : Act Op A ε M V) :
    trace i (w.push i x).log = ⟨i, x, w.st⟩ :: trace i w.log := trace_self rfl

/-- **A law**: the lease, what is changed under it, the callbacks that are made under it only, the changes that
an activation may make after its trace, and what it owes to what it returns. -/
structure Law (S Op A ε M V J : Type) where
  lease : Lease S Op A ε
  view : S → J
  guarded : Op → Prop
  step : List (Entry S Op A ε M V) → J → J → Prop
  owes : List (Entry S Op A ε M V) → V → Prop
  view_put : ∀ s b, view (lease.put s b) = view s
  held_put : ∀ s b, lease.held (lease.put s b) = b

namespace Law

variable (L : Law S Op A ε M V J) (j₀ : J)

/-- What the last entry saw. -/
def last : List (Entry S Op A ε M V) → J
  | [] => j₀
  | e :: _ => L.view e.st

/-- **What an entry owes.** -/
structure Lawful (e : Entry S Op A ε M V) (older : List (Entry S Op A ε M V)) : Prop where
  step : L.view e.st = L.last j₀ older ∨ L.step (trace e.frame older) (L.last j₀ older) (L.view e.st)
  owes : ∀ v, e.act = .ret (.ok v) → L.owes (trace e.frame older) v

/-- The log is lawful, and its last entry saw what there is now. -/
structure Inv (w : World S Op A ε M V) : Prop where
  lawful : Throughout (L.Lawful j₀) w.log
  last : L.view w.st = L.last j₀ w.log

/-- An entry made while another activation holds the lease. -/
structure Quiet (j : J) (e : Entry S Op A ε M V) : Prop where
  view : L.view e.st = j
  guarded : ∀ op, (e.act = .call op ∨ ∃ a, e.act = .reply op a) → ¬ L.guarded op

/-- **What a complete nested call does**: the lease is as before, and nothing changes while it is held. -/
structure Beside (w w' : World S Op A ε M V) : Prop where
  held : L.lease.held w'.st = L.lease.held w.st
  view : L.lease.held w.st = true → L.view w'.st = L.view w.st
  quiet : L.lease.held w.st = true → ∃ l, w'.log = l ++ w.log ∧ ∀ e ∈ l, L.Quiet (L.view w.st) e

variable {L j₀}

theorem Beside.refl (w : World S Op A ε M V) : L.Beside w w := ⟨rfl, fun _ => rfl, fun _ => ⟨[], rfl, by simp⟩⟩

theorem Beside.trans {a b c : World S Op A ε M V} (h : L.Beside a b) (h' : L.Beside b c) : L.Beside a c := by
  refine ⟨h'.held.trans h.held, fun ha => (h'.view (h.held.trans ha)).trans (h.view ha), fun ha => ?_⟩
  obtain ⟨l, hl, hq⟩ := h.quiet ha
  obtain ⟨l', hl', hq'⟩ := h'.quiet (h.held.trans ha)
  refine ⟨l' ++ l, by rw [hl', hl, List.append_assoc], fun e he => ?_⟩
  rcases List.mem_append.1 he with he | he
  · exact h.view ha ▸ hq' e he
  · exact hq e he

variable (L j₀) (m : Machine S Op A ε M V)

/-- The contract of every body. -/
def contract : Contract m where
  Inv := L.Inv j₀
  Rel _ := L.Beside
  refl _ w := .refl w
  trans h h' := h.trans h'

/-- **While activation `i` holds the lease**: `F` holds of the state and of what it did. -/
structure Inside (i : ℕ) (F : S → List (Entry S Op A ε M V) → Prop) (w : World S Op A ε M V) : Prop where
  lawful : Throughout (L.Lawful j₀) w.log
  pending : L.view w.st = L.last j₀ w.log ∨ L.step (trace i w.log) (L.last j₀ w.log) (L.view w.st)
  held : L.lease.held w.st = true
  holds : F w.st (trace i w.log)

/-- **While it does not**: nothing changed beside another that holds it since the activation began in `w₀`. -/
structure Beyond (i : ℕ) (w₀ : World S Op A ε M V) (F : List (Entry S Op A ε M V) → Prop) (w : World S Op A ε M V) :
    Prop where
  lawful : Throughout (L.Lawful j₀) w.log
  pending : L.view w.st = L.last j₀ w.log ∨ L.step (trace i w.log) (L.last j₀ w.log) (L.view w.st)
  beside : L.Beside w₀ w
  holds : F (trace i w.log)

/-- **A triple** of a body that runs under the lease. -/
def Does (i : ℕ) (F : S → List (Entry S Op A ε M V) → Prop) (p : Prog S Op A ε α)
    (P : α → S → List (Entry S Op A ε M V) → Prop) : Prop :=
  ∀ ctx w, L.Inside j₀ i F w →
    Holds (L.contract j₀ m) ctx i p (fun r w' => L.Inside j₀ i (fun s t => ∀ a, r = .ok a → P a s t) w') w

/-- **A triple** of a body that takes the lease on its way. -/
def Outside (i : ℕ) (F : List (Entry S Op A ε M V) → Prop) (p : Prog S Op A ε α)
    (P : α → List (Entry S Op A ε M V) → Prop) : Prop :=
  ∀ ctx w₀ w, L.Beyond j₀ i w₀ F w →
    Holds (L.contract j₀ m) ctx i p (fun r w' => L.Beyond j₀ i w₀ (fun t => ∀ a, r = .ok a → P a t) w') w

variable {L j₀ m} {F G : S → List (Entry S Op A ε M V) → Prop} {F' G' : List (Entry S Op A ε M V) → Prop}
  {p : Prog S Op A ε α} {P : α → S → List (Entry S Op A ε M V) → Prop} {P' : α → List (Entry S Op A ε M V) → Prop}
  {w w₀ : World S Op A ε M V} {op : Op}

/-! ## Under the lease -/

theorem Inside.weaken (h : L.Inside j₀ i F w) (hF : ∀ s t, F s t → G s t) : L.Inside j₀ i G w :=
  { h with holds := hF _ _ h.holds }

/-- The entry that activation `i` logs next is lawful. -/
theorem Inside.push (h : L.Inside j₀ i F w) {x : Act Op A ε M V} (hx : ∀ v, x = .ret (.ok v) → L.owes (trace i w.log) v) :
    L.Inv j₀ (w.push i x) :=
  ⟨⟨⟨h.pending, hx⟩, h.lawful⟩, rfl⟩

/-- **One callback**: others change nothing that is shown. -/
theorem Inside.ask (h : L.Inside j₀ i F w) {w' : World S Op A ε M V} (hi : L.Inv j₀ w')
    (hg : Grows i (w.push i (.call op)) w') (hr : L.Beside (w.push i (.call op)) w') (a : A) :
    L.view w'.st = L.view w.st ∧ L.Inside j₀ i
      (fun s t => s = w'.st ∧ t = ⟨i, .reply op a, w'.st⟩ :: ⟨i, .call op, w.st⟩ :: trace i w.log)
      (w'.push i (.reply op a)) := by
  refine ⟨hr.view h.held, ⟨⟨.inl hi.last, fun v hv => by cases hv⟩, hi.lawful⟩, .inl rfl, hr.held.trans h.held, rfl, ?_⟩
  rw [trace_push, trace_grows hg, trace_push]

theorem Does.bind {f : α → Prog S Op A ε β} {R : β → S → List (Entry S Op A ε M V) → Prop}
    (hp : L.Does j₀ m i F p P) (hf : ∀ a, L.Does j₀ m i (P a) (f a) R) : L.Does j₀ m i F (p >>= f) R := by
  intro ctx w hw
  rw [holds_bind]
  refine (hp ctx w hw).mono fun r w' hr => ?_
  cases r with
  | ok a => exact hf a ctx w' (hr.weaken fun s t h => h a rfl)
  | error e => exact hr.weaken fun s t _ a ha => by cases ha

theorem Does.weaken {R : α → S → List (Entry S Op A ε M V) → Prop} (hp : L.Does j₀ m i F p P)
    (hF : ∀ s t, G s t → F s t) (hP : ∀ a s t, P a s t → R a s t) : L.Does j₀ m i G p R := by
  intro ctx w hw
  exact (hp ctx w (hw.weaken hF)).mono fun r w' hr => hr.weaken fun s t h a ha => hP a s t (h a ha)

theorem Does.pre (hp : L.Does j₀ m i F p P) (hF : ∀ s t, G s t → F s t) : L.Does j₀ m i G p P :=
  hp.weaken hF fun _ _ _ h => h

theorem Does.post {R : α → S → List (Entry S Op A ε M V) → Prop} (hp : L.Does j₀ m i F p P)
    (hP : ∀ a s t, P a s t → R a s t) : L.Does j₀ m i F p R := hp.weaken (fun _ _ h => h) hP

/-- An assertion that fixes a fact. -/
theorem does_of {q : Prop} (h : q → L.Does j₀ m i F p P) (hF : ∀ s t, F s t → q) : L.Does j₀ m i F p P :=
  fun ctx w hw => h (hF _ _ hw.holds) ctx w hw

theorem does_exists {ι : Type} {F : ι → S → List (Entry S Op A ε M V) → Prop} (h : ∀ x, L.Does j₀ m i (F x) p P) :
    L.Does j₀ m i (fun s t => ∃ x, F x s t) p P := by
  intro ctx w hw
  obtain ⟨x, hx⟩ := hw.holds
  exact h x ctx w { hw with holds := hx }

theorem does_pure {a : α} (h : ∀ s t, F s t → P a s t) : L.Does j₀ m i F (pure a) P :=
  fun _ w hw => hw.weaken fun s t hF b hb => by cases hb; exact h s t hF

theorem does_throw {e : ε} : L.Does j₀ m i F (throw e : Prog S Op A ε α) P :=
  fun _ w hw => hw.weaken fun s t _ b hb => by cases hb

theorem does_fail {e : ε} : L.Does j₀ m i F (.fail e : Prog S Op A ε α) P := does_throw

theorem does_ofExcept {r : Except ε α} (h : ∀ a, r = .ok a → ∀ s t, F s t → P a s t) :
    L.Does j₀ m i F (Prog.ofExcept r) P := by
  cases r with
  | ok a => exact does_pure (h a rfl)
  | error e => exact does_fail

theorem does_read {f : S → α} (h : ∀ s t, F s t → P (f s) s t) : L.Does j₀ m i F (Prog.read f) P :=
  fun _ w hw => { hw with holds := fun b hb => by cases hb; exact h _ _ hw.holds }

/-- A write of what is not shown. -/
theorem does_write {f : S → S} {P : Unit → S → List (Entry S Op A ε M V) → Prop}
    (hf : ∀ s, L.view (f s) = L.view s ∧ L.lease.held (f s) = L.lease.held s)
    (h : ∀ s t, F s t → P () (f s) t) : L.Does j₀ m i F (Prog.write f) P := by
  intro ctx w hw
  refine ⟨hw.lawful, ?_, (hf w.st).2.trans hw.held, fun a _ => h w.st _ hw.holds⟩
  show L.view (f w.st) = _ ∨ L.step _ _ (L.view (f w.st))
  rw [(hf w.st).1]
  exact hw.pending

theorem does_ask {P : A → S → List (Entry S Op A ε M V) → Prop}
    (h : ∀ s t s' a, F s t → L.view s' = L.view s →
      P a s' (⟨i, .reply op a, s'⟩ :: ⟨i, .call op, s⟩ :: t)) : L.Does j₀ m i F (Prog.ask op) P := by
  intro ctx w hw
  rw [holds_ask]
  refine ⟨hw.push fun v hv => (by cases hv), fun w' hi hg hr a _ => ?_⟩
  obtain ⟨hview, hin⟩ := hw.ask hi hg hr a
  refine hin.weaken fun s t hst b hb => ?_
  cases hb
  rw [hst.1, hst.2]
  exact h w.st _ w'.st a hw.holds hview

theorem Does.catching {h : ε → Prog S Op A ε α} (hp : L.Does j₀ m i F p P)
    (hh : ∀ e, L.Does j₀ m i (fun _ _ => True) (h e) P) : L.Does j₀ m i F (p.catching h) P := by
  intro ctx w hw
  rw [holds_catching]
  refine (hp ctx w hw).mono fun r w' hr => ?_
  cases r with
  | ok a => exact hr
  | error e => exact hh e ctx w' (hr.weaken fun _ _ _ => trivial)

theorem does_ite {c : Prop} [Decidable c] {q : Prog S Op A ε α} (hp : c → L.Does j₀ m i F p P)
    (hq : ¬ c → L.Does j₀ m i F q P) : L.Does j₀ m i F (if c then p else q) P := by
  by_cases hc : c
  · rw [if_pos hc]; exact hp hc
  · rw [if_neg hc]; exact hq hc

/-! ## Around the lease -/

theorem Beyond.weaken (h : L.Beyond j₀ i w₀ F' w) (hF : ∀ t, F' t → G' t) : L.Beyond j₀ i w₀ G' w :=
  { h with holds := hF _ h.holds }

/-- An entry of an activation that does not hold the lease. -/
theorem Beyond.push (h : L.Beyond j₀ i w₀ F' w) {x : Act Op A ε M V} (hx : ∀ v, x = .ret (.ok v) → L.owes (trace i w.log) v)
    (hg : ∀ op, (x = .call op ∨ ∃ a, x = .reply op a) → ¬ L.guarded op) :
    L.Inv j₀ (w.push i x) ∧ L.Beside w₀ (w.push i x) := by
  refine ⟨⟨⟨⟨h.pending, hx⟩, h.lawful⟩, rfl⟩, h.beside.trans ⟨rfl, fun _ => rfl, fun _ => ?_⟩⟩
  refine ⟨[⟨i, x, w.st⟩], rfl, fun e he => ?_⟩
  rw [List.mem_singleton.1 he]
  exact ⟨rfl, hg⟩

theorem Outside.bind {f : α → Prog S Op A ε β} {R : β → List (Entry S Op A ε M V) → Prop}
    (hp : L.Outside j₀ m i F' p P') (hf : ∀ a, L.Outside j₀ m i (P' a) (f a) R) : L.Outside j₀ m i F' (p >>= f) R := by
  intro ctx w₀ w hw
  rw [holds_bind]
  refine (hp ctx w₀ w hw).mono fun r w' hr => ?_
  cases r with
  | ok a => exact hf a ctx w₀ w' (hr.weaken fun t h => h a rfl)
  | error e => exact hr.weaken fun t _ a ha => by cases ha

theorem Outside.weaken {R : α → List (Entry S Op A ε M V) → Prop} (hp : L.Outside j₀ m i F' p P')
    (hF : ∀ t, G' t → F' t) (hP : ∀ a t, P' a t → R a t) : L.Outside j₀ m i G' p R := by
  intro ctx w₀ w hw
  exact (hp ctx w₀ w (hw.weaken hF)).mono fun r w' hr => hr.weaken fun t h a ha => hP a t (h a ha)

theorem outside_pure {a : α} (h : ∀ t, F' t → P' a t) : L.Outside j₀ m i F' (pure a) P' :=
  fun _ _ w hw => hw.weaken fun t hF b hb => by cases hb; exact h t hF

theorem outside_throw {e : ε} : L.Outside j₀ m i F' (throw e : Prog S Op A ε α) P' :=
  fun _ _ w hw => hw.weaken fun t _ b hb => by cases hb

theorem outside_ofExcept {r : Except ε α} (h : ∀ a, r = .ok a → ∀ t, F' t → P' a t) :
    L.Outside j₀ m i F' (Prog.ofExcept r) P' := by
  cases r with
  | ok a => exact outside_pure (h a rfl)
  | error e => exact outside_throw

theorem Outside.map {f : α → β} {R : β → List (Entry S Op A ε M V) → Prop} (hp : L.Outside j₀ m i F' p P')
    (h : ∀ a t, P' a t → R (f a) t) : L.Outside j₀ m i F' (f <$> p) R :=
  hp.bind fun a => outside_pure fun t ht => h a t ht

theorem outside_ask {P' : A → List (Entry S Op A ε M V) → Prop} (hop : ¬ L.guarded op)
    (h : ∀ s t s' a, F' t → P' a (⟨i, .reply op a, s'⟩ :: ⟨i, .call op, s⟩ :: t)) :
    L.Outside j₀ m i F' (Prog.ask op) P' := by
  intro ctx w₀ w hw
  rw [holds_ask]
  have hquiet : ∀ x : Act Op A ε M V, (x = .call op ∨ ∃ a, x = .reply op a) →
      ∀ o, (x = .call o ∨ ∃ a, x = .reply o a) → ¬ L.guarded o := by
    rintro x (rfl | ⟨a, rfl⟩) o (ho | ⟨b, ho⟩)
    · cases ho; exact hop
    · cases ho
    · cases ho
    · cases ho; exact hop
  obtain ⟨hinv, hbeside⟩ := hw.push (x := .call op) (fun v hv => by cases hv) (hquiet _ (.inl rfl))
  refine ⟨hinv, fun w' hi hg hr a _ => ?_⟩
  have hbeyond : L.Beyond j₀ i w₀ (fun t => t = ⟨i, .call op, w.st⟩ :: trace i w.log) w' :=
    ⟨hi.lawful, .inl hi.last, hbeside.trans hr, by rw [trace_grows hg, trace_push]⟩
  obtain ⟨hinv', hbeside'⟩ := hbeyond.push (x := .reply op a) (fun v hv => by cases hv) (hquiet _ (.inr ⟨a, rfl⟩))
  refine ⟨hinv'.lawful, .inl hinv'.last, hbeside', fun b hb => ?_⟩
  cases hb
  rw [trace_push, hbeyond.holds]
  exact h w.st _ w'.st a hw.holds

/-- A write of what is not shown. -/
theorem outside_write {f : S → S} {P' : Unit → List (Entry S Op A ε M V) → Prop}
    (hf : ∀ s, L.view (f s) = L.view s ∧ L.lease.held (f s) = L.lease.held s)
    (h : ∀ t, F' t → P' () t) : L.Outside j₀ m i F' (Prog.write f) P' := by
  intro ctx w₀ w hw
  refine ⟨hw.lawful, ?_, hw.beside.trans ⟨(hf w.st).2, fun _ => (hf w.st).1, fun _ => ⟨[], rfl, by simp⟩⟩,
    fun a _ => h _ hw.holds⟩
  show L.view (f w.st) = _ ∨ L.step _ _ (L.view (f w.st))
  rw [(hf w.st).1]
  exact hw.pending

/-- **The lease is taken, and given back.** -/
theorem outside_during (hlock : ¬ L.guarded L.lease.lock)
    (hp : L.Does j₀ m i (fun _ t => ∃ s s' a t₀, F' t₀ ∧
      t = ⟨i, .reply L.lease.lock a, s'⟩ :: ⟨i, .call L.lease.lock, s⟩ :: t₀) p fun a _ t => P' a t) :
    L.Outside j₀ m i F' (L.lease.during p) P' := by
  intro ctx w₀ w hw
  have hquiet : ∀ x : Act Op A ε M V, (x = .call L.lease.lock ∨ ∃ a, x = .reply L.lease.lock a) →
      ∀ o, (x = .call o ∨ ∃ a, x = .reply o a) → ¬ L.guarded o := by
    rintro x (rfl | ⟨a, rfl⟩) o (ho | ⟨b, ho⟩)
    · cases ho; exact hlock
    · cases ho
    · cases ho
    · cases ho; exact hlock
  obtain ⟨hinv, hbeside⟩ := hw.push (x := .call L.lease.lock) (fun v hv => by cases hv) (hquiet _ (.inl rfl))
  refine Lease.holds_during hinv fun w' hi hg hr a _ => ?_
  have hbeyond : L.Beyond j₀ i w₀ (fun t => t = ⟨i, .call L.lease.lock, w.st⟩ :: trace i w.log) w' :=
    ⟨hi.lawful, .inl hi.last, hbeside.trans hr, by rw [trace_grows hg, trace_push]⟩
  obtain ⟨hinv', hbeside'⟩ :=
    hbeyond.push (x := .reply L.lease.lock a) (fun v hv => by cases hv) (hquiet _ (.inr ⟨a, rfl⟩))
  have htrace : trace i (w'.push i (.reply L.lease.lock a)).log =
      ⟨i, .reply L.lease.lock a, w'.st⟩ :: ⟨i, .call L.lease.lock, w.st⟩ :: trace i w.log := by
    rw [trace_push, hbeyond.holds]
  refine ⟨fun e => ⟨hinv'.lawful, .inl hinv'.last, hbeside', fun b hb => by cases hb⟩, fun hfree => ?_⟩
  have hin : L.Inside j₀ i (fun _ t => ∃ s s' a t₀, F' t₀ ∧
      t = ⟨i, .reply L.lease.lock a, s'⟩ :: ⟨i, .call L.lease.lock, s⟩ :: t₀)
      ((w'.push i (.reply L.lease.lock a)).put (L.lease.put w'.st true)) :=
    ⟨hinv'.lawful, .inl ((L.view_put _ _).trans hinv'.last), L.held_put _ _, w.st, w'.st, a, _, hw.holds, htrace⟩
  -- the lease was free, so it was free when the activation began
  have hfree₀ : L.lease.held w₀.st = false := hbeside'.held.symm.trans hfree
  refine (hp ctx _ hin).mono fun r w'' hr' => ⟨hr'.lawful, ?_, ⟨?_, fun hh => ?_, fun hh => ?_⟩, hr'.holds⟩
  · rw [World.put_st, World.put_log, L.view_put]
    exact hr'.pending
  · rw [World.put_st, L.held_put, hfree₀]
  · rw [hfree₀] at hh
    cases hh
  · rw [hfree₀] at hh
    cases hh

/-! ## Saves -/

variable {W : Type} {c : Saver S Op A ε W}

/-- What stands after one callback. -/
def After (L : Law S Op A ε M V J) (i : ℕ) (F : S → List (Entry S Op A ε M V) → Prop) (op : Op) (ok : A → Prop) (s' : S)
    (t' : List (Entry S Op A ε M V)) : Prop :=
  ∃ s t a, F s t ∧ L.view s' = L.view s ∧ ok a ∧ t' = ⟨i, .reply op a, s'⟩ :: ⟨i, .call op, s⟩ :: t

/-- A callback of a save, whatever comes after it. -/
theorem holds_call {ctx : List (ℕ × Op)} {Q : Except ε Unit → World S Op A ε M V → Prop} (hw : L.Inside j₀ i F w)
    (hok : ∀ w', L.Inside j₀ i (L.After i F op fun a => c.raised a = none) w' → L.view w'.st = L.last j₀ w'.log →
      Q (.ok ()) w')
    (herr : ∀ e w', L.Inside j₀ i (L.After i F op fun a => c.raised a = some e) w' → Q (.error e) w') :
    Holds (L.contract j₀ m) ctx i (c.call op) Q w := by
  unfold Saver.call
  rw [holds_bind, holds_ask]
  refine ⟨hw.push fun v hv => (by cases hv), fun w' hi hg hr a _ => ?_⟩
  obtain ⟨hview, hin⟩ := hw.ask hi hg hr a
  have hafter : ∀ ok : A → Prop, ok a → L.Inside j₀ i (L.After i F op ok) (w'.push i (.reply op a)) :=
    fun ok ha => hin.weaken fun s t hst => ⟨w.st, _, a, hw.holds, by rw [hst.1]; exact hview, ha, by rw [hst.1]; exact hst.2⟩
  dsimp only
  cases hraised : c.raised a with
  | none => exact hok _ (hafter _ hraised) rfl
  | some e => exact herr e _ (hafter _ hraised)

/-- A callback of a save, and a change of what is shown. -/
theorem does_call_write {f : S → S} {q : Prog S Op A ε α} (hf : ∀ s, L.lease.held (f s) = L.lease.held s)
    (hstep : ∀ s t, L.After i F op (fun a => c.raised a = none) s t → L.step t (L.view s) (L.view (f s)))
    (hq : L.Does j₀ m i (fun s' t => ∃ s, s' = f s ∧ L.After i F op (fun a => c.raised a = none) s t) q P) :
    L.Does j₀ m i F (c.call op >>= fun _ => Prog.write f >>= fun _ => q) P := by
  intro ctx w hw
  rw [holds_bind]
  refine holds_call hw (fun w' hw' hlast => ?_) fun e w' hw' => hw'.weaken fun s t _ a ha => by cases ha
  rw [holds_bind, holds_write]
  refine hq ctx _ ⟨hw'.lawful, .inr ?_, (hf _).trans hw'.held, w'.st, rfl, hw'.holds⟩
  rw [World.put_log, World.put_st, ← hlast]
  exact hstep _ _ hw'.holds

/-- A callback of a save under a handler. -/
theorem does_call_catching {h : ε → Prog S Op A ε Unit} {P : Unit → S → List (Entry S Op A ε M V) → Prop}
    (hok : ∀ s t, L.After i F op (fun a => c.raised a = none) s t → P () s t)
    (hh : ∀ e, L.Does j₀ m i (L.After i F op fun a => c.raised a = some e) (h e) P) :
    L.Does j₀ m i F ((c.call op).catching h) P := by
  intro ctx w hw
  rw [holds_catching]
  refine holds_call hw (fun w' hw' _ => hw'.weaken fun s t ha _ _ => hok s t ha) fun e w' hw' => ?_
  exact hh e ctx w' hw'

/-- A callback of a save. -/
theorem does_call : L.Does j₀ m i F (c.call op) fun _ => L.After i F op fun a => c.raised a = none := by
  intro ctx w hw
  exact holds_call hw (fun w' hw' _ => hw'.weaken fun s t ha _ _ => ha) fun e w' hw' =>
    hw'.weaken fun s t _ a ha => by cases ha

/-- What stands after a save. -/
def Saved (L : Law S Op A ε M V J) (i : ℕ) (c : Saver S Op A ε W) (v : W) (F : S → List (Entry S Op A ε M V) → Prop)
    (t' : List (Entry S Op A ε M V)) : Prop :=
  ∃ s t s₁ s₂ s₃ a b, F s t ∧ L.view s₁ = L.view s ∧ t' = ⟨i, .reply c.sync b, s₃⟩ :: ⟨i, .call c.sync, s₂⟩ ::
    ⟨i, .reply (c.replace v) a, s₁⟩ :: ⟨i, .call (c.replace v), s⟩ :: t

/-- **A save of what is shown.** -/
theorem does_save {L : Law S Op A ε M V (Slot W)} {j₀ : Slot W} {m : Machine S Op A ε M V}
    {F : S → List (Entry S Op A ε M V) → Prop} {v : W}
    (hput : ∀ s x, L.view (c.put s x) = x ∧ L.lease.held (c.put s x) = L.lease.held s)
    (hsaved : ∀ s t, L.After i F (c.replace v) (fun a => c.raised a = none) s t → L.step t (L.view s) (.holding v))
    (hlost : ∀ t, L.step t (.holding v) .uncertain) :
    L.Does j₀ m i F (c.save v) fun _ s' t' => L.view s' = .holding v ∧ L.Saved i c v F t' := by
  have hview : ∀ s x, L.view (c.put s x) = x := fun s x => (hput s x).1
  have hheld : ∀ s x, L.lease.held (c.put s x) = L.lease.held s := fun s x => (hput s x).2
  have hsave : L.Does j₀ m i F (do
      c.call (c.replace v)
      Prog.write fun s => c.put s (.holding v)
      (c.call c.sync).catching c.unacknowledged) fun _ s' t' => L.view s' = .holding v ∧ L.Saved i c v F t' := by
    refine does_call_write (fun s => hheld s _) (fun s t ha => ?_) (does_call_catching ?_ fun e => ?_)
    · rw [hview]
      exact hsaved s t ha
    · rintro s₃ t' ⟨s₂, t₂, b, ⟨s₁, rfl, s, t, a, hF, hs, -, rfl⟩, hs', -, rfl⟩
      exact ⟨hs'.trans (hview _ _), s, t, s₁, _, s₃, a, b, hF, hs, rfl⟩
    · -- a replacement that is not known to be on the disk is moved away
      unfold Saver.unacknowledged
      refine does_call_write (fun s => hheld s _) ?_ does_fail
      rintro s₄ t' ⟨s₃, t₃, a, ⟨s₂, t₂, b, ⟨s₁, rfl, -⟩, hs₃, -, -⟩, hs₄, -, -⟩
      rw [hview, hs₄, hs₃, hview]
      exact hlost t'
  unfold Saver.save
  refine (does_read (P := fun _ => F) fun s t hF => hF).bind fun x => ?_
  cases x with
  | uncertain => exact does_fail
  | absent => exact hsave
  | holding v' => exact hsave

/-- **A save of what is not shown.** -/
theorem does_save_beside {v : W} (hput : ∀ s x, L.view (c.put s x) = L.view s ∧ L.lease.held (c.put s x) = L.lease.held s) :
    L.Does j₀ m i F (c.save v) fun _ s' t' => ∃ s t s₁ s₂ a b, F s t ∧ L.view s' = L.view s ∧
      t' = ⟨i, .reply c.sync b, s'⟩ :: ⟨i, .call c.sync, s₂⟩ :: ⟨i, .reply (c.replace v) a, s₁⟩ ::
        ⟨i, .call (c.replace v), s⟩ :: t := by
  have hsave : L.Does j₀ m i F (do
      c.call (c.replace v)
      Prog.write fun s => c.put s (.holding v)
      (c.call c.sync).catching c.unacknowledged) fun _ s' t' => ∃ s t s₁ s₂ a b, F s t ∧ L.view s' = L.view s ∧
        t' = ⟨i, .reply c.sync b, s'⟩ :: ⟨i, .call c.sync, s₂⟩ :: ⟨i, .reply (c.replace v) a, s₁⟩ ::
          ⟨i, .call (c.replace v), s⟩ :: t := by
    refine does_call.bind fun _ => (does_write (P := fun _ s t => ∃ s₁, s = c.put s₁ (.holding v) ∧
      L.After i F (c.replace v) (fun a => c.raised a = none) s₁ t) (fun s => hput s _)
      fun s t h => ⟨s, rfl, h⟩).bind fun _ => does_call_catching ?_ fun e => ?_
    · rintro s₃ t' ⟨s₂, t₂, b, ⟨s₁, rfl, s, t, a, hF, hs, -, rfl⟩, hs', -, rfl⟩
      exact ⟨s, t, s₁, _, a, b, hF, by rw [hs', (hput _ _).1, hs], rfl⟩
    · unfold Saver.unacknowledged
      exact does_call.bind fun _ => (does_write (P := fun _ _ _ => True) (fun s => hput s _)
        fun _ _ _ => trivial).bind fun _ => does_fail
  unfold Saver.save
  refine (does_read (P := fun _ => F) fun s t hF => hF).bind fun x => ?_
  cases x with
  | uncertain => exact does_fail
  | absent => exact hsave
  | holding v' => exact hsave

/-! ## Soundness -/

/-- **Every body keeps the law**, and a crash changes nothing that is shown. -/
structure Kept (L : Law S Op A ε M V J) (j₀ : J) (m : Machine S Op A ε M V) : Prop where
  method : ∀ meth i s, L.Outside j₀ m i (fun t => t = [⟨i, .invoke meth, s⟩]) (m.body meth) fun v t => L.owes t v
  crash : ∀ s s', m.crash s = some s' → L.view s' = L.view s

theorem Kept.contract (hK : L.Kept j₀ m) : (L.contract j₀ m).Kept where
  method := by
    intro ctx meth w _ hfresh _ hinv
    have hnil : trace w.next w.log = [] := trace_nil fun e he => (hfresh e he).ne
    have hbegin : L.Beyond j₀ w.next w (fun t => t = [⟨w.next, .invoke meth, w.st⟩]) (w.enter meth) := by
      refine ⟨⟨⟨.inl hinv.last, fun v hv => by cases hv⟩, hinv.lawful⟩, .inl rfl, ⟨rfl, fun _ => rfl, fun _ => ?_⟩, ?_⟩
      · refine ⟨[⟨w.next, .invoke meth, w.st⟩], rfl, fun e he => ?_⟩
        rw [List.mem_singleton.1 he]
        refine ⟨rfl, ?_⟩
        rintro op (h | ⟨a, h⟩) <;> cases h
      · exact (trace_self (e := ⟨w.next, .invoke meth, w.st⟩) rfl).trans (by rw [hnil])
    refine (hK.method meth w.next w.st ctx w _ hbegin).mono fun r w' hr => ?_
    refine hr.push (fun v hv => hr.holds v ?_) ?_
    · cases hv
      rfl
    · rintro op (h | ⟨a, h⟩) <;> cases h
  crash := by
    intro w s hinv hcrash
    have hview := hK.crash w.st s hcrash
    exact ⟨⟨⟨.inl (hview.trans hinv.last), fun v hv => by cases hv⟩, hinv.lawful⟩, rfl⟩

/-- **Soundness.** -/
theorem Kept.sound {s : S} (hK : L.Kept (L.view s) m) {c : Config S Op A ε M V} (h : m.Reachable s c) :
    L.Inv (L.view s) c.w :=
  Contract.sound hK.contract ⟨trivial, rfl⟩ h

/-- **What every lawful change keeps holds at every entry**, and of what there is now. -/
theorem Inv.all (h : L.Inv j₀ w) {P : J → Prop} (h0 : P j₀) (hP : ∀ t j j', P j → L.step t j j' → P j') :
    (∀ e ∈ w.log, P (L.view e.st)) ∧ P (L.view w.st) := by
  have key : ∀ log, Throughout (L.Lawful j₀) log → (∀ e ∈ log, P (L.view e.st)) ∧ P (L.last j₀ log) := by
    intro log hlog
    induction log with
    | nil => exact ⟨fun e he => absurd he (by simp), h0⟩
    | cons e log ih =>
      obtain ⟨hall, hlast⟩ := ih hlog.2
      have hnow : P (L.view e.st) := by
        rcases hlog.1.step with hs | hs
        · rw [hs]
          exact hlast
        · exact hP _ _ _ hlast hs
      refine ⟨fun e' he => ?_, hnow⟩
      rcases List.mem_cons.1 he with rfl | he
      · exact hnow
      · exact hall e' he
  obtain ⟨hall, hlast⟩ := key w.log h.lawful
  exact ⟨hall, h.last ▸ hlast⟩

/-- What an entry owes, wherever it stands. -/
theorem Inv.at {older : List (Entry S Op A ε M V)} (h : L.Inv j₀ w) (hlog : w.log = l ++ e :: older) : L.Lawful j₀ e older := by
  have hlawful := h.lawful
  rw [hlog] at hlawful
  exact hlawful.at

theorem last_append {older : List (Entry S Op A ε M V)} : L.last j₀ (l ++ older) = L.last (L.last j₀ older) l := by
  cases l with
  | nil => rfl
  | cons e l => rfl

/-- **What happened since**: `P` of the entries since some point of the log, and of what they show, holds now if every
entry keeps it. -/
theorem Inv.since {older : List (Entry S Op A ε M V)} (h : L.Inv j₀ w) (hlog : w.log = l ++ older)
    {P : List (Entry S Op A ε M V) → J → Prop} (h0 : P [] (L.last j₀ older))
    (hP : ∀ e l, P l (L.last j₀ (l ++ older)) → L.Lawful j₀ e (l ++ older) → P (e :: l) (L.view e.st)) :
    P l (L.view w.st) := by
  have key : ∀ l, Throughout (L.Lawful j₀) (l ++ older) → P l (L.last j₀ (l ++ older)) := by
    intro l hl
    induction l with
    | nil => exact h0
    | cons e l ih => exact hP e l (ih hl.2) hl.1
  rw [h.last, hlog]
  exact key l (hlog ▸ h.lawful)

end Law

end Durable
