import Arhugula.Reentrant.Machine

/-!
# Processes that share a state

Each process runs a method body; between two of its callbacks it is alone. The environment begins processes,
answers any of those that wait, and kills any. The log is the one of `Reentrant.Machine`; `acts i log` is what
one process did.

A `Discipline` says what every process may rely on (`rely`, which all writes keep) and what each act owes,
given what its process did before. `Holds` runs a body against it, whatever the others do at its callbacks, and
`Kept.sound` gives it for every reachable configuration.
-/

namespace Concurrent

open Reentrant

variable {S Op A ε M V α β : Type}

/-- What the environment does next. -/
inductive Input (A M : Type) where
  | begin (m : M)
  | reply (i : ℕ) (a : A)
  | kill (i : ℕ)

/-- The processes that wait, but one. -/
def without (i : ℕ) (stack : List (Frame S Op A ε V)) : List (Frame S Op A ε V) := stack.filter fun f => f.id ≠ i

section Step

variable (body : M → Prog S Op A ε V)

/-- **One step**; `none` where the environment may not do this. -/
def step (c : Config S Op A ε M V) : Input A M → Option (Config S Op A ε M V)
  | .begin m => some (advance c.w.next c.stack (body m) (c.w.enter m))
  | .reply i a =>
    match c.stack.find? fun f => f.id = i with
    | none => none
    | some f => some (advance i (without i c.stack) (f.k a) (c.w.push i (.reply f.op a)))
  | .kill i =>
    if c.stack.any (fun f => f.id = i) then some ⟨c.w.push i .crash, without i c.stack⟩ else none

/-- A whole run. -/
def run (c : Config S Op A ε M V) : List (Input A M) → Option (Config S Op A ε M V)
  | [] => some c
  | x :: xs => (step body c x).bind fun c' => run c' xs

/-- **Reachable from a start state.** -/
inductive Reachable (s : S) : Config S Op A ε M V → Prop
  | start : Reachable s (Machine.start s)
  | step {c c' : Config S Op A ε M V} {x : Input A M} (h : Reachable s c) (hs : step body c x = some c') :
      Reachable s c'

variable {body}

theorem Reachable.run {s : S} {c c' : Config S Op A ε M V} (h : Reachable body s c) (xs : List (Input A M))
    (hr : run body c xs = some c') : Reachable body s c' := by
  induction xs generalizing c with
  | nil =>
    simp only [Concurrent.run, Option.some.injEq] at hr
    exact hr ▸ h
  | cons x xs ih =>
    simp only [Concurrent.run, Option.bind_eq_some_iff] at hr
    obtain ⟨c₁, hs, hr⟩ := hr
    exact ih (h.step hs) hr

/-- A run that ends as tested is a reachable configuration as tested. -/
theorem Reachable.of_run (body : M → Prog S Op A ε V) (s : S) (xs : List (Input A M))
    (test : Config S Op A ε M V → Bool) (h : (Concurrent.run body (Machine.start s) xs).any test = true) :
    ∃ c, Reachable body s c ∧ test c = true := by
  obtain ⟨c, hc, ht⟩ := (Option.any_eq_true _ _).1 h
  exact ⟨c, Reachable.start.run xs hc, ht⟩

end Step

/-! ## What one process did -/

/-- The acts of one process, newest first. -/
def acts (i : ℕ) (log : List (Entry S Op A ε M V)) : List (Act Op A ε M V) :=
  (log.filter fun e => e.frame = i).map Entry.act

variable {log : List (Entry S Op A ε M V)} {e : Entry S Op A ε M V} {i j : ℕ}

theorem acts_self (h : e.frame = i) : acts i (e :: log) = e.act :: acts i log := by
  unfold acts
  rw [List.filter_cons_of_pos (by simpa using h), List.map_cons]

theorem acts_other (h : e.frame ≠ i) : acts i (e :: log) = acts i log := by
  unfold acts
  rw [List.filter_cons_of_neg (by simpa using h)]

theorem acts_push (w : World S Op A ε M V) (x : Act Op A ε M V) : acts i (w.push i x).log = x :: acts i w.log :=
  acts_self rfl

theorem acts_enter (w : World S Op A ε M V) (m : M) :
    acts w.next (w.enter m).log = .invoke m :: acts w.next w.log := acts_self rfl

theorem mem_acts {x : Act Op A ε M V} : x ∈ acts i log ↔ ∃ e ∈ log, e.frame = i ∧ e.act = x := by
  unfold acts
  simp only [List.mem_map, List.mem_filter, decide_eq_true_eq, and_assoc]

/-- The last act of a process, and its entry. -/
theorem acts_split {x : Act Op A ε M V} {t : List (Act Op A ε M V)} (h : acts i log = x :: t) :
    ∃ newer e older, log = newer ++ e :: older ∧ e.frame = i ∧ e.act = x ∧ acts i older = t := by
  induction log with
  | nil => cases h
  | cons e log ih =>
    by_cases hi : e.frame = i
    · rw [acts_self hi] at h
      obtain ⟨rfl, rfl⟩ := List.cons.inj h
      exact ⟨[], e, log, rfl, hi, rfl, rfl⟩
    · rw [acts_other hi] at h
      obtain ⟨newer, e', older, hl, hrest⟩ := ih h
      exact ⟨e :: newer, e', older, by rw [hl, List.cons_append], hrest⟩

theorem acts_fresh (h : ∀ e ∈ log, e.frame < i) : acts i log = [] := by
  rw [List.eq_nil_iff_forall_not_mem]
  intro x hx
  obtain ⟨e, he, hf, -⟩ := mem_acts.1 hx
  have hlt := h e he
  omega

/-- An activation that runs logs one more entry, a call or a return. -/
theorem advance_log (stack : List (Frame S Op A ε V)) (p : Prog S Op A ε V) (w : World S Op A ε M V) :
    ∃ x s, (advance i stack p w).w.log = ⟨i, x, s⟩ :: w.log ∧ ((∃ op, x = .call op) ∨ ∃ r, x = .ret r) := by
  induction p generalizing w with
  | ret v => exact ⟨_, _, rfl, .inr ⟨_, rfl⟩⟩
  | fail e => exact ⟨_, _, rfl, .inr ⟨_, rfl⟩⟩
  | get k ih => exact ih _ w
  | set s k ih => exact ih (w.put s)
  | call op k ih => exact ⟨_, _, rfl, .inl ⟨_, rfl⟩⟩

/-- **An answer is logged where nothing runs**: what is older is the log of a configuration of the run. -/
theorem Reachable.before {body : M → Prog S Op A ε V} {s : S} {c : Config S Op A ε M V} (h : Reachable body s c)
    {newer older : List (Entry S Op A ε M V)} (hlog : c.w.log = newer ++ e :: older) {op : Op} {a : A}
    (he : e.act = .reply op a) : ∃ c', Reachable body s c' ∧ c'.w.log = older ∧ c'.w.st = e.st := by
  induction h generalizing newer with
  | start =>
    rw [Machine.start] at hlog
    exact absurd hlog (by simp)
  | @step c c' x hc hs ih =>
    -- the entries of a step: one that begins it, and one that ends it
    have hsplit : ∀ {y z : Entry S Op A ε M V}, c'.w.log = y :: z :: c.w.log →
        ((∃ op, y.act = .call op) ∨ ∃ r, y.act = .ret r) → (z.act = .reply op a → z.st = c.w.st) →
        ∃ c', Reachable body s c' ∧ c'.w.log = older ∧ c'.w.st = e.st := by
      intro y z hl hy hz
      rw [hl] at hlog
      match newer with
      | [] =>
        obtain ⟨rfl, -⟩ := List.cons.inj hlog
        rcases hy with ⟨op', hy⟩ | ⟨r, hy⟩
        · rw [he] at hy
          cases hy
        · rw [he] at hy
          cases hy
      | [_] =>
        obtain ⟨-, hlog⟩ := List.cons.inj hlog
        obtain ⟨rfl, rfl⟩ := List.cons.inj hlog
        exact ⟨c, hc, rfl, (hz he).symm⟩
      | _ :: _ :: newer =>
        obtain ⟨-, hlog⟩ := List.cons.inj hlog
        obtain ⟨-, hlog⟩ := List.cons.inj hlog
        exact ih hlog
    cases x with
    | begin m =>
      cases hs
      obtain ⟨x, s', hl, hx⟩ := advance_log (i := c.w.next) c.stack (body m) (c.w.enter m)
      exact hsplit hl hx fun _ => rfl
    | reply i' a' =>
      simp only [Concurrent.step] at hs
      split at hs
      · cases hs
      · rename_i f _
        cases hs
        obtain ⟨x, s', hl, hx⟩ := advance_log (i := i') (without i' c.stack) (f.k a') (c.w.push i' (.reply f.op a'))
        exact hsplit hl hx fun _ => rfl
    | kill i' =>
      simp only [Concurrent.step] at hs
      split at hs
      · cases hs
        match newer with
        | [] =>
          obtain ⟨rfl, -⟩ := List.cons.inj hlog
          cases he
        | _ :: newer =>
          obtain ⟨-, hlog⟩ := List.cons.inj hlog
          exact ih hlog
      · cases hs

/-! ## The discipline -/

/-- **What a process may rely on, and what it owes.** -/
structure Discipline (S Op A ε M V : Type) where
  rely : S → S → Prop
  refl : ∀ s, rely s s
  trans : ∀ {a b c}, rely a b → rely b c → rely a c
  owes : List (Act Op A ε M V) → Act Op A ε M V → S → Prop

variable (K : Discipline S Op A ε M V)

/-- A process that did `t` runs `p` from the state `s`, whatever others do at its callbacks: what it writes may
be relied on, its acts owe nothing, and it ends in `Q`. -/
def Holds : Prog S Op A ε α → (Except ε α → List (Act Op A ε M V) → S → Prop) → List (Act Op A ε M V) → S → Prop
  | .ret a, Q, t, s => Q (.ok a) t s
  | .fail e, Q, t, s => Q (.error e) t s
  | .get k, Q, t, s => Holds (k s) Q t s
  | .set s' k, Q, t, s => K.rely s s' ∧ Holds k Q t s'
  | .call op k, Q, t, s => K.owes t (.call op) s ∧ ∀ s', K.rely s s' → ∀ a,
      K.owes (.call op :: t) (.reply op a) s' ∧ Holds (k a) Q (.reply op a :: .call op :: t) s'

section Rules

variable {K} {t : List (Act Op A ε M V)} {s : S} {Q : Except ε α → List (Act Op A ε M V) → S → Prop}

theorem Holds.mono {p : Prog S Op A ε α} {Q' : Except ε α → List (Act Op A ε M V) → S → Prop}
    (h : Holds K p Q t s) (hQ : ∀ r t' s', Q r t' s' → Q' r t' s') : Holds K p Q' t s := by
  induction p generalizing t s with
  | ret a => exact hQ _ _ _ h
  | fail e => exact hQ _ _ _ h
  | get k ih => exact ih _ h
  | set s' k ih => exact ⟨h.1, ih h.2⟩
  | call op k ih => exact ⟨h.1, fun s' hs' a => ⟨(h.2 s' hs' a).1, ih a (h.2 s' hs' a).2⟩⟩

theorem holds_bind {p : Prog S Op A ε β} {f : β → Prog S Op A ε α} :
    Holds K (p >>= f) Q t s ↔ Holds K p (fun r t' s' => match r with
      | .ok b => Holds K (f b) Q t' s'
      | .error e => Q (.error e) t' s') t s := by
  show Holds K (p.bind f) Q t s ↔ _
  induction p generalizing t s with
  | ret b => exact Iff.rfl
  | fail e => exact Iff.rfl
  | get k ih => exact ih _
  | set s' k ih => exact and_congr_right fun _ => ih
  | call op k ih =>
    refine and_congr_right fun _ => ?_
    exact forall_congr' fun s' => forall_congr' fun _ => forall_congr' fun a => and_congr_right fun _ => ih a

@[simp] theorem holds_pure (a : α) : Holds K (pure a) Q t s ↔ Q (.ok a) t s := Iff.rfl

@[simp] theorem holds_throw (e : ε) : Holds K (throw e : Prog S Op A ε α) Q t s ↔ Q (.error e) t s := Iff.rfl

@[simp] theorem holds_read (f : S → α) : Holds K (Prog.read f) Q t s ↔ Q (.ok (f s)) t s := Iff.rfl

@[simp] theorem holds_write (f : S → S) {Q : Except ε Unit → List (Act Op A ε M V) → S → Prop} :
    Holds K (Prog.write f) Q t s ↔ K.rely s (f s) ∧ Q (.ok ()) t (f s) := Iff.rfl

theorem holds_ask (op : Op) {Q : Except ε A → List (Act Op A ε M V) → S → Prop} :
    Holds K (Prog.ask op) Q t s ↔ K.owes t (.call op) s ∧ ∀ s', K.rely s s' → ∀ a,
      K.owes (.call op :: t) (.reply op a) s' ∧ Q (.ok a) (.reply op a :: .call op :: t) s' := Iff.rfl

end Rules

/-- **Every body keeps the discipline.** -/
structure Kept (body : M → Prog S Op A ε V) : Prop where
  method : ∀ m s, K.owes [] (.invoke m) s ∧ Holds K (body m) (fun r t s' => K.owes t (.ret r) s') [.invoke m] s
  crash : ∀ t op s s', K.owes t (.call op) s → K.rely s s' → K.owes (.call op :: t) .crash s'

/-- A process that waits, and that can go on from any state that the others lead to. -/
def Waits (f : Frame S Op A ε V) (w : World S Op A ε M V) : Prop :=
  ∃ t s, acts f.id w.log = .call f.op :: t ∧ K.owes t (.call f.op) s ∧ K.rely s w.st ∧ ∀ s', K.rely s s' → ∀ a,
    K.owes (.call f.op :: t) (.reply f.op a) s' ∧
      Holds K (f.k a) (fun r t s' => K.owes t (.ret r) s') (.reply f.op a :: .call f.op :: t) s'

/-- What a process leaves when it stops running. -/
def Rests (i : ℕ) (log : List (Entry S Op A ε M V)) : Prop :=
  ∀ x t, acts i log = x :: t → (∃ op, x = .call op) ∨ (∃ r, x = .ret r) ∨ x = .crash

/-- **What holds of every reachable configuration.** -/
structure Sound (c : Config S Op A ε M V) : Prop where
  owes : Throughout (fun e older => K.owes (acts e.frame older) e.act e.st ∧ ∀ e' ∈ older, K.rely e'.st e.st) c.w.log
  rely : ∀ e ∈ c.w.log, K.rely e.st c.w.st
  log : ∀ e ∈ c.w.log, e.frame < c.w.next
  waiting : ∀ f ∈ c.stack, f.id < c.w.next ∧ Waits K f c.w
  rests : ∀ i, Rests i c.w.log

/-- **While a process runs**, the others wait. -/
structure Running (i : ℕ) (w : World S Op A ε M V) (stack : List (Frame S Op A ε V)) : Prop where
  owes : Throughout (fun e older => K.owes (acts e.frame older) e.act e.st ∧ ∀ e' ∈ older, K.rely e'.st e.st) w.log
  rely : ∀ e ∈ w.log, K.rely e.st w.st
  log : ∀ e ∈ w.log, e.frame < w.next
  waiting : ∀ f ∈ stack, f.id < w.next ∧ f.id ≠ i ∧ Waits K f w
  live : i < w.next
  rests : ∀ j, j ≠ i → Rests j w.log

variable {K}

/-- Entries of other processes do not wake one that waits. -/
theorem Waits.push {f : Frame S Op A ε V} {w : World S Op A ε M V} (h : Waits K f w) {x : Act Op A ε M V}
    (hi : i ≠ f.id) : Waits K f (w.push i x) := by
  obtain ⟨t, s, ht, ho, hs, hgo⟩ := h
  refine ⟨t, s, ?_, ho, hs, hgo⟩
  rw [World.push_log, acts_other hi]
  exact ht

theorem Waits.put {f : Frame S Op A ε V} {w : World S Op A ε M V} (h : Waits K f w) {s : S} (hs : K.rely w.st s) :
    Waits K f (w.put s) := by
  obtain ⟨t, s₀, ht, ho, hs₀, hgo⟩ := h
  exact ⟨t, s₀, ht, ho, K.trans hs₀ hs, hgo⟩

theorem Rests.push {w : World S Op A ε M V} {x : Act Op A ε M V} (h : Rests j w.log) (hi : i ≠ j) :
    Rests j (w.push i x).log := by
  intro y t hy
  rw [World.push_log, acts_other hi] at hy
  exact h y t hy

/-- An entry of the process that runs. -/
theorem Running.push {w : World S Op A ε M V} {stack : List (Frame S Op A ε V)} {x : Act Op A ε M V}
    (h : Running K i w stack) (hx : K.owes (acts i w.log) x w.st) :
    Running K i (w.push i x) stack where
  owes := ⟨⟨hx, h.rely⟩, h.owes⟩
  rely := by
    intro e he
    rcases List.mem_cons.1 he with rfl | he
    · exact K.refl _
    · exact h.rely e he
  log := by
    intro e he
    rcases List.mem_cons.1 he with rfl | he
    · exact h.live
    · exact h.log e he
  waiting := by
    intro f hf
    obtain ⟨hlt, hne, hwaits⟩ := h.waiting f hf
    exact ⟨hlt, hne, hwaits.push hne.symm⟩
  live := h.live
  rests j hj := (h.rests j hj).push hj.symm

/-- A process that stops. -/
theorem Running.sound {w : World S Op A ε M V} {stack : List (Frame S Op A ε V)} (h : Running K i w stack)
    (hi : Rests i w.log) : Sound K ⟨w, stack⟩ where
  owes := h.owes
  rely := h.rely
  log := h.log
  waiting f hf := ⟨(h.waiting f hf).1, (h.waiting f hf).2.2⟩
  rests j := by
    by_cases hj : j = i
    · exact hj ▸ hi
    · exact h.rests j hj

theorem rests_push {w : World S Op A ε M V} {x : Act Op A ε M V}
    (hx : (∃ op, x = .call op) ∨ (∃ r, x = .ret r) ∨ x = .crash) : Rests i (w.push i x).log := by
  intro y t hy
  rw [acts_push] at hy
  obtain ⟨rfl, -⟩ := List.cons.inj hy
  exact hx

/-- **A process runs up to its next callback or its end.** -/
theorem Running.advance {stack : List (Frame S Op A ε V)} {p : Prog S Op A ε V} {w : World S Op A ε M V}
    (h : Running K i w stack)
    (hp : Holds K p (fun r t s => K.owes t (.ret r) s) (acts i w.log) w.st) :
    Sound K (advance i stack p w) := by
  induction p generalizing w with
  | ret v => exact (h.push hp).sound (rests_push (.inr (.inl ⟨_, rfl⟩)))
  | fail e => exact (h.push hp).sound (rests_push (.inr (.inl ⟨_, rfl⟩)))
  | get k ih => exact ih _ h hp
  | set s k ih =>
    refine ih (w := w.put s) ?_ hp.2
    exact { h with
      rely := fun e he => K.trans (h.rely e he) hp.1
      waiting := fun f hf => ⟨(h.waiting f hf).1, (h.waiting f hf).2.1, (h.waiting f hf).2.2.put hp.1⟩ }
  | call op k ih =>
    have hpush := h.push (x := .call op) hp.1
    have hsound := hpush.sound (rests_push (.inl ⟨op, rfl⟩))
    refine { hsound with waiting := fun f hf => ?_ }
    rcases List.mem_cons.1 hf with rfl | hf
    · exact ⟨h.live, _, _, acts_self rfl, hp.1, K.refl _, hp.2⟩
    · exact hsound.waiting f hf

theorem without_mem {stack : List (Frame S Op A ε V)} {f : Frame S Op A ε V} (h : f ∈ without i stack) :
    f ∈ stack ∧ f.id ≠ i := by
  obtain ⟨hf, hne⟩ := List.mem_filter.1 h
  exact ⟨hf, of_decide_eq_true hne⟩

/-- The process that is resumed, or killed, while the others wait. -/
theorem Sound.running {c : Config S Op A ε M V} (h : Sound K c) (hi : i < c.w.next) :
    Running K i c.w (without i c.stack) where
  owes := h.owes
  rely := h.rely
  log := h.log
  waiting f hf := ⟨(h.waiting f (without_mem hf).1).1, (without_mem hf).2, (h.waiting f (without_mem hf).1).2⟩
  live := hi
  rests j _ := h.rests j

/-- **Soundness.** If every body keeps the discipline, it stands in every reachable configuration. -/
theorem Kept.sound {body : M → Prog S Op A ε V} (hK : Kept K body) {s : S} {c : Config S Op A ε M V}
    (h : Reachable body s c) : Sound K c := by
  induction h with
  | start =>
    exact ⟨trivial, fun e he => (by cases he), fun e he => (by cases he), fun f hf => (by cases hf),
      fun i x t hx => by cases hx⟩
  | @step c c' x hc hs ih =>
    cases x with
    | begin m =>
      cases hs
      have hnil : acts c.w.next c.w.log = [] := acts_fresh ih.log
      obtain ⟨hinvoke, hbody⟩ := hK.method m c.w.st
      have hrun : Running (K := K) c.w.next (c.w.enter m) c.stack := by
        refine ⟨⟨⟨?_, ih.rely⟩, ih.owes⟩, fun e he => ?_, fun e he => ?_, fun f hf => ?_,
          Nat.lt_succ_self _, fun j hj => (ih.rests j).push hj.symm⟩
        · show K.owes (acts c.w.next c.w.log) _ _
          rw [hnil]
          exact hinvoke
        · rcases List.mem_cons.1 he with rfl | he
          · exact K.refl _
          · exact ih.rely e he
        · rcases List.mem_cons.1 he with rfl | he
          · exact Nat.lt_succ_self _
          · exact Nat.lt_succ_of_lt (ih.log e he)
        · obtain ⟨hlt, t, s₀, ht, ho, hs₀, hgo⟩ := ih.waiting f hf
          refine ⟨Nat.lt_succ_of_lt hlt, hlt.ne, t, s₀, ?_, ho, hs₀, hgo⟩
          rw [World.enter_log, acts_other hlt.ne']
          exact ht
      refine hrun.advance ?_
      rw [acts_enter, hnil]
      exact hbody
    | reply i a =>
      simp only [Concurrent.step] at hs
      split at hs
      · cases hs
      · rename_i f hfind
        cases hs
        have hmem : f ∈ c.stack := List.mem_of_find?_eq_some hfind
        have hid : f.id = i := by simpa using List.find?_some hfind
        subst hid
        obtain ⟨hlt, t, s₀, ht, -, hs₀, hgo⟩ := ih.waiting f hmem
        obtain ⟨howes, hbody⟩ := hgo c.w.st hs₀ a
        refine ((ih.running hlt).push (ht ▸ howes)).advance ?_
        rw [acts_push, ht]
        exact hbody
    | kill i =>
      simp only [Concurrent.step] at hs
      split at hs
      · rename_i hany
        cases hs
        obtain ⟨f, hmem, hid⟩ := List.any_eq_true.1 hany
        have hid : f.id = i := of_decide_eq_true hid
        subst hid
        obtain ⟨hlt, t, s₀, ht, ho, hs₀, -⟩ := ih.waiting f hmem
        exact ((ih.running hlt).push (ht ▸ hK.crash t f.op s₀ _ ho hs₀)).sound (rests_push (.inr (.inr rfl)))
      · cases hs

end Concurrent
