import Arhugula.Reentrant.Prog

/-!
# Runs with re-entrant callbacks

A configuration is a world and a stack of method bodies, each waiting for a
callback. The environment drives it (`Input`): it calls a method, answers the
innermost pending callback, or crashes the process. It may call methods while
callbacks are pending, as far as `Machine.enter` lets it, so every interleaving
of nested calls is a run.

Every call, callback, answer and return is logged with the state it saw. The log
is newest first, and each entry names the activation (`frame`) it belongs to.
-/

namespace Reentrant

/-- What an activation does. -/
inductive Act (Op A ε M V : Type) where
  | invoke (m : M)
  | call (op : Op)
  | reply (op : Op) (a : A)
  | ret (r : Except ε V)
  | crash

/-- A log entry: the activation, what it did, and the state at that moment. -/
structure Entry (S Op A ε M V : Type) where
  frame : ℕ
  act : Act Op A ε M V
  st : S

/-- The shared state, the log of the run so far, and the next activation number. -/
structure World (S Op A ε M V : Type) where
  st : S
  log : List (Entry S Op A ε M V)
  next : ℕ

variable {S Op A ε M V α : Type}

/-- `P` holds of every entry of a log, given the entries before it. -/
def Throughout (P : Entry S Op A ε M V → List (Entry S Op A ε M V) → Prop) :
    List (Entry S Op A ε M V) → Prop
  | [] => True
  | e :: log => P e log ∧ Throughout P log

theorem Throughout.at {P : Entry S Op A ε M V → List (Entry S Op A ε M V) → Prop}
    {newer older : List (Entry S Op A ε M V)} {e : Entry S Op A ε M V}
    (h : Throughout P (newer ++ e :: older)) : P e older := by
  induction newer with
  | nil => exact h.1
  | cons _ _ ih => exact ih h.2

theorem Throughout.suffix {P : Entry S Op A ε M V → List (Entry S Op A ε M V) → Prop}
    {newer older : List (Entry S Op A ε M V)} (h : Throughout P (newer ++ older)) : Throughout P older := by
  induction newer with
  | nil => exact h
  | cons _ _ ih => exact ih h.2

namespace World

/-- Log an act of activation `i`. -/
def push (w : World S Op A ε M V) (i : ℕ) (x : Act Op A ε M V) : World S Op A ε M V :=
  { w with log := ⟨i, x, w.st⟩ :: w.log }

/-- Replace the state. -/
def put (w : World S Op A ε M V) (s : S) : World S Op A ε M V := { w with st := s }

/-- Begin the activation `w.next`. -/
def enter (w : World S Op A ε M V) (m : M) : World S Op A ε M V :=
  { w.push w.next (.invoke m) with next := w.next + 1 }

/-- Lose the process: only `s` survives. -/
def lose (w : World S Op A ε M V) (s : S) : World S Op A ε M V :=
  { (w.put s).push w.next .crash with next := w.next + 1 }

variable (w : World S Op A ε M V) (i : ℕ) (x : Act Op A ε M V) (m : M) (s : S)

@[simp] theorem push_st : (w.push i x).st = w.st := rfl
@[simp] theorem push_log : (w.push i x).log = ⟨i, x, w.st⟩ :: w.log := rfl
@[simp] theorem push_next : (w.push i x).next = w.next := rfl
@[simp] theorem put_st : (w.put s).st = s := rfl
@[simp] theorem put_log : (w.put s).log = w.log := rfl
@[simp] theorem put_next : (w.put s).next = w.next := rfl
@[simp] theorem enter_st : (w.enter m).st = w.st := rfl
@[simp] theorem enter_log : (w.enter m).log = ⟨w.next, .invoke m, w.st⟩ :: w.log := rfl
@[simp] theorem enter_next : (w.enter m).next = w.next + 1 := rfl
@[simp] theorem lose_st : (w.lose s).st = s := rfl
@[simp] theorem lose_log : (w.lose s).log = ⟨w.next, .crash, s⟩ :: w.log := rfl
@[simp] theorem lose_next : (w.lose s).next = w.next + 1 := rfl

end World

/-- A method body waiting for the answer to `op`. -/
structure Frame (S Op A ε V : Type) where
  id : ℕ
  op : Op
  k : A → Prog S Op A ε V

/-- The callbacks a stack waits for and the activations that made them, innermost first. -/
def pending (stack : List (Frame S Op A ε V)) : List (ℕ × Op) := stack.map fun f => (f.id, f.op)

/-- **The methods and their environment.** `enter w ctx m`: the environment may call
`m` in `w` while the callbacks `ctx` are pending. `legal w op a`: it may answer `op`
by `a`. `crash`: what survives a crash of the process, if the model has crashes. -/
structure Machine (S Op A ε M V : Type) where
  body : M → Prog S Op A ε V
  enter : World S Op A ε M V → List (ℕ × Op) → M → Bool
  legal : World S Op A ε M V → Op → A → Bool := fun _ _ _ => true
  crash : S → Option S := fun _ => none

/-- What the environment does next. -/
inductive Input (A M : Type) where
  | invoke (m : M)
  | reply (a : A)
  | crash

/-- A world, and the activations waiting in it. -/
structure Config (S Op A ε M V : Type) where
  w : World S Op A ε M V
  stack : List (Frame S Op A ε V)

/-- Run activation `i` up to its next callback or its end. -/
def advance (i : ℕ) (stack : List (Frame S Op A ε V)) :
    Prog S Op A ε V → World S Op A ε M V → Config S Op A ε M V
  | .ret v, w => ⟨w.push i (.ret (.ok v)), stack⟩
  | .fail e, w => ⟨w.push i (.ret (.error e)), stack⟩
  | .get k, w => advance i stack (k w.st) w
  | .set s k, w => advance i stack k (w.put s)
  | .call op k, w => ⟨w.push i (.call op), ⟨i, op, k⟩ :: stack⟩

namespace Machine

variable (m : Machine S Op A ε M V)

/-- **One step of a run**; `none` when the environment may not do this. -/
def step (c : Config S Op A ε M V) : Input A M → Option (Config S Op A ε M V)
  | .invoke meth =>
    if m.enter c.w (pending c.stack) meth then
      some (advance c.w.next c.stack (m.body meth) (c.w.enter meth))
    else none
  | .reply a =>
    match c.stack with
    | [] => none
    | f :: rest =>
      if m.legal c.w f.op a then
        some (advance f.id rest (f.k a) (c.w.push f.id (.reply f.op a)))
      else none
  | .crash => (m.crash c.w.st).map fun s => ⟨c.w.lose s, []⟩

/-- No method called yet. -/
def start (s : S) : Config S Op A ε M V := ⟨⟨s, [], 0⟩, []⟩

/-- A whole run. -/
def run (c : Config S Op A ε M V) : List (Input A M) → Option (Config S Op A ε M V)
  | [] => some c
  | x :: xs => (m.step c x).bind fun c' => run c' xs

/-- **Reachable from a start state**, by some run. -/
def Reachable (s : S) (c : Config S Op A ε M V) : Prop :=
  ∃ xs, m.run (start s) xs = some c

variable {m}

theorem run_append (c : Config S Op A ε M V) (xs ys : List (Input A M)) :
    m.run c (xs ++ ys) = (m.run c xs).bind fun c' => m.run c' ys := by
  induction xs generalizing c with
  | nil => rfl
  | cons x xs ih =>
    simp only [List.cons_append, run]
    cases m.step c x with
    | none => rfl
    | some c' => exact ih c'

theorem Reachable.start (s : S) : m.Reachable s (Machine.start s) := ⟨[], rfl⟩

theorem Reachable.step {s : S} {c c' : Config S Op A ε M V} {x : Input A M}
    (h : m.Reachable s c) (hs : m.step c x = some c') : m.Reachable s c' := by
  obtain ⟨xs, hxs⟩ := h
  exact ⟨xs ++ [x], by rw [run_append, hxs]; simp [run, hs]⟩

/-- **Induction over runs**: what holds at the start and is kept by every step holds
in every reachable configuration. -/
theorem Reachable.induction {s : S} {P : Config S Op A ε M V → Prop}
    (h0 : P (Machine.start s)) (hstep : ∀ c c' x, P c → m.step c x = some c' → P c')
    {c : Config S Op A ε M V} (h : m.Reachable s c) : P c := by
  obtain ⟨xs, hxs⟩ := h
  have key : ∀ (xs : List (Input A M)) (c₀ : Config S Op A ε M V), P c₀ →
      m.run c₀ xs = some c → P c := by
    intro xs
    induction xs with
    | nil => intro c₀ h₀ hr; simp only [run, Option.some.injEq] at hr; exact hr ▸ h₀
    | cons x xs ih =>
      intro c₀ h₀ hr
      simp only [run, Option.bind_eq_some_iff] at hr
      obtain ⟨c₁, hs, hr⟩ := hr
      exact ih c₁ (hstep c₀ c₁ x h₀ hs) hr
  exact key xs _ h0 hxs

/-- Activations are numbered in the order in which they begin. -/
structure Tidy (c : Config S Op A ε M V) : Prop where
  log : ∀ e ∈ c.w.log, e.frame < c.w.next
  stack : ∀ f ∈ c.stack, f.id < c.w.next

theorem Tidy.push {w : World S Op A ε M V} {stack : List (Frame S Op A ε V)} {i : ℕ}
    (h : Tidy ⟨w, stack⟩) (hi : i < w.next) (x : Act Op A ε M V) : Tidy ⟨w.push i x, stack⟩ := by
  refine ⟨fun e he => ?_, h.stack⟩
  rcases List.mem_cons.1 he with rfl | he
  · exact hi
  · exact h.log e he

theorem Tidy.advance {stack : List (Frame S Op A ε V)} {i : ℕ} {p : Prog S Op A ε V}
    {w : World S Op A ε M V} (h : Tidy ⟨w, stack⟩) (hi : i < w.next) :
    Tidy (advance i stack p w) := by
  induction p generalizing w with
  | ret v => exact h.push hi _
  | fail e => exact h.push hi _
  | get k ih => exact ih _ h hi
  | set s k ih => exact ih (w := w.put s) ⟨h.log, h.stack⟩ hi
  | call op k ih =>
    refine ⟨(h.push hi _).log, fun f hf => ?_⟩
    rcases List.mem_cons.1 hf with rfl | hf
    · exact hi
    · exact h.stack f hf

theorem Tidy.step {c c' : Config S Op A ε M V} {x : Input A M} (h : Tidy c)
    (hs : m.step c x = some c') : Tidy c' := by
  obtain ⟨w, stack⟩ := c
  cases x with
  | invoke meth =>
    simp only [Machine.step] at hs
    split at hs
    · cases hs
      refine Tidy.advance ⟨fun e he => ?_, fun f hf => ?_⟩ (by simp)
      · rcases List.mem_cons.1 he with rfl | he
        · exact Nat.lt_succ_self _
        · exact Nat.lt_succ_of_lt (h.log e he)
      · exact Nat.lt_succ_of_lt (h.stack f hf)
    · cases hs
  | reply a =>
    cases stack with
    | nil => simp [Machine.step] at hs
    | cons f rest =>
      simp only [Machine.step] at hs
      split at hs
      · cases hs
        have hf := h.stack f List.mem_cons_self
        have hrest : Tidy ⟨w, rest⟩ := ⟨h.log, fun g hg => h.stack g (List.mem_cons_of_mem _ hg)⟩
        exact (hrest.push hf _).advance hf
      · cases hs
  | crash =>
    simp only [Machine.step, Option.map_eq_some_iff] at hs
    obtain ⟨s', -, rfl⟩ := hs
    refine ⟨fun e he => ?_, fun f hf => absurd hf (by simp)⟩
    rcases List.mem_cons.1 he with rfl | he
    · exact Nat.lt_succ_self _
    · exact Nat.lt_succ_of_lt (h.log e he)

/-- A run that ends as tested is a reachable configuration as tested. -/
theorem Reachable.of_run (m : Machine S Op A ε M V) (s : S) (xs : List (Input A M))
    (test : Config S Op A ε M V → Bool)
    (h : (m.run (Machine.start s) xs).any test = true) : ∃ c, m.Reachable s c ∧ test c = true := by
  obtain ⟨c, hc, ht⟩ := (Option.any_eq_true _ _).1 h
  exact ⟨c, ⟨xs, hc⟩, ht⟩

end Machine

end Reentrant
