import Arhugula.Concurrent.Processes

/-!
# Processes that keep an invariant of the log

`Discipline` relates states only. Here what every process may rely on is about worlds, so it can count what is in
the log: `Rel i` is what the processes other than `i` may do while `i` waits, and `Inv` holds wherever no process
runs. `Runs` runs a body of process `i`, whatever the others do at its callbacks; `Bodies.sound` gives the invariant
for every reachable configuration if every body runs so.
-/

namespace Concurrent

namespace Shared

open Reentrant

variable {S Op A ε M V α β : Type}

/-- **An invariant, and what the others may do.** -/
structure Rules (S Op A ε M V : Type) where
  Inv : World S Op A ε M V → Prop
  Rel : ℕ → World S Op A ε M V → World S Op A ε M V → Prop
  refl : ∀ i w, Rel i w w
  trans : ∀ {i a b c}, Rel i a b → Rel i b c → Rel i a c

variable (K : Rules S Op A ε M V)

/-- **What the others do while process `i` waits.** -/
structure Meanwhile (i : ℕ) (w w' : World S Op A ε M V) : Prop where
  rel : K.Rel i w w'
  log : ∃ new, w'.log = new ++ w.log ∧ ∀ e ∈ new, e.frame ≠ i

/-- What a process leaves to the others where it stops. -/
structure Leaves (i : ℕ) (w₀ w : World S Op A ε M V) : Prop where
  inv : K.Inv w
  rel : ∀ j, j ≠ i → K.Rel j w₀ w

/-- **Process `i`, which went on in `w₀`, runs a body from `w`**, and ends in `Q`. -/
def Runs (i : ℕ) : Prog S Op A ε α → (Except ε α → World S Op A ε M V → World S Op A ε M V → Prop) →
    World S Op A ε M V → World S Op A ε M V → Prop
  | .ret v, Q, w₀, w => Q (.ok v) w₀ w
  | .fail e, Q, w₀, w => Q (.error e) w₀ w
  | .get k, Q, w₀, w => Runs i (k w.st) Q w₀ w
  | .set s k, Q, w₀, w => Runs i k Q w₀ (w.put s)
  | .call op k, Q, w₀, w => Leaves K i w₀ (w.push i (.call op)) ∧
      ∀ w', Meanwhile K i (w.push i (.call op)) w' → K.Inv w' → ∀ a, Runs i (k a) Q w' (w'.push i (.reply op a))

/-- How a body ends. -/
def Ends (i : ℕ) (r : Except ε V) (w₀ w : World S Op A ε M V) : Prop := Leaves K i w₀ (w.push i (.ret r))

/-! ## Rules -/

section Rules

variable {K} {i j : ℕ} {Q : Except ε α → World S Op A ε M V → World S Op A ε M V → Prop}
  {w w' w₀ : World S Op A ε M V}

theorem Runs.mono {p : Prog S Op A ε α} {Q' : Except ε α → World S Op A ε M V → World S Op A ε M V → Prop}
    (h : Runs K i p Q w₀ w) (hQ : ∀ r w₀ w', Q r w₀ w' → Q' r w₀ w') : Runs K i p Q' w₀ w := by
  induction p generalizing w₀ w with
  | ret v => exact hQ _ _ _ h
  | fail e => exact hQ _ _ _ h
  | get k ih => exact ih _ h
  | set s k ih => exact ih h
  | call op k ih => exact ⟨h.1, fun w' hw hi a => ih a (h.2 w' hw hi a)⟩

/-- **Sequencing.** -/
theorem runs_bind {p : Prog S Op A ε β} {f : β → Prog S Op A ε α} :
    Runs K i (p >>= f) Q w₀ w ↔ Runs K i p (fun r w₀ w' => match r with
      | .ok v => Runs K i (f v) Q w₀ w'
      | .error e => Q (.error e) w₀ w') w₀ w := by
  show Runs K i (p.bind f) Q w₀ w ↔ _
  induction p generalizing w₀ w with
  | ret v => exact Iff.rfl
  | fail e => exact Iff.rfl
  | get k ih => exact ih _
  | set s k ih => exact ih
  | call op k ih =>
    refine and_congr_right fun _ => forall_congr' fun w' => ?_
    exact forall_congr' fun _ => forall_congr' fun _ => forall_congr' fun a => ih a

/-- A body that is run to its end, whether it returns or raises. -/
theorem runs_attempt {p : Prog S Op A ε β}
    {Q : Except ε (Except ε β) → World S Op A ε M V → World S Op A ε M V → Prop} :
    Runs K i p.attempt Q w₀ w ↔ Runs K i p (fun r w₀ w' => Q (.ok r) w₀ w') w₀ w := by
  induction p generalizing w₀ w with
  | ret v => exact Iff.rfl
  | fail e => exact Iff.rfl
  | get k ih => exact ih _
  | set s k ih => exact ih
  | call op k ih =>
    refine and_congr_right fun _ => forall_congr' fun w' => ?_
    exact forall_congr' fun _ => forall_congr' fun _ => forall_congr' fun a => ih a

/-- **Exception handlers.** -/
theorem runs_catching {p : Prog S Op A ε α} {h : ε → Prog S Op A ε α} :
    Runs K i (p.catching h) Q w₀ w ↔ Runs K i p (fun r w₀ w' => match r with
      | .ok v => Q (.ok v) w₀ w'
      | .error e => Runs K i (h e) Q w₀ w') w₀ w := by
  show Runs K i (p.attempt >>= _) Q w₀ w ↔ _
  rw [runs_bind, runs_attempt]
  constructor <;> refine fun hp => hp.mono fun r w₀ w' hr => ?_
  · cases r <;> exact hr
  · cases r <;> exact hr

@[simp] theorem runs_pure (v : α) : Runs K i (pure v) Q w₀ w ↔ Q (.ok v) w₀ w := Iff.rfl

@[simp] theorem runs_throw (e : ε) : Runs K i (throw e : Prog S Op A ε α) Q w₀ w ↔ Q (.error e) w₀ w := Iff.rfl

@[simp] theorem runs_read (f : S → α) : Runs K i (Prog.read f) Q w₀ w ↔ Q (.ok (f w.st)) w₀ w := Iff.rfl

@[simp] theorem runs_write (f : S → S) {Q : Except ε Unit → World S Op A ε M V → World S Op A ε M V → Prop} :
    Runs K i (Prog.write f) Q w₀ w ↔ Q (.ok ()) w₀ (w.put (f w.st)) := Iff.rfl

theorem runs_ask (op : Op) {Q : Except ε A → World S Op A ε M V → World S Op A ε M V → Prop} :
    Runs K i (Prog.ask op) Q w₀ w ↔ Leaves K i w₀ (w.push i (.call op)) ∧
      ∀ w', Meanwhile K i (w.push i (.call op)) w' → K.Inv w' → ∀ a, Q (.ok a) w' (w'.push i (.reply op a)) := Iff.rfl

theorem Meanwhile.refl (i : ℕ) (w : World S Op A ε M V) : Meanwhile K i w w :=
  ⟨K.refl i w, [], rfl, fun e he => by cases he⟩

theorem Meanwhile.trans {a b c : World S Op A ε M V} (h : Meanwhile K i a b) (h' : Meanwhile K i b c) :
    Meanwhile K i a c := by
  obtain ⟨hrel, l, hl, hn⟩ := h
  obtain ⟨hrel', l', hl', hn'⟩ := h'
  refine ⟨K.trans hrel hrel', l' ++ l, by rw [hl', hl, List.append_assoc], fun e he => ?_⟩
  rcases List.mem_append.1 he with he | he
  · exact hn' e he
  · exact hn e he

/-- What a process did stays as it is while it waits. -/
theorem Meanwhile.acts (h : Meanwhile K i w w') : acts i w'.log = acts i w.log := by
  obtain ⟨-, new, hl, hn⟩ := h
  rw [hl]
  unfold Concurrent.acts
  rw [List.filter_append, List.map_append, List.filter_eq_nil_iff.2 fun e he => by simpa using hn e he]
  rfl

theorem Meanwhile.mem (h : Meanwhile K i w w') {e : Entry S Op A ε M V} (he : e ∈ w.log) : e ∈ w'.log := by
  obtain ⟨-, new, hl, -⟩ := h
  rw [hl]
  exact List.mem_append_right _ he

end Rules

/-! ## Soundness -/

/-- **Every body runs so**, and a process may be killed. -/
structure Bodies (body : M → Prog S Op A ε V) : Prop where
  method : ∀ m w, K.Inv w → (∀ e ∈ w.log, e.frame < w.next) → Runs K w.next (body m) (Ends K w.next) w (w.enter m)
  crash : ∀ i w, K.Inv w → Leaves K i w (w.push i .crash)

/-- A process that waits, and that can go on from any world that the others lead to. -/
def Waits (f : Frame S Op A ε V) (w : World S Op A ε M V) : Prop :=
  ∀ w', Meanwhile K f.id w w' → K.Inv w' → ∀ a, Runs K f.id (f.k a) (Ends K f.id) w' (w'.push f.id (.reply f.op a))

/-- **What holds of every reachable configuration.** -/
structure Sound (c : Config S Op A ε M V) : Prop where
  inv : K.Inv c.w
  log : ∀ e ∈ c.w.log, e.frame < c.w.next
  waiting : ∀ f ∈ c.stack, f.id < c.w.next ∧ Waits K f c.w

variable {K} {i : ℕ}

/-- A process that runs from `w₀` to `w` adds its own entries to the log. -/
structure Ran (i : ℕ) (w₀ w : World S Op A ε M V) : Prop where
  next : w₀.next ≤ w.next
  live : i < w.next
  log : ∃ new, w.log = new ++ w₀.log ∧ ∀ e ∈ new, e.frame = i

theorem Ran.push {w₀ w : World S Op A ε M V} (h : Ran i w₀ w) (x : Act Op A ε M V) : Ran i w₀ (w.push i x) := by
  obtain ⟨hnext, hi, new, hl, hn⟩ := h
  refine ⟨hnext, hi, ⟨i, x, w.st⟩ :: new, by rw [World.push_log, hl, List.cons_append], fun e he => ?_⟩
  rcases List.mem_cons.1 he with rfl | he
  · rfl
  · exact hn e he

/-- **A process stops**, and the others wait on. -/
theorem Leaves.sound {stack : List (Frame S Op A ε V)} {w₀ w : World S Op A ε M V} (h : Leaves K i w₀ w)
    (hran : Ran i w₀ w) (hlog : ∀ e ∈ w₀.log, e.frame < w₀.next)
    (hwait : ∀ f ∈ stack, f.id < w₀.next ∧ f.id ≠ i ∧ Waits K f w₀) : Sound K ⟨w, stack⟩ := by
  obtain ⟨hnext, hi, new, hl, hn⟩ := hran
  refine ⟨h.inv, fun e he => ?_, fun f hf => ?_⟩
  · rw [hl] at he
    rcases List.mem_append.1 he with he | he
    · exact (hn e he).symm ▸ hi
    · exact (hlog e he).trans_le hnext
  · obtain ⟨hlt, hne, hw⟩ := hwait f hf
    have hmean : Meanwhile K f.id w₀ w := by
      refine ⟨h.rel f.id hne, new, hl, fun e he => ?_⟩
      rw [hn e he]
      exact hne.symm
    exact ⟨hlt.trans_le hnext, fun w' hw' => hw w' (hmean.trans hw')⟩

/-- **A process runs up to its next callback or its end.** -/
theorem Runs.advance {stack : List (Frame S Op A ε V)} {p : Prog S Op A ε V} {w₀ w : World S Op A ε M V}
    (h : Runs K i p (Ends K i) w₀ w) (hran : Ran i w₀ w) (hlog : ∀ e ∈ w₀.log, e.frame < w₀.next)
    (hwait : ∀ f ∈ stack, f.id < w₀.next ∧ f.id ≠ i ∧ Waits K f w₀) : Sound K (advance i stack p w) := by
  induction p generalizing w with
  | ret v => exact Leaves.sound h (hran.push _) hlog hwait
  | fail e => exact Leaves.sound h (hran.push _) hlog hwait
  | get k ih => exact ih _ h hran
  | set s k ih => exact ih (w := w.put s) h ⟨hran.next, hran.live, hran.log⟩
  | call op k ih =>
    have hsound := Leaves.sound h.1 (hran.push _) hlog hwait
    refine ⟨hsound.inv, hsound.log, fun f hf => ?_⟩
    rcases List.mem_cons.1 hf with rfl | hf
    · exact ⟨hran.live, h.2⟩
    · exact hsound.waiting f hf

/-- **Soundness.** If every body runs so, the invariant holds in every reachable configuration. -/
theorem Bodies.sound {body : M → Prog S Op A ε V} (hK : Bodies K body) {s : S}
    (h0 : K.Inv (Machine.start s : Config S Op A ε M V).w) {c : Config S Op A ε M V} (h : Reachable body s c) :
    Sound K c := by
  induction h with
  | start => exact ⟨h0, fun e he => (by cases he), fun f hf => by cases hf⟩
  | @step c c' x hc hs ih =>
    cases x with
    | begin m =>
      cases hs
      -- the process is new, so none of those that wait is it
      have hran : Ran c.w.next c.w (c.w.enter m) := by
        refine ⟨Nat.le_succ _, Nat.lt_succ_self _, [⟨c.w.next, .invoke m, c.w.st⟩], rfl, fun e he => ?_⟩
        rw [List.mem_singleton.1 he]
      refine (hK.method m c.w ih.inv ih.log).advance hran ih.log fun f hf => ?_
      obtain ⟨hlt, hw⟩ := ih.waiting f hf
      exact ⟨hlt, hlt.ne, hw⟩
    | reply i a =>
      simp only [Concurrent.step] at hs
      split at hs
      · cases hs
      · rename_i f hfind
        cases hs
        have hmem : f ∈ c.stack := List.mem_of_find?_eq_some hfind
        have hid : f.id = i := by simpa using List.find?_some hfind
        subst hid
        obtain ⟨hlt, hw⟩ := ih.waiting f hmem
        have hran : Ran f.id c.w c.w := ⟨le_rfl, hlt, [], rfl, fun e he => by cases he⟩
        refine (hw c.w (Meanwhile.refl f.id c.w) ih.inv a).advance (hran.push _) ih.log fun g hg => ?_
        obtain ⟨hg, hne⟩ := without_mem hg
        exact ⟨(ih.waiting g hg).1, hne, (ih.waiting g hg).2⟩
    | kill i =>
      simp only [Concurrent.step] at hs
      split at hs
      · rename_i hany
        cases hs
        obtain ⟨f, hmem, hid⟩ := List.any_eq_true.1 hany
        have hid : f.id = i := of_decide_eq_true hid
        subst hid
        have hran : Ran f.id c.w c.w := ⟨le_rfl, (ih.waiting f hmem).1, [], rfl, fun e he => by cases he⟩
        refine (hK.crash f.id c.w ih.inv).sound (hran.push _) ih.log fun g hg => ?_
        obtain ⟨hg, hne⟩ := without_mem hg
        exact ⟨(ih.waiting g hg).1, hne, (ih.waiting g hg).2⟩
      · cases hs

end Shared

end Concurrent
