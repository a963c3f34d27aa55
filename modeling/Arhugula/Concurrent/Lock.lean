import Arhugula.Concurrent.Processes

/-!
# Processes under one lock

The shared state has a lock, and a process writes only while it holds it. `Locked` says what holds of every log
(`Inv`), and which acts are `calm`: those that a process may do without the lock. While a process that holds the lock
waits, the others leave the state as it is and do calm acts (`Meanwhile`).

`Runs` runs a body from a world, whatever the others do at its callbacks; `Bodies.sound` gives the invariant for every
reachable configuration if every body runs so.
-/

namespace Concurrent

namespace Lock

open Reentrant

variable {S Op A ε M V α β : Type}

/-- **A lock, and what holds of every log.** -/
structure Locked (S Op A ε M V : Type) where
  held : S → Bool
  calm : Act Op A ε M V → Prop
  Inv : World S Op A ε M V → Prop
  calm_crash : calm .crash

variable (K : Locked S Op A ε M V)

/-- **What the others may do while process `i` waits.** If it holds the lock they leave the state, and do calm acts. -/
def Meanwhile (i : ℕ) (b : Bool) (w w' : World S Op A ε M V) : Prop :=
  (b = true → w'.st = w.st) ∧ ∃ new, w'.log = new ++ w.log ∧ ∀ e ∈ new, e.frame ≠ i ∧ (b = true → K.calm e.act)

/-- What a process may do. -/
def May (b : Bool) (x : Act Op A ε M V) : Prop := b = false → K.calm x

/-- **Process `i` runs a body**, holding the lock or not, so that its acts keep the invariant, and it ends in `Q`. -/
def Runs (i : ℕ) : Bool → Prog S Op A ε α → (Bool → Except ε α → World S Op A ε M V → Prop) → World S Op A ε M V → Prop
  | b, .ret v, Q, w => Q b (.ok v) w
  | b, .fail e, Q, w => Q b (.error e) w
  | b, .get k, Q, w => Runs i b (k w.st) Q w
  | true, .set s k, Q, w => Runs i (K.held s) k Q (w.put s)
  | false, .set s k, Q, w => K.held w.st = false ∧ K.held s = true ∧ Runs i true k Q (w.put s)
  | b, .call op k, Q, w => May K b (.call op) ∧ K.Inv (w.push i (.call op)) ∧
      ∀ w', Meanwhile K i b (w.push i (.call op)) w' → K.Inv w' → ∀ a, May K b (.reply op a) ∧
        K.Inv (w'.push i (.reply op a)) ∧ Runs i b (k a) Q (w'.push i (.reply op a))

/-- How a body ends: without the lock. -/
def Ends (i : ℕ) (b : Bool) (r : Except ε V) (w : World S Op A ε M V) : Prop :=
  b = false ∧ K.calm (.ret r) ∧ K.Inv (w.push i (.ret r))

/-! ## Rules -/

section Rules

variable {K} {i : ℕ} {b : Bool} {Q : Bool → Except ε α → World S Op A ε M V → Prop} {w : World S Op A ε M V}

theorem Runs.mono {p : Prog S Op A ε α} {Q' : Bool → Except ε α → World S Op A ε M V → Prop}
    (h : Runs K i b p Q w) (hQ : ∀ b r w', Q b r w' → Q' b r w') : Runs K i b p Q' w := by
  induction p generalizing b w with
  | ret v => exact hQ _ _ _ h
  | fail e => exact hQ _ _ _ h
  | get k ih => exact ih _ h
  | set s k ih =>
    cases b with
    | true => exact ih h
    | false => exact ⟨h.1, h.2.1, ih h.2.2⟩
  | call op k ih =>
    obtain ⟨hmay, hinv, hk⟩ := h
    refine ⟨hmay, hinv, fun w' hw hi a => ?_⟩
    obtain ⟨hreply, hinv', hrest⟩ := hk w' hw hi a
    exact ⟨hreply, hinv', ih a hrest⟩

/-- **Sequencing.** -/
theorem runs_bind {p : Prog S Op A ε β} {f : β → Prog S Op A ε α} :
    Runs K i b (p >>= f) Q w ↔ Runs K i b p (fun b r w' => match r with
      | .ok v => Runs K i b (f v) Q w'
      | .error e => Q b (.error e) w') w := by
  show Runs K i b (p.bind f) Q w ↔ _
  induction p generalizing b w with
  | ret v => exact Iff.rfl
  | fail e => exact Iff.rfl
  | get k ih => exact ih _
  | set s k ih =>
    cases b with
    | true => exact ih
    | false => exact and_congr_right fun _ => and_congr_right fun _ => ih
  | call op k ih =>
    refine and_congr_right fun _ => and_congr_right fun _ => forall_congr' fun w' => ?_
    exact forall_congr' fun _ => forall_congr' fun _ => forall_congr' fun a =>
      and_congr_right fun _ => and_congr_right fun _ => ih a

/-- A body that is run to its end, whether it returns or raises. -/
theorem runs_attempt {p : Prog S Op A ε β} {Q : Bool → Except ε (Except ε β) → World S Op A ε M V → Prop} :
    Runs K i b p.attempt Q w ↔ Runs K i b p (fun b r w' => Q b (.ok r) w') w := by
  induction p generalizing b w with
  | ret v => exact Iff.rfl
  | fail e => exact Iff.rfl
  | get k ih => exact ih _
  | set s k ih =>
    cases b with
    | true => exact ih
    | false => exact and_congr_right fun _ => and_congr_right fun _ => ih
  | call op k ih =>
    refine and_congr_right fun _ => and_congr_right fun _ => forall_congr' fun w' => ?_
    exact forall_congr' fun _ => forall_congr' fun _ => forall_congr' fun a =>
      and_congr_right fun _ => and_congr_right fun _ => ih a

/-- **What is done at the end**, whether the body returns or raises. -/
theorem runs_lastly {p : Prog S Op A ε α} {c : Prog S Op A ε Unit} :
    Runs K i b (p.lastly c) Q w ↔ Runs K i b p (fun b r w' => Runs K i b c (fun b u w'' => match u with
      | .ok _ => Q b r w''
      | .error e => Q b (.error e) w'') w') w := by
  show Runs K i b (p.attempt >>= fun r => c >>= fun _ => Prog.ofExcept r) Q w ↔ _
  rw [runs_bind, runs_attempt]
  constructor <;> refine fun hp => hp.mono fun b r w' hr => ?_
  · dsimp only at hr
    rw [runs_bind] at hr
    refine hr.mono fun b u w'' hu => ?_
    cases u with
    | error e => exact hu
    | ok _ => cases r <;> exact hu
  · dsimp only
    rw [runs_bind]
    refine hr.mono fun b u w'' hu => ?_
    cases u with
    | error e => exact hu
    | ok _ => cases r <;> exact hu

@[simp] theorem runs_pure (v : α) : Runs K i b (pure v) Q w ↔ Q b (.ok v) w := Iff.rfl

@[simp] theorem runs_fail (e : ε) : Runs K i b (.fail e) Q w ↔ Q b (.error e) w := Iff.rfl

@[simp] theorem runs_read (f : S → α) : Runs K i b (Prog.read f) Q w ↔ Q b (.ok (f w.st)) w := Iff.rfl

/-- A write of the process that holds the lock. -/
theorem runs_write (f : S → S) {Q : Bool → Except ε Unit → World S Op A ε M V → Prop} :
    Runs K i true (Prog.write f) Q w ↔ Q (K.held (f w.st)) (.ok ()) (w.put (f w.st)) := Iff.rfl

/-- The write that takes the lock. -/
theorem runs_take (f : S → S) {Q : Bool → Except ε Unit → World S Op A ε M V → Prop} :
    Runs K i false (Prog.write f) Q w ↔ K.held w.st = false ∧ K.held (f w.st) = true ∧
      Q true (.ok ()) (w.put (f w.st)) := Iff.rfl

theorem runs_ask (op : Op) {Q : Bool → Except ε A → World S Op A ε M V → Prop} :
    Runs K i b (Prog.ask op) Q w ↔ May K b (.call op) ∧ K.Inv (w.push i (.call op)) ∧
      ∀ w', Meanwhile K i b (w.push i (.call op)) w' → K.Inv w' → ∀ a, May K b (.reply op a) ∧
        K.Inv (w'.push i (.reply op a)) ∧ Q b (.ok a) (w'.push i (.reply op a)) := Iff.rfl

end Rules

/-! ## Others -/

section Meanwhile

variable {K} {i j : ℕ} {b : Bool} {w w' : World S Op A ε M V}

theorem Meanwhile.refl : Meanwhile K i b w w := ⟨fun _ => rfl, [], rfl, by simp⟩

/-- An act of another process, that has the lock only if this one has not. -/
theorem Meanwhile.push (h : Meanwhile K i b w w') {x : Act Op A ε M V} (hj : j ≠ i) (hx : b = true → K.calm x) :
    Meanwhile K i b w (w'.push j x) := by
  obtain ⟨hs, new, hl, hn⟩ := h
  refine ⟨hs, ⟨j, x, w'.st⟩ :: new, by simp [hl], fun e he => ?_⟩
  rcases List.mem_cons.1 he with rfl | he
  · exact ⟨hj, hx⟩
  · exact hn e he

/-- What the process itself did is what it did. -/
theorem Meanwhile.acts (h : Meanwhile K i b w w') : acts i w'.log = acts i w.log := by
  obtain ⟨-, new, hl, hn⟩ := h
  rw [hl]
  unfold Concurrent.acts
  rw [List.filter_append, List.filter_eq_nil_iff.2 fun e he => by simpa using (hn e he).1, List.nil_append]

end Meanwhile

/-! ## Soundness -/

/-- **Every body runs under the lock**, and every process may be killed. -/
structure Bodies (body : M → Prog S Op A ε V) : Prop where
  invoke : ∀ m, K.calm (.invoke m)
  crash : ∀ w i, K.Inv w → K.Inv (w.push i .crash)
  method : ∀ m w, K.Inv w → (∀ e ∈ w.log, e.frame < w.next) → K.Inv (w.enter m) ∧
    Runs K w.next false (body m) (Ends K w.next) (w.enter m)

/-- A process that waits, with the lock or without. -/
def Waiting (b : Bool) (f : Frame S Op A ε V) (w : World S Op A ε M V) : Prop :=
  ∃ w₀, Meanwhile K f.id b w₀ w ∧ ∀ w', Meanwhile K f.id b w₀ w' → K.Inv w' → ∀ a, May K b (.reply f.op a) ∧
    K.Inv (w'.push f.id (.reply f.op a)) ∧ Runs K f.id b (f.k a) (Ends K f.id) (w'.push f.id (.reply f.op a))

/-- The processes that wait: at most one, `o`, holds the lock. -/
structure Waits (o : Option ℕ) (w : World S Op A ε M V) (stack : List (Frame S Op A ε V)) : Prop where
  held : o.isSome = true → K.held w.st = true
  each : ∀ f ∈ stack, Waiting K (decide (o = some f.id)) f w
  ids : ∀ f ∈ stack, f.id < w.next
  distinct : (stack.map Frame.id).Nodup

/-- **What holds of every reachable configuration.** -/
structure Guarded (c : Config S Op A ε M V) : Prop where
  inv : K.Inv c.w
  log : ∀ e ∈ c.w.log, e.frame < c.w.next
  waits : ∃ o, Waits K o c.w c.stack

variable {K}

theorem Waiting.push {b : Bool} {f : Frame S Op A ε V} {w : World S Op A ε M V} (h : Waiting K b f w) {i : ℕ}
    {x : Act Op A ε M V} (hi : i ≠ f.id) (hx : b = true → K.calm x) : Waiting K b f (w.push i x) := by
  obtain ⟨w₀, hw, hgo⟩ := h
  exact ⟨w₀, hw.push hi hx, hgo⟩

/-- A process that waits without the lock does not mind the state. -/
theorem Waiting.put {f : Frame S Op A ε V} {w : World S Op A ε M V} (h : Waiting K false f w) (s : S) :
    Waiting K false f (w.put s) := by
  obtain ⟨w₀, ⟨-, hw⟩, hgo⟩ := h
  exact ⟨w₀, ⟨fun hb => (by cases hb), hw⟩, hgo⟩

/-- **While process `i` runs**, with the lock or without, the others wait. -/
structure Running (i : ℕ) (b : Bool) (o : Option ℕ) (w : World S Op A ε M V) (stack : List (Frame S Op A ε V)) : Prop where
  log : ∀ e ∈ w.log, e.frame < w.next
  live : i < w.next
  waits : Waits K o w stack
  other : ∀ f ∈ stack, f.id ≠ i
  alone : b = true → o = none ∧ K.held w.st = true

/-- An act that it may do. -/
theorem Running.push {i : ℕ} {b : Bool} {o : Option ℕ} {w : World S Op A ε M V} {stack : List (Frame S Op A ε V)}
    (h : Running (K := K) i b o w stack) {x : Act Op A ε M V} (hx : May K b x) :
    Running (K := K) i b o (w.push i x) stack where
  log := by
    intro e he
    rcases List.mem_cons.1 he with rfl | he
    · exact h.live
    · exact h.log e he
  live := h.live
  waits := by
    refine ⟨h.waits.held, fun f hf => ?_, h.waits.ids, h.waits.distinct⟩
    refine (h.waits.each f hf).push (h.other f hf).symm fun hb => ?_
    cases b with
    | false => exact hx rfl
    | true =>
      rw [(h.alone rfl).1] at hb
      simp at hb
  other := h.other
  alone := h.alone

theorem Waits.put {w : World S Op A ε M V} {stack : List (Frame S Op A ε V)} (h : Waits K none w stack) (s : S) :
    Waits K none (w.put s) stack :=
  ⟨fun ho => (by cases ho), fun f hf => (h.each f hf).put s, h.ids, h.distinct⟩

/-- **A process runs up to its next callback or its end.** -/
theorem Running.advance {i : ℕ} {b : Bool} {o : Option ℕ} {p : Prog S Op A ε V} {w : World S Op A ε M V}
    {stack : List (Frame S Op A ε V)} (h : Running (K := K) i b o w stack) (hp : Runs K i b p (Ends K i) w) :
    Guarded K (advance i stack p w) := by
  induction p generalizing b o w with
  | ret v =>
    obtain ⟨rfl, hcalm, hinv⟩ := hp
    have hpush := h.push (x := .ret (.ok v)) fun _ => hcalm
    exact ⟨hinv, hpush.log, o, hpush.waits⟩
  | fail e =>
    obtain ⟨rfl, hcalm, hinv⟩ := hp
    have hpush := h.push (x := .ret (.error e)) fun _ => hcalm
    exact ⟨hinv, hpush.log, o, hpush.waits⟩
  | get k ih => exact ih _ h hp
  | set s k ih =>
    cases b with
    | true =>
      have hnone := (h.alone rfl).1
      subst hnone
      exact ih (w := w.put s) ⟨h.log, h.live, h.waits.put s, h.other, fun hb => ⟨rfl, hb⟩⟩ hp
    | false =>
      obtain ⟨hfree, hheld, hp⟩ := hp
      have hnone : o = none := by
        cases o with
        | none => rfl
        | some j =>
          have hj := h.waits.held rfl
          rw [hfree] at hj
          cases hj
      subst hnone
      exact ih (w := w.put s) ⟨h.log, h.live, h.waits.put s, h.other, fun _ => ⟨rfl, hheld⟩⟩ hp
  | call op k ih =>
    obtain ⟨hmay, hinv, hk⟩ := hp
    have hpush := h.push hmay
    have hfresh : i ∉ stack.map Frame.id := by
      intro hi
      obtain ⟨f, hf, hid⟩ := List.mem_map.1 hi
      exact h.other f hf hid
    have hself : Waiting K b ⟨i, op, k⟩ (w.push i (.call op)) := ⟨_, .refl, hk⟩
    show Guarded K ⟨w.push i (.call op), ⟨i, op, k⟩ :: stack⟩
    refine ⟨hinv, hpush.log, ?_⟩
    cases b with
    | true =>
      obtain ⟨rfl, hheld⟩ := h.alone rfl
      refine ⟨some i, fun _ => hheld, fun f hf => ?_, fun f hf => ?_, List.nodup_cons.2 ⟨hfresh, h.waits.distinct⟩⟩
      · rcases List.mem_cons.1 hf with rfl | hf
        · simpa using hself
        · have hne : (some i = some f.id) = False := by simpa using (h.other f hf).symm
          have hwaits := hpush.waits.each f hf
          simpa [hne] using hwaits
      · rcases List.mem_cons.1 hf with rfl | hf
        · exact h.live
        · exact h.waits.ids f hf
    | false =>
      by_cases ho : o = some i
      · -- the process that holds the lock would be this one, and none waits under its name
        refine ⟨none, fun ho => (by cases ho), fun f hf => ?_, fun f hf => ?_,
          List.nodup_cons.2 ⟨hfresh, h.waits.distinct⟩⟩
        · rcases List.mem_cons.1 hf with rfl | hf
          · simpa using hself
          · have hne : (some i = some f.id) = False := by simpa using (h.other f hf).symm
            have hwaits := hpush.waits.each f hf
            simpa [ho, hne] using hwaits
        · rcases List.mem_cons.1 hf with rfl | hf
          · exact h.live
          · exact h.waits.ids f hf
      · refine ⟨o, h.waits.held, fun f hf => ?_, fun f hf => ?_, List.nodup_cons.2 ⟨hfresh, h.waits.distinct⟩⟩
        · rcases List.mem_cons.1 hf with rfl | hf
          · simpa [ho] using hself
          · exact hpush.waits.each f hf
        · rcases List.mem_cons.1 hf with rfl | hf
          · exact h.live
          · exact h.waits.ids f hf

/-- The others wait while one of those that wait is resumed, or killed. -/
theorem Guarded.others {o : Option ℕ} {c : Config S Op A ε M V} (h : Waits K o c.w c.stack) (i : ℕ) :
    Waits K (if o = some i then none else o) c.w (without i c.stack) where
  held ho := by
    split at ho
    · cases ho
    · exact h.held ho
  each f hf := by
    obtain ⟨hmem, hne⟩ := without_mem hf
    have hwaits := h.each f hmem
    split
    · rename_i ho
      have hne' : (some i = some f.id) = False := by simpa using hne.symm
      simpa [ho, hne'] using hwaits
    · exact hwaits
  ids f hf := h.ids f (without_mem hf).1
  distinct := (List.filter_sublist.map Frame.id).nodup h.distinct

/-- **Soundness.** If every body runs under the lock, the invariant holds of every reachable configuration. -/
theorem Bodies.sound {body : M → Prog S Op A ε V} (hK : Bodies K body) {s : S} {c : Config S Op A ε M V}
    (hs₀ : K.Inv (Machine.start s : Config S Op A ε M V).w) (h : Reachable body s c) : Guarded K c := by
  induction h with
  | start =>
    exact ⟨hs₀, fun e he => (by cases he), none, fun ho => (by cases ho), fun f hf => (by cases hf),
      fun f hf => (by cases hf), List.nodup_nil⟩
  | @step c c' x hc hs ih =>
    obtain ⟨o, hwaits⟩ := ih.waits
    cases x with
    | begin m =>
      cases hs
      obtain ⟨hinv, hrun⟩ := hK.method m c.w ih.inv ih.log
      have hrunning : Running (K := K) c.w.next false o (c.w.enter m) c.stack := by
        refine ⟨fun e he => ?_, Nat.lt_succ_self _, ⟨hwaits.held, fun f hf => ?_, fun f hf => ?_, hwaits.distinct⟩,
          fun f hf => (hwaits.ids f hf).ne, fun hb => by cases hb⟩
        · rcases List.mem_cons.1 he with rfl | he
          · exact Nat.lt_succ_self _
          · exact Nat.lt_succ_of_lt (ih.log e he)
        · exact (hwaits.each f hf).push (hwaits.ids f hf).ne' fun _ => hK.invoke m
        · exact Nat.lt_succ_of_lt (hwaits.ids f hf)
      exact hrunning.advance hrun
    | reply i a =>
      simp only [Concurrent.step] at hs
      split at hs
      · cases hs
      rename_i f hfind
      cases hs
      have hmem : f ∈ c.stack := List.mem_of_find?_eq_some hfind
      have hid : f.id = i := by simpa using List.find?_some hfind
      subst hid
      obtain ⟨w₀, hw, hgo⟩ := hwaits.each f hmem
      obtain ⟨hmay, hinv, hrun⟩ := hgo c.w hw ih.inv a
      have hrunning : Running (K := K) f.id (decide (o = some f.id)) (if o = some f.id then none else o) c.w
          (without f.id c.stack) := by
        refine ⟨ih.log, hwaits.ids f hmem, Guarded.others hwaits f.id, fun g hg => (without_mem hg).2, fun hb => ?_⟩
        have ho : o = some f.id := of_decide_eq_true hb
        exact ⟨if_pos ho, hwaits.held (by rw [ho]; rfl)⟩
      exact (hrunning.push hmay).advance hrun
    | kill i =>
      simp only [Concurrent.step] at hs
      split at hs
      · rename_i hany
        cases hs
        obtain ⟨f, hmem, hid⟩ := List.any_eq_true.1 hany
        have hid : f.id = i := of_decide_eq_true hid
        subst hid
        have hrunning : Running (K := K) f.id false (if o = some f.id then none else o) c.w (without f.id c.stack) :=
          ⟨ih.log, hwaits.ids f hmem, Guarded.others hwaits f.id, fun g hg => (without_mem hg).2, fun hb => by cases hb⟩
        have hpush := hrunning.push (x := .crash) fun _ => K.calm_crash
        exact ⟨hK.crash _ _ ih.inv, hpush.log, _, hpush.waits⟩
      · cases hs

end Lock

end Concurrent
