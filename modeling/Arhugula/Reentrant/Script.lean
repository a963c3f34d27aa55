import Arhugula.Reentrant.Machine

/-!
# Scripted calls

`play p s as` runs a body to its end where the environment does no more than answer: its callbacks get the answers `as`,
in order. What it computes is what the machine does (`Machine.run_call`), so a run that has no nested calls is the
result of a function, and what many such calls lead to follows by induction, with no run written out.
-/

namespace Reentrant

variable {S Op A ε M V α β : Type} {s s' : S} {as rest : List A}

/-- **A body, played to its end** with scripted answers: what it returns or raises, the state that it leaves, and the
answers that are left. -/
def play : Prog S Op A ε α → S → List A → Option (Except ε α × S × List A)
  | .ret a, s, as => some (.ok a, s, as)
  | .fail e, s, as => some (.error e, s, as)
  | .get k, s, as => play (k s) s as
  | .set s k, _, as => play k s as
  | .call _ k, s, a :: as => play (k a) s as
  | .call _ _, _, [] => none

/-- What comes after a body. -/
def after (f : α → Prog S Op A ε β) : Except ε α × S × List A → Option (Except ε β × S × List A)
  | (.ok a, s, as) => play (f a) s as
  | (.error e, s, as) => some (.error e, s, as)

@[simp] theorem after_ok (f : α → Prog S Op A ε β) (a : α) : after f (.ok a, s, as) = play (f a) s as := rfl

@[simp] theorem after_error (f : α → Prog S Op A ε β) (e : ε) :
    after f (.error e, s, as) = some (.error e, s, as) := rfl

@[simp] theorem play_pure (a : α) : play (pure a : Prog S Op A ε α) s as = some (.ok a, s, as) := rfl

@[simp] theorem play_throw (e : ε) : play (throw e : Prog S Op A ε α) s as = some (.error e, s, as) := rfl

@[simp] theorem play_fail (e : ε) : play (.fail e : Prog S Op A ε α) s as = some (.error e, s, as) := rfl

@[simp] theorem play_read (f : S → α) : play (Prog.read f : Prog S Op A ε α) s as = some (.ok (f s), s, as) := rfl

@[simp] theorem play_write (f : S → S) : play (Prog.write f : Prog S Op A ε Unit) s as = some (.ok (), f s, as) := rfl

@[simp] theorem play_ask (op : Op) (a : A) :
    play (Prog.ask op : Prog S Op A ε A) s (a :: as) = some (.ok a, s, as) := rfl

/-- **Sequencing.** -/
@[simp] theorem play_bind (p : Prog S Op A ε α) (f : α → Prog S Op A ε β) :
    play (p >>= f) s as = (play p s as).bind (after f) := by
  show play (p.bind f) s as = _
  induction p generalizing s as with
  | ret a => rfl
  | fail e => rfl
  | get k ih => exact ih s
  | set s k ih => exact ih
  | call op k ih =>
    cases as with
    | nil => rfl
    | cons a as => exact ih a

@[simp] theorem play_map (f : α → β) (p : Prog S Op A ε α) :
    play (f <$> p) s as = (play p s as).bind (after fun a => (pure (f a) : Prog S Op A ε β)) :=
  play_bind p fun a => pure (f a)

/-- What was caught. -/
def caught : Except ε α × S × List A → Option (Except ε (Except ε α) × S × List A)
  | (r, s, as) => some (.ok r, s, as)

theorem play_attempt (p : Prog S Op A ε α) : play p.attempt s as = (play p s as).bind caught := by
  induction p generalizing s as with
  | ret a => rfl
  | fail e => rfl
  | get k ih => exact ih s
  | set s k ih => exact ih
  | call op k ih =>
    cases as with
    | nil => rfl
    | cons a as => exact ih a

/-- What a handler makes of the end of a body. -/
def handled (h : ε → Prog S Op A ε α) : Except ε α × S × List A → Option (Except ε α × S × List A)
  | (.ok a, s, as) => some (.ok a, s, as)
  | (.error e, s, as) => play (h e) s as

@[simp] theorem handled_ok (h : ε → Prog S Op A ε α) (a : α) :
    handled h (.ok a, s, as) = some (.ok a, s, as) := rfl

@[simp] theorem handled_error (h : ε → Prog S Op A ε α) (e : ε) :
    handled h (.error e, s, as) = play (h e) s as := rfl

/-- **Exception handlers.** -/
@[simp] theorem play_catching (p : Prog S Op A ε α) (h : ε → Prog S Op A ε α) :
    play (p.catching h) s as = (play p s as).bind (handled h) := by
  show play (p.attempt >>= _) s as = _
  rw [play_bind, play_attempt, Option.bind_assoc]
  congr 1
  funext x
  obtain ⟨r, s', as'⟩ := x
  cases r with
  | ok a => rfl
  | error e => rfl

/-- What is left of a result when the finaliser has ended. -/
def kept (r : Except ε α) : Except ε Unit × S × List A → Option (Except ε α × S × List A)
  | (.ok _, s, as) => some (r, s, as)
  | (.error e, s, as) => some (.error e, s, as)

@[simp] theorem kept_ok (r : Except ε α) (u : Unit) : kept r (.ok u, s, as) = some (r, s, as) := rfl

@[simp] theorem kept_error (r : Except ε α) (e : ε) : kept r (.error e, s, as) = some (.error e, s, as) := rfl

/-- What a finaliser makes of the end of a body. -/
def finalized (c : Prog S Op A ε Unit) : Except ε α × S × List A → Option (Except ε α × S × List A)
  | (r, s, as) => (play c s as).bind (kept r)

@[simp] theorem finalized_mk (c : Prog S Op A ε Unit) (r : Except ε α) :
    finalized c (r, s, as) = (play c s as).bind (kept r) := rfl

/-- **Finalisers.** -/
@[simp] theorem play_lastly (p : Prog S Op A ε α) (c : Prog S Op A ε Unit) :
    play (p.lastly c) s as = (play p s as).bind (finalized c) := by
  have hend : ∀ (r : Except ε α) (s : S) (as : List A),
      play (c >>= fun _ => Prog.ofExcept r) s as = finalized c (r, s, as) := by
    intro r s as
    rw [play_bind, finalized_mk]
    congr 1
    funext x
    obtain ⟨u, s', as'⟩ := x
    cases u with
    | ok u => cases r <;> rfl
    | error e => rfl
  show play (p.attempt >>= fun r => c >>= fun _ => Prog.ofExcept r) s as = _
  rw [play_bind, play_attempt, Option.bind_assoc]
  congr 1
  funext x
  obtain ⟨r, s', as'⟩ := x
  exact hend r s' as'

namespace Machine

variable {m : Machine S Op A ε M V}

/-- The machine plays an activation as its script has it. -/
theorem run_advance (hlegal : ∀ w op a, m.legal w op a = true) (i : ℕ) (stack : List (Frame S Op A ε V))
    {p : Prog S Op A ε V} {w : World S Op A ε M V} {r : Except ε V}
    (h : play p w.st as = some (r, s', [])) :
    ∃ w' : World S Op A ε M V, m.run (advance i stack p w) (as.map .reply) = some ⟨w'.push i (.ret r), stack⟩ ∧
      w'.st = s' ∧ w.log ⊆ w'.log := by
  induction p generalizing w as with
  | ret a =>
    cases h
    exact ⟨w, rfl, rfl, List.Subset.refl _⟩
  | fail e =>
    cases h
    exact ⟨w, rfl, rfl, List.Subset.refl _⟩
  | get k ih => exact ih w.st h
  | set s k ih => exact ih (w := w.put s) h
  | call op k ih =>
    cases as with
    | nil => cases h
    | cons a as =>
      obtain ⟨w', hrun, hst, hlog⟩ := ih a (w := (w.push i (.call op)).push i (.reply op a)) h
      refine ⟨w', ?_, hst, fun e he => hlog (List.mem_cons_of_mem _ (List.mem_cons_of_mem _ he))⟩
      have hstep : m.step (Reentrant.advance i stack (.call op k) w) (.reply a) =
          some (Reentrant.advance i stack (k a) ((w.push i (.call op)).push i (.reply op a))) := by
        simp only [Reentrant.advance, Machine.step, hlegal, if_true]
      rw [List.map_cons, Machine.run, hstep]
      exact hrun

/-- **A call is its script**: made where nothing is under way, it leaves the state that the script leaves, and its
return is the last entry of the log. -/
theorem run_call (hlegal : ∀ w op a, m.legal w op a = true) {c : Config S Op A ε M V} (hidle : c.stack = [])
    (meth : M) (henter : m.enter c.w [] meth = true) {r : Except ε V}
    (h : play (m.body meth) c.w.st as = some (r, s', [])) :
    ∃ c' i older, m.run c (.invoke meth :: as.map .reply) = some c' ∧ c'.stack = [] ∧ c'.w.st = s' ∧
      c'.w.log = ⟨i, .ret r, s'⟩ :: older ∧ ⟨i, .invoke meth, c.w.st⟩ ∈ older := by
  obtain ⟨w, stack⟩ := c
  subst hidle
  obtain ⟨w', hrun, hst, hlog⟩ := run_advance hlegal w.next [] (w := w.enter meth) h
  refine ⟨⟨w'.push w.next (.ret r), []⟩, w.next, w'.log, ?_, rfl, hst, ?_, hlog List.mem_cons_self⟩
  · rw [Machine.run]
    simp only [Machine.step, pending, List.map_nil, henter, if_true, Option.bind_some]
    exact hrun
  · rw [World.push_log, hst]

/-- A reachable configuration goes on with a call that is scripted. -/
theorem Reachable.call (hlegal : ∀ w op a, m.legal w op a = true) {c : Config S Op A ε M V}
    (hc : m.Reachable s c) (hidle : c.stack = []) (meth : M) (henter : m.enter c.w [] meth = true)
    {r : Except ε V} (h : play (m.body meth) c.w.st as = some (r, s', [])) :
    ∃ c' i older, m.Reachable s c' ∧ c'.stack = [] ∧ c'.w.st = s' ∧ c'.w.log = ⟨i, .ret r, s'⟩ :: older ∧
      ⟨i, .invoke meth, c.w.st⟩ ∈ older := by
  obtain ⟨c', i, older, hrun, hstack, hst, hlog, hcalled⟩ := run_call hlegal hidle meth henter h
  obtain ⟨xs, hxs⟩ := hc
  refine ⟨c', i, older, ⟨xs ++ Input.invoke meth :: as.map .reply, ?_⟩, hstack, hst, hlog, hcalled⟩
  rw [run_append, hxs]
  exact hrun

end Machine

end Reentrant
