import Arhugula.Proof.PlaneCalm

/-!
# At most one execution of a command

A plane decides by its `_seen` set and by the journal, which it reads once, at the
start of `_dispatch`. Calls of one plane share `_seen`; calls of two planes share
only the journal. So between its read of the history and its own record of the
intent, a call is *exposed*: another plane, entered from one of its callbacks, may
execute the same command, and the exposed call will not notice (`executes_twice`).

Where no exposed call is contested in this way, every command identifier is executed
at most once over the whole run, restarts included, and only after its intent was
recorded (`executed_at_most_once`).
-/

namespace Arhugula

namespace Plane

open Reentrant Vm

/-! ## What the log says -/

/-- How many times an executor was called with a command of identifier `x`. -/
def executions (log : List PEntry) (x : String) : ℕ :=
  log.countP fun e => match e.act with
    | .call (.execute _ c) => c.commandId = x
    | _ => false

/-- The entry stores a start event of command `x`: the journal accepts it. -/
def Starts (x : String) (e : PEntry) : Prop :=
  ∃ ev, e.act = .reply (.append (.event ev)) .done ∧ ev.commandId = x ∧ ev.eventType = .started ∧
    (e.st.journal.append (.event ev)).isSome

/-- An execution comes after its recorded intent, recorded by the same activation. -/
def Intended (e : PEntry) (older : List PEntry) : Prop :=
  ∀ p c, e.act = .call (.execute p c) → ∃ b ∈ older, b.frame = e.frame ∧ Starts c.commandId b

/-- The plane and the command identifier that a call would dispatch. -/
def target (s : State) : Method → Option (ℕ × String)
  | .dispatch p c .. => some (p, c.commandId)
  | .confirm p token .. =>
    (token.bind fun t => (s.planes p).confirmations.get t).map fun v => (p, v.1.command.commandId)
  | _ => none

/-- Activation `i` was called to dispatch `x` on plane `p`. -/
def aims (log : List PEntry) (i p : ℕ) (x : String) : Bool :=
  log.any fun e => e.frame = i && match e.act with
    | .invoke m => target e.st m = some (p, x)
    | _ => false

/-- Activation `i` has read the history while plane `p` had not seen `x`. -/
def hasRead (log : List PEntry) (i p : ℕ) (x : String) : Bool :=
  log.any fun e => e.frame = i && match e.act with
    | .reply .read .done => !(e.st.planes p).seen.contains x
    | _ => false

/-- Activation `i` dispatches `x` on plane `p`, and has read the history. -/
def exposed (log : List PEntry) (i p : ℕ) (x : String) : Bool :=
  aims log i p x && hasRead log i p x

/-- The planes that activation `i` was called on. -/
def planesOf (log : List PEntry) (i : ℕ) : List ℕ :=
  log.filterMap fun e => if e.frame = i then match e.act with
    | .invoke m => some m.plane
    | _ => none
  else none

/-- **A contested call**: it would dispatch, on a plane that has not seen it, a command
of which the journal holds no execution event, while a call of another plane that
waits for one of its callbacks is exposed for the same command. -/
def contested (w : PWorld) (ctx : List (ℕ × Op)) (m : Method) : Bool :=
  match target w.st m with
  | none => false
  | some (q, x) =>
    !(executed w.st.journal).contains x && !(w.st.planes q).seen.contains x &&
      ctx.any fun f => (planesOf w.log f.1).any fun p => p ≠ q && exposed w.log f.1 p x

/-- Any callback may call any plane, but no contested call is made. -/
def uncontested (w : PWorld) (ctx : List (ℕ × Op)) (m : Method) : Bool := !contested w ctx m

/-! ## The contract -/

/-- The invariant: at most one execution of each command, each intended, and the
journal knows every command that was executed. -/
structure OnceInv (w : PWorld) : Prop where
  once : ∀ x, executions w.log x ≤ 1
  settled : ∀ x, executions w.log x ≠ 0 → x ∈ executed w.st.journal
  intended : Throughout Intended w.log

/-- What a nested call may do: it executes no command that the journal knows, and none
for which a waiting call is exposed, unless that call's plane gets to see it. -/
structure OnceRel (ctx : List (ℕ × Op)) (a b : PWorld) : Prop where
  log : ∀ e ∈ a.log, e ∈ b.log
  seen : ∀ q, ∀ x ∈ (a.st.planes q).seen, x ∈ (b.st.planes q).seen
  journal : ∀ x ∈ executed a.st.journal, x ∈ executed b.st.journal
  settled : ∀ x ∈ executed a.st.journal, executions b.log x = executions a.log x
  exposed : ∀ j op p x, (j, op) ∈ ctx → exposed a.log j p x →
    (x ∈ (a.st.planes p).seen ∨ x ∉ (b.st.planes p).seen) → executions b.log x = executions a.log x

theorem exposed_mono {a b : List PEntry} (h : ∀ e ∈ a, e ∈ b) {i p : ℕ} {x : String}
    (he : exposed a i p x) : exposed b i p x := by
  simp only [exposed, aims, hasRead, Bool.and_eq_true, List.any_eq_true] at he ⊢
  obtain ⟨⟨e, hm, ha⟩, e', hm', hr⟩ := he
  exact ⟨⟨e, h e hm, ha⟩, e', h e' hm', hr⟩

theorem OnceRel.refl (ctx : List (ℕ × Op)) (w : PWorld) : OnceRel ctx w w :=
  ⟨fun _ h => h, fun _ _ h => h, fun _ h => h, fun _ _ => rfl, fun _ _ _ _ _ _ _ => rfl⟩

theorem OnceRel.trans {ctx : List (ℕ × Op)} {a b c : PWorld} (h : OnceRel ctx a b)
    (h' : OnceRel ctx b c) : OnceRel ctx a c where
  log e he := h'.log e (h.log e he)
  seen q x hx := h'.seen q x (h.seen q x hx)
  journal x hx := h'.journal x (h.journal x hx)
  settled x hx := (h'.settled x (h.journal x hx)).trans (h.settled x hx)
  exposed j op p x hj he hs := by
    have hab : x ∈ (a.st.planes p).seen ∨ x ∉ (b.st.planes p).seen :=
      hs.imp_right fun hn hb => hn (h'.seen p x hb)
    have hbc : x ∈ (b.st.planes p).seen ∨ x ∉ (c.st.planes p).seen :=
      hs.imp_left fun ha => h.seen p x ha
    rw [h'.exposed j op p x hj (exposed_mono h.log he) hbc, h.exposed j op p x hj he hab]

/-- The contract of the planes, as far as executions are concerned. -/
def onceContract : Contract (restarting uncontested) where
  Inv := OnceInv
  Rel := OnceRel
  refl := OnceRel.refl
  trans := OnceRel.trans

/-! ## Quiet steps -/

theorem executions_push {w : PWorld} {i : ℕ} {x : Act Op Answer Exc Method Value}
    (hx : ∀ p c, x ≠ .call (.execute p c)) (y : String) :
    executions (w.push i x).log y = executions w.log y := by
  unfold executions
  rw [World.push_log, List.countP_cons_of_neg]
  split
  · rename_i p c hc
    exact absurd hc (hx p c)
  · simp

theorem executions_execute (w : PWorld) (i p : ℕ) (c : Command) (y : String) :
    executions (w.push i (.call (.execute p c))).log y =
      executions w.log y + if c.commandId = y then 1 else 0 := by
  unfold executions
  rw [World.push_log, List.countP_cons]
  simp

theorem mem_executed {j : Journal} {x : String} :
    x ∈ executed j ↔ ∃ e : Event, .event e ∈ j ∧ e.commandId = x := by
  unfold executed
  rw [List.mem_filterMap]
  constructor
  · rintro ⟨r, hr, hx⟩
    cases r with
    | event e => exact ⟨e, hr, by simpa using hx⟩
    | interaction e => simp at hx
    | voice e => simp at hx
  · rintro ⟨e, he, rfl⟩
    exact ⟨.event e, he, rfl⟩

theorem executed_append {j j' : Journal} {r : Record} (h : j.append r = some j') :
    ∀ x ∈ executed j, x ∈ executed j' := by
  intro x hx
  obtain ⟨e, he, hex⟩ := mem_executed.1 hx
  exact mem_executed.2 ⟨e, (Journal.append_mem h).1 _ he, hex⟩

/-- An act that is no execution keeps the invariant. -/
theorem OnceInv.push {w : PWorld} (h : OnceInv w) {i : ℕ} {x : Act Op Answer Exc Method Value}
    (hx : ∀ p c, x ≠ .call (.execute p c)) : OnceInv (w.push i x) where
  once y := by rw [executions_push hx]; exact h.once y
  settled y := by rw [executions_push hx]; exact h.settled y
  intended := ⟨fun p c hc => absurd hc (hx p c), h.intended⟩

theorem OnceRel.push (ctx : List (ℕ × Op)) (w : PWorld) {i : ℕ}
    {x : Act Op Answer Exc Method Value} (hx : ∀ p c, x ≠ .call (.execute p c)) :
    OnceRel ctx w (w.push i x) where
  log _ he := List.mem_cons_of_mem _ he
  seen _ _ h := h
  journal _ h := h
  settled y _ := executions_push hx y
  exposed _ _ _ y _ _ _ := executions_push hx y

/-- A change of state that only adds to what the planes and the journal have seen. -/
theorem OnceInv.put {w : PWorld} (h : OnceInv w) {s : State}
    (hj : ∀ x ∈ executed w.st.journal, x ∈ executed s.journal) : OnceInv (w.put s) :=
  ⟨h.once, fun x hx => hj x (h.settled x hx), h.intended⟩

theorem OnceRel.put (ctx : List (ℕ × Op)) (w : PWorld) {s : State}
    (hs : ∀ q, ∀ x ∈ (w.st.planes q).seen, x ∈ (s.planes q).seen)
    (hj : ∀ x ∈ executed w.st.journal, x ∈ executed s.journal) : OnceRel ctx w (w.put s) :=
  ⟨fun _ h => h, hs, hj, fun _ _ => rfl, fun _ _ _ _ _ _ _ => rfl⟩

theorem silent_ne {x : Act Op Answer Exc Method Value} (hx : silent x) (p : ℕ) (c : Command) :
    x ≠ .call (.execute p c) := by
  rintro rfl
  simp [silent, quiet] at hx

theorem modify_seen (s : State) (q : ℕ) (l : List String) (p : ℕ) (x : String)
    (hx : x ∈ (s.planes p).seen) :
    x ∈ ((s.modify q (.see l)).planes p).seen := by
  by_cases hpq : p = q
  · subst hpq
    rw [State.modify_self]
    exact List.mem_append_right l hx
  · rwa [State.modify_other s _ hpq]

theorem onceContract_calm : Calm onceContract where
  narrow _ _ _ _ h := ⟨h.log, h.seen, h.journal, h.settled,
    fun j op p x hj => h.exposed j op p x (List.mem_cons_of_mem _ hj)⟩
  push ctx w _ _ hx hw := ⟨hw.push (silent_ne hx), OnceRel.push ctx w (silent_ne hx)⟩
  seen ctx w q l hw := ⟨hw.put fun _ h => h, .put ctx w (modify_seen w.st q l) fun _ h => h⟩
  journal ctx w _ _ hw hj :=
    ⟨hw.put (executed_append hj), .put ctx w (fun _ _ h => h) (executed_append hj)⟩

/-! ## One dispatch, stage by stage -/

section Dispatch

variable {ctx : List (ℕ × Op)} {i p : ℕ} {w₀ : PWorld} {command : Command}

/-- The activation is a dispatch of the command. -/
def Aiming (i p : ℕ) (command : Command) (w : PWorld) : Prop := aims w.log i p command.commandId

/-- After the read of the history: the plane has seen what the journal knew at the
beginning, and it has seen the command or nothing has executed it. -/
structure Informed (w₀ : PWorld) (i p : ℕ) (command : Command) (w : PWorld) : Prop where
  aiming : Aiming i p command w
  known : ∀ y ∈ executed w₀.st.journal, y ∈ (w.st.planes p).seen
  fresh : command.commandId ∈ (w.st.planes p).seen ∨
    exposed w.log i p command.commandId ∧ executions w.log command.commandId = 0

/-- After the duplicate check: the command is this activation's to execute. -/
structure Claimed (i p : ℕ) (command : Command) (w : PWorld) : Prop where
  aiming : Aiming i p command w
  seen : command.commandId ∈ (w.st.planes p).seen
  exposed : exposed w.log i p command.commandId
  unexecuted : executions w.log command.commandId = 0

/-- After the intent: the journal knows the command, and nothing has executed it. -/
structure Committed (i p : ℕ) (command : Command) (w : PWorld) : Prop where
  aiming : Aiming i p command w
  seen : command.commandId ∈ (w.st.planes p).seen
  recorded : command.commandId ∈ executed w.st.journal
  intent : ∃ b ∈ w.log, b.frame = i ∧ Starts command.commandId b
  unexecuted : executions w.log command.commandId = 0

theorem aiming_stable : Stable onceContract ctx i (Aiming i p command) := by
  intro op a b hr ha
  unfold Aiming aims at ha ⊢
  rw [List.any_eq_true] at ha ⊢
  obtain ⟨e, he, h⟩ := ha
  exact ⟨e, hr.log e he, h⟩

theorem informed_stable : Stable onceContract ctx i (Informed w₀ i p command) := by
  intro op a b hr ha
  refine ⟨aiming_stable op a b hr ha.aiming, fun y hy => hr.seen p y (ha.known y hy), ?_⟩
  by_cases hb : command.commandId ∈ (b.st.planes p).seen
  · exact .inl hb
  · -- still unseen, so the exposure of this activation kept every nested call off it
    have hna : command.commandId ∉ (a.st.planes p).seen := fun h => hb (hr.seen p _ h)
    obtain ⟨hexp, hzero⟩ := ha.fresh.resolve_left hna
    refine .inr ⟨exposed_mono hr.log hexp, ?_⟩
    rw [hr.exposed i op p _ List.mem_cons_self hexp (.inr hb), hzero]

theorem claimed_stable : Stable onceContract ctx i (Claimed i p command) := by
  intro op a b hr ha
  refine ⟨aiming_stable op a b hr ha.aiming, hr.seen p _ ha.seen,
    exposed_mono hr.log ha.exposed, ?_⟩
  rw [hr.exposed i op p _ List.mem_cons_self ha.exposed (.inl ha.seen), ha.unexecuted]

theorem committed_stable : Stable onceContract ctx i (Committed i p command) := by
  intro op a b hr ha
  obtain ⟨e, he, hs⟩ := ha.intent
  refine ⟨aiming_stable op a b hr ha.aiming, hr.seen p _ ha.seen,
    hr.journal _ ha.recorded, ⟨e, hr.log e he, hs⟩, ?_⟩
  rw [hr.settled _ ha.recorded, ha.unexecuted]

/-- A stable assertion survives every callback but an execution. -/
theorem survives_once {E : PWorld → Prop} (hE : Stable onceContract ctx i E) {op : Op}
    (hop : ∀ p c, op ≠ .execute p c) :
    Survives onceContract ctx i (Along onceContract ctx w₀ E) op := by
  intro w hw
  have hcall : ∀ p c, Act.call op ≠ (Act.call (.execute p c) : Act Op Answer Exc Method Value) := by
    intro p c h
    exact hop p c (by injection h)
  refine ⟨hw.inv.push hcall, fun w' hinv' _ hrel' a _ => ?_⟩
  have hreply : ∀ p c, Act.reply op a ≠ (Act.call (.execute p c) : Act Op Answer Exc Method Value) := by
    intro p c h
    cases h
  have hall := (OnceRel.push ((i, op) :: ctx) w hcall).trans
    (hrel'.trans (OnceRel.push ((i, op) :: ctx) w' (i := i) hreply))
  exact hw.step (hinv'.push hreply) (onceContract_calm.narrow _ _ _ _ hall) (hE op _ _ hall hw.here)

/-- The history is read into `_seen` at one moment, and what it shows is exact. -/
theorem readHistory_once {w : PWorld} (hw : Along onceContract ctx w₀ (Aiming i p command) w) :
    Holds onceContract ctx i (readHistory p command)
      (fun r w' => match r with
        | .ok _ => Along onceContract ctx w₀ (Informed w₀ i p command) w'
        | .error _ => Along onceContract ctx w₀ (Aiming i p command) w') w := by
  have hsteady : Steady onceContract ctx i p (Along onceContract ctx w₀ (Aiming i p command)) :=
    onceContract_calm.steady aiming_stable
  have hread : Survives onceContract ctx i (Along onceContract ctx w₀ (Aiming i p command)) .read :=
    survives_once aiming_stable (by intro _ _ h; cases h)
  obtain ⟨hinv, hnext⟩ := hread w hw
  unfold readHistory readJournal
  rw [holds_bind, holds_bind, holds_ask]
  refine ⟨hinv, fun w₁ hinv₁ hgrow hrel a ha => ?_⟩
  have h₁ := hnext w₁ hinv₁ hgrow hrel a ha
  cases a with
  | done =>
    have h₂ := hsteady.seen _ (executed w₁.st.journal) h₁
    refine ⟨h₂.inv, h₂.rel, h₂.here, fun y hy => ?_, ?_⟩
    · have := h₁.rel.journal y hy
      rw [World.put_st, State.modify_self]
      exact List.mem_append_left _ this
    · by_cases hj : command.commandId ∈ executed w₁.st.journal
      · left; simp [ControlPlane.see, hj]
      by_cases hs : command.commandId ∈ (w₁.st.planes p).seen
      · left; simp [ControlPlane.see, hs]
      · right
        refine ⟨?_, ?_⟩
        · have haim : aims (w₁.push i (.reply .read .done)).log i p command.commandId := h₁.here
          unfold exposed
          simp only [World.put_log, haim, Bool.true_and]
          unfold hasRead
          simp [hs]
        · by_contra hne
          exact hj (h₁.inv.settled _ hne)
  | _ => exact h₁

/-- A recorded intent commits the command to this activation. -/
theorem append_once {w : PWorld} {e : Event} (hid : e.commandId = command.commandId)
    (hty : e.eventType = .started) (hw : Along onceContract ctx w₀ (Claimed i p command) w) :
    Holds onceContract ctx i (append (.event e))
      (fun r w' => match r with
        | .ok _ => Along onceContract ctx w₀ (Committed i p command) w'
        | .error _ => Along onceContract ctx w₀ (Claimed i p command) w') w := by
  refine (onceContract_calm.append_stored claimed_stable (.event e) hw).mono fun r w' h => ?_
  obtain ⟨h₁, hstored⟩ := h
  cases r with
  | error _ => exact h₁
  | ok _ =>
    obtain ⟨hmem, b, hb, hi, hact, hsome⟩ := hstored rfl
    exact h₁.mono fun hc => ⟨hc.aiming, hc.seen, mem_executed.2 ⟨e, hmem, hid⟩,
      ⟨b, hb, hi, e, hact, hid, hty, hsome⟩, hc.unexecuted⟩

/-- **The execution itself.** It is the first of this command, and it is neither known to
the journal that this activation began with, nor claimed by a waiting activation. -/
theorem execute_once {w : PWorld} (hj : command.commandId ∉ executed w₀.st.journal)
    (hs : command.commandId ∉ (w₀.st.planes p).seen)
    (hfree : ∀ j op p', (j, op) ∈ ctx → p' ≠ p → ¬ exposed w₀.log j p' command.commandId)
    (hw : Along onceContract ctx w₀ (Committed i p command) w) :
    Holds onceContract ctx i (execute p command)
      (fun _ w' => Along onceContract ctx w₀ (Aiming i p command) w') w := by
  have hsteady : Steady onceContract ctx i p (Along onceContract ctx w₀ (Aiming i p command)) :=
    onceContract_calm.steady aiming_stable
  have hcount := executions_execute w i p command
  -- the invariant right after the call
  have hinv : OnceInv (w.push i (.call (.execute p command))) := by
    refine ⟨fun y => ?_, fun y hy => ?_, fun p' c hc => ?_, hw.inv.intended⟩
    · rw [hcount]
      have := hw.inv.once y
      by_cases hy : command.commandId = y
      · have := hw.here.unexecuted
        subst hy; simp; omega
      · simp [hy]; omega
    · rw [hcount] at hy
      by_cases hxy : command.commandId = y
      · exact hxy ▸ hw.here.recorded
      · exact hw.inv.settled y (by simpa [hxy] using hy)
    · cases hc
      exact hw.here.intent
  -- to the calls that wait, this execution is one they cannot collide with
  have hrel : OnceRel ctx w₀ (w.push i (.call (.execute p command))) := by
    have hne : ∀ y, command.commandId ≠ y → executions w.log y = executions w₀.log y →
        executions (w.push i (.call (.execute p command))).log y = executions w₀.log y := by
      intro y hy h
      rw [hcount, h]; simp [hy]
    refine ⟨fun e he => List.mem_cons_of_mem _ (hw.rel.log e he), hw.rel.seen, hw.rel.journal,
      fun y hy => hne y (fun h => hj (h ▸ hy)) (hw.rel.settled y hy), ?_⟩
    intro j op p' y hm hexp hor
    by_cases hy : command.commandId = y
    · subst hy
      by_cases hp : p' = p
      · subst hp
        rcases hor with h | h
        · exact absurd h hs
        · exact absurd hw.here.seen h
      · exact absurd hexp (hfree j op p' hm hp)
    · exact hne y hy (hw.rel.exposed j op p' y hm hexp hor)
  have hcall : Along onceContract ctx w₀ (Aiming i p command)
      (w.push i (.call (.execute p command))) := by
    refine ⟨hinv, hrel, ?_⟩
    have := hw.here.aiming
    unfold Aiming aims at this ⊢
    rw [World.push_log, List.any_cons, this, Bool.or_true]
  unfold execute onException
  rw [holds_catching, holds_bind, holds_ask]
  refine ⟨hinv, fun w₁ hinv₁ _ hrel₁ a _ => ?_⟩
  have hreply : ∀ p' c, Act.reply (.execute p command) a ≠
      (Act.call (.execute p' c) : Act Op Answer Exc Method Value) := by
    intro p' c h
    cases h
  have hinv₂ : OnceInv (w₁.push i (.reply (.execute p command) a)) := OnceInv.push hinv₁ hreply
  have hall : OnceRel ((i, .execute p command) :: ctx) _ (w₁.push i (.reply (.execute p command) a)) :=
    OnceRel.trans hrel₁ (OnceRel.push _ w₁ hreply)
  have h₂ : Along onceContract ctx w₀ (Aiming i p command)
      (w₁.push i (.reply (.execute p command) a)) :=
    hcall.step hinv₂ (onceContract_calm.narrow _ _ _ _ hall)
      (aiming_stable (.execute p command) _ _ hall hcall.here)
  -- whatever the executor did, only quiet steps are left
  refine Keeps.holds (P := fun _ => True) ?_ h₂ (fun _ _ h _ => h) fun e w' h => ?_
  · cases a with
    | outcome o =>
      dsimp only
      split
      · exact keeps_throw
      · exact (hsteady.result _ _ _ _).weaken fun _ _ => trivial
      · exact hsteady.identifiers.bind fun _ _ => keeps_throw
    | _ => exact keeps_throw
  · dsimp only
    split
    · exact (hsteady.result command _ _ _).holds h (fun _ _ h _ => h) fun _ _ h => h
    · exact h

theorem actuate_once {w : PWorld} {start : ℤ} {guard : Option Guard}
    (hj : command.commandId ∉ executed w₀.st.journal)
    (hs : command.commandId ∉ (w₀.st.planes p).seen)
    (hfree : ∀ j op p', (j, op) ∈ ctx → p' ≠ p → ¬ exposed w₀.log j p' command.commandId)
    (hw : Along onceContract ctx w₀ (Committed i p command) w) :
    Holds onceContract ctx i (actuate p command start guard)
      (fun _ w' => Along onceContract ctx w₀ (Aiming i p command) w') w := by
  have hsteady : Steady onceContract ctx i p (Along onceContract ctx w₀ (Aiming i p command)) :=
    onceContract_calm.steady aiming_stable
  have hcommitted : Steady onceContract ctx i p (Along onceContract ctx w₀ (Committed i p command)) :=
    onceContract_calm.steady committed_stable
  unfold actuate
  refine (hcommitted.guardDenial guard).seq hw (fun d w₁ h₁ _ => ?_) fun e w₁ h₁ =>
    h₁.mono Committed.aiming
  cases d with
  | some code =>
    refine (hsteady.result command _ _ _).seq (h₁.mono Committed.aiming) (fun res w₂ h₂ _ => ?_)
      fun _ _ h₂ => h₂
    exact (hsteady.finish _ _ _ _).holds h₂ (fun _ _ h _ => h) fun _ _ h => h
  | none =>
    refine holds_bind.2 ((execute_once hj hs hfree h₁).mono fun r w₂ h₂ => ?_)
    cases r with
    | ok res => exact (hsteady.finish _ _ _ _).holds h₂ (fun _ _ h _ => h) fun _ _ h => h
    | error e => exact h₂

theorem intend_once {w : PWorld} {start : ℤ} {guard : Option Guard}
    (hj : command.commandId ∉ executed w₀.st.journal)
    (hs : command.commandId ∉ (w₀.st.planes p).seen)
    (hfree : ∀ j op p', (j, op) ∈ ctx → p' ≠ p → ¬ exposed w₀.log j p' command.commandId)
    (hw : Along onceContract ctx w₀ (Claimed i p command) w) :
    Holds onceContract ctx i (intend p command start guard)
      (fun _ w' => Along onceContract ctx w₀ (Aiming i p command) w') w := by
  have hsteady : Steady onceContract ctx i p (Along onceContract ctx w₀ (Aiming i p command)) :=
    onceContract_calm.steady aiming_stable
  have hclaimed : Steady onceContract ctx i p (Along onceContract ctx w₀ (Claimed i p command)) :=
    onceContract_calm.steady claimed_stable
  have hblocked : ∀ w₁, Along onceContract ctx w₀ (Aiming i p command) w₁ →
      Holds onceContract ctx i (result p command .blocked []
        (some (error .journalUnavailable "Cannot persist execution intent")))
        (fun _ w' => Along onceContract ctx w₀ (Aiming i p command) w') w₁ :=
    fun w₁ h₁ => (hsteady.result command _ _ _).holds h₁ (fun _ _ h _ => h) fun _ _ h => h
  unfold intend onException
  rw [holds_bind, holds_catching]
  refine (hclaimed.event command none start).seq hw (fun e w₁ h₁ he => ?_) fun e w₁ h₁ => ?_
  · rw [holds_bind]
    refine (append_once he.1 he.2.2 h₁).mono fun r w₂ h₂ => ?_
    cases r with
    | ok _ => exact actuate_once hj hs hfree h₂
    | error e =>
      dsimp only
      split
      · exact hblocked w₂ (h₂.mono Claimed.aiming)
      · exact h₂.mono Claimed.aiming
  · dsimp only
    split
    · exact hblocked w₁ (h₁.mono Claimed.aiming)
    · exact h₁.mono Claimed.aiming

/-- **One dispatch keeps the contract**, if no waiting activation is exposed for its command
on another plane, or the command is a duplicate anyway. -/
theorem dispatchBody_once {canceled confirmed : Bool} {guard : Option Guard}
    (hfree : command.commandId ∉ executed w₀.st.journal →
      command.commandId ∉ (w₀.st.planes p).seen →
      ∀ j op p', (j, op) ∈ ctx → p' ≠ p → ¬ exposed w₀.log j p' command.commandId) :
    Keeps onceContract ctx i (Along onceContract ctx w₀ (Aiming i p command))
      (dispatchBody p command canceled confirmed guard) (fun _ => True) := by
  have hsteady : Steady onceContract ctx i p (Along onceContract ctx w₀ (Aiming i p command)) :=
    onceContract_calm.steady aiming_stable
  have hinformed : Steady onceContract ctx i p (Along onceContract ctx w₀ (Informed w₀ i p command)) :=
    onceContract_calm.steady informed_stable
  have hclaimed : Steady onceContract ctx i p (Along onceContract ctx w₀ (Claimed i p command)) :=
    onceContract_calm.steady claimed_stable
  suffices h : ∀ w, Along onceContract ctx w₀ (Aiming i p command) w →
      Holds onceContract ctx i (dispatchBody p command canceled confirmed guard)
        (fun _ w' => Along onceContract ctx w₀ (Aiming i p command) w') w from
    fun w hw => (h w hw).mono fun _ _ h' => ⟨h', fun _ _ => trivial⟩
  intro w hw
  unfold dispatchBody onException
  rw [holds_bind, holds_catching]
  refine holds_bind.2 ((readHistory_once hw).mono fun r w₁ h₁ => ?_)
  cases r with
  | error e =>
    dsimp only
    split
    · exact (hsteady.result command _ _ _).holds h₁ (fun _ _ h _ => h) fun _ _ h => h
    · exact h₁
  | ok pending =>
    dsimp only [Function.comp, holds_pure]
    refine (hinformed.clock).seq h₁ (fun start w₂ h₂ _ => ?_) fun e w₂ h₂ => h₂.mono Informed.aiming
    rw [holds_bind, holds_read]
    dsimp only
    unfold addSeen
    rw [holds_bind, holds_write]
    dsimp only
    have h₃ := hinformed.seen w₂ [command.commandId] h₂
    by_cases hdup : (w₂.st.planes p).seen.contains command.commandId = true
    · -- a duplicate is refused before anything else
      rw [hdup]
      simp only [authorize, if_true, Bool.not_true, Bool.and_false, Bool.false_eq_true, if_false]
      exact (hsteady.refuse command _ _ _).holds (h₃.mono Informed.aiming) (fun _ _ h _ => h) fun _ _ h => h
    · rw [Bool.not_eq_true] at hdup
      have hnew : command.commandId ∉ (w₂.st.planes p).seen := by simpa using hdup
      obtain ⟨hexp, hzero⟩ := h₂.here.fresh.resolve_left hnew
      have hj : command.commandId ∉ executed w₀.st.journal := fun h => hnew (h₂.here.known _ h)
      have hs : command.commandId ∉ (w₀.st.planes p).seen := fun h => hnew (h₂.rel.seen p _ h)
      have h₄ : Along onceContract ctx w₀ (Claimed i p command)
          (w₂.put (w₂.st.modify p (.see [command.commandId]))) :=
        h₃.mono fun h => ⟨h.aiming, by simp [ControlPlane.see], hexp, hzero⟩
      rw [hdup]
      refine (hclaimed.authorize command false _ _ guard).seq h₄ (fun d w₅ h₅ _ => ?_)
        fun _ _ h₅ => h₅.mono Claimed.aiming
      split
      · exact (hsteady.refuse command _ _ _).holds (h₅.mono Claimed.aiming) (fun _ _ h _ => h) fun _ _ h => h
      · cases d with
        | some code =>
          exact (hsteady.refuse command _ _ _).holds (h₅.mono Claimed.aiming) (fun _ _ h _ => h) fun _ _ h => h
        | none => exact intend_once hj hs (hfree hj hs) h₅

/-- Every other change a plane makes to itself leaves `_seen` alone. -/
theorem Along.change {E : PWorld → Prop} (hE : Stable onceContract ctx i E) {w : PWorld}
    (hw : Along onceContract ctx w₀ E w) {f : ControlPlane → ControlPlane}
    (hf : ∀ c, (f c).seen = c.seen) : Along onceContract ctx w₀ E (w.put (w.st.modify p f)) := by
  have hseen : ∀ q, ∀ x ∈ (w.st.planes q).seen, x ∈ ((w.st.modify p f).planes q).seen := by
    intro q x hx
    by_cases hq : q = p
    · subst hq
      rwa [State.modify_self, hf]
    · rwa [State.modify_other _ _ hq]
  have hrel : ∀ ctx, OnceRel ctx w (w.put (w.st.modify p f)) := fun ctx => .put ctx w hseen fun _ h => h
  exact hw.step (hw.inv.put fun _ h => h) (hrel ctx) (hE .read _ _ (hrel _) hw.here)

theorem use_seen (c : ControlPlane) : c.use.seen = c.seen := rfl

theorem release_seen (c : ControlPlane) : c.release.seen = c.seen := rfl

theorem take_seen (token : String) (c : ControlPlane) : (c.take token).seen = c.seen := rfl

theorem catalogUse_once {α : Type} {P : α → Prop} {E : PWorld → Prop}
    (hE : Stable onceContract ctx i E) {body : VM α}
    (h : Keeps onceContract ctx i (Along onceContract ctx w₀ E) body P) :
    Keeps onceContract ctx i (Along onceContract ctx w₀ E) (catalogUse p body) P :=
  Keeps.bind (keeps_write fun _ hw => hw.change hE fun _ => rfl) fun _ _ =>
    h.lastly (keeps_write fun _ hw => hw.change hE fun _ => rfl)

theorem requestConfirmation_once {E : PWorld → Prop} (hE : Stable onceContract ctx i E)
    (key : Option String) :
    Keeps onceContract ctx i (Along onceContract ctx w₀ E) (requestConfirmation p command key)
      (fun _ => True) := by
  have hsteady : Steady onceContract ctx i p (Along onceContract ctx w₀ E) :=
    onceContract_calm.steady hE
  refine (keeps_snapshotCommand command).bind fun _ _ => ?_
  cases key.filter (fun k => k ≠ "") with
  | none => exact keeps_throw
  | some key =>
    refine catalogUse_once hE (hsteady.issuePreview command key fun w f hf hw => hw.change hE ?_)
    intro c
    obtain ⟨l, hl⟩ := hf c
    rw [hl]

theorem replaceCatalog_once {E : PWorld → Prop} (hE : Stable onceContract ctx i E)
    (catalog : List Capability) (expected new : ℤ) :
    Keeps onceContract ctx i (Along onceContract ctx w₀ E) (replaceCatalog p catalog expected new)
      (fun _ => True) := by
  unfold replaceCatalog
  refine .ite (fun _ => keeps_throw) fun _ => ?_
  cases catalogSnapshot catalog with
  | error e => exact keeps_throw
  | ok r =>
    refine .ite (fun _ => keeps_throw) fun _ => ?_
    refine (keeps_read (P := fun _ => True) fun _ _ => trivial).bind fun s _ => ?_
    refine .ite (fun _ => keeps_throw) fun _ => .ite (fun _ => keeps_throw) fun _ => ?_
    exact Keeps.bind (keeps_write fun _ hw => hw.change hE fun _ => rfl) fun _ _ =>
      keeps_pure trivial

theorem confirmPreview_once {preview : Confirmation} {originalKey channel : String}
    {key : Option String} {approved : Option Bool} {guard : Option Guard}
    (hfree : preview.command.commandId ∉ executed w₀.st.journal →
      preview.command.commandId ∉ (w₀.st.planes p).seen →
      ∀ j op p', (j, op) ∈ ctx → p' ≠ p → ¬ exposed w₀.log j p' preview.command.commandId) :
    Keeps onceContract ctx i (Along onceContract ctx w₀ (Aiming i p preview.command))
      (confirmPreview p preview originalKey channel key approved guard) (fun _ => True) := by
  have hsteady : Steady onceContract ctx i p
      (Along onceContract ctx w₀ (Aiming i p preview.command)) :=
    onceContract_calm.steady aiming_stable
  exact hsteady.confirmPreview preview originalKey channel key approved guard
    fun _ _ => dispatchBody_once hfree

end Dispatch

/-! ## Whole runs -/

theorem target_plane {s : State} {m : Method} {p : ℕ} {x : String} (h : target s m = some (p, x)) :
    m.plane = p := by
  cases m with
  | dispatch q c canceled guard => simp only [target, Option.some.injEq, Prod.mk.injEq] at h; exact h.1
  | confirm q token channel key approved guard =>
    simp only [target, Option.map_eq_some_iff, Prod.mk.injEq] at h
    obtain ⟨_, _, hp, _⟩ := h
    exact hp
  | _ => cases h

/-- What the environment promises when it calls `m`. -/
theorem uncontested_free {w : PWorld} {ctx : List (ℕ × Op)} {m : Method} {p : ℕ} {x : String}
    (h : uncontested w ctx m = true) (ht : target w.st m = some (p, x))
    (hj : x ∉ executed w.st.journal) (hs : x ∉ (w.st.planes p).seen) :
    ∀ j op p', (j, op) ∈ ctx → p' ≠ p → ¬ exposed w.log j p' x := by
  intro j op p' hm hp hexp
  have haim : p' ∈ planesOf w.log j := by
    unfold exposed aims at hexp
    rw [Bool.and_eq_true, List.any_eq_true] at hexp
    obtain ⟨⟨e, he, ha⟩, -⟩ := hexp
    rw [Bool.and_eq_true, decide_eq_true_eq] at ha
    obtain ⟨hf, ha⟩ := ha
    unfold planesOf
    rw [List.mem_filterMap]
    refine ⟨e, he, ?_⟩
    rw [if_pos hf]
    split at ha
    · rename_i m' hm'
      simpa using target_plane (of_decide_eq_true ha)
    · cases ha
  have hc : contested w ctx m = true := by
    unfold contested
    rw [ht]
    simp only [Bool.and_eq_true, Bool.not_eq_true', List.contains_eq_mem, decide_eq_false_iff_not,
      List.any_eq_true, decide_eq_true_eq]
    exact ⟨⟨hj, hs⟩, (j, op), hm, p', haim, hp, hexp⟩
  unfold uncontested at h
  rw [hc] at h
  cases h

/-- Every method keeps the contract. -/
theorem onceContract_kept : onceContract.Kept where
  method ctx m w hen _ _ hinv := by
    have h₀ : ∀ E : PWorld → Prop, E (w.enter m) → Along onceContract ctx w E (w.enter m) := by
      intro E hE
      have hne : ∀ p c, Act.invoke m ≠ (Act.call (.execute p c) : Act Op Answer Exc Method Value) := by
        intro p c h; cases h
      have hpush := hinv.push (i := w.next) hne
      have hrel := OnceRel.push ctx w (i := w.next) hne
      exact ⟨⟨hpush.once, hpush.settled, hpush.intended⟩,
        ⟨hrel.log, hrel.seen, hrel.journal, hrel.settled, hrel.exposed⟩, hE⟩
    -- at its end an activation only logs its outcome
    have hend : ∀ {E : PWorld → Prop} (r : Except Exc Value) (w' : PWorld),
        Along onceContract ctx w E w' →
        OnceInv (w'.push w.next (.ret r)) ∧ OnceRel ctx w (w'.push w.next (.ret r)) := by
      intro E r w' h
      have hne : ∀ p c, Act.ret r ≠ (Act.call (.execute p c) : Act Op Answer Exc Method Value) := by
        intro p c h; cases h
      exact ⟨h.inv.push hne, h.rel.trans (OnceRel.push ctx w' hne)⟩
    have hfinal : ∀ {E : PWorld → Prop} {P : Value → Prop}, E (w.enter m) →
        Keeps onceContract ctx w.next (Along onceContract ctx w E) (body m) P →
        Holds onceContract ctx w.next (body m)
          (fun r w' => OnceInv (w'.push w.next (.ret r)) ∧ OnceRel ctx w (w'.push w.next (.ret r)))
          (w.enter m) :=
      fun hE h => h.holds (h₀ _ hE) (fun _ w' h _ => hend _ w' h) fun _ w' h => hend _ w' h
    have htrue : Stable onceContract ctx w.next (fun _ => True) := fun _ _ _ _ h => h
    have hsteady : ∀ p, Steady onceContract ctx w.next p (Along onceContract ctx w (fun _ => True)) :=
      fun p => onceContract_calm.steady htrue
    have haim : ∀ p x, target w.st m = some (p, x) → aims (w.enter m).log w.next p x := by
      intro p x ht
      unfold aims
      rw [World.enter_log, List.any_cons]
      simp [ht]
    cases m with
    | dispatch p command canceled guard =>
      refine hfinal (E := Aiming w.next p command) (P := fun _ => True) (haim p _ rfl) ?_
      refine Keeps.map (P := fun _ => True) ?_ fun _ _ => trivial
      refine (keeps_snapshotCommand command).bind fun _ _ => ?_
      cases canceled with
      | none => exact keeps_throw
      | some canceled =>
        exact catalogUse_once aiming_stable (dispatchBody_once (uncontested_free hen rfl))
    | requestConfirmation p command key =>
      exact hfinal (P := fun _ => True) trivial
        ((requestConfirmation_once htrue key).map fun _ _ => trivial)
    | confirm p token channel key approved guard =>
      show Holds onceContract ctx w.next (Value.result <$> confirm p token channel key approved guard)
        _ (w.enter _)
      refine holds_bind.2 (holds_catalogUse.2 ?_)
      rw [holds_bind, holds_read]
      dsimp only
      have hsame : (((w.enter (.confirm p token channel key approved guard)).put
          ((w.enter (.confirm p token channel key approved guard)).st.modify p .use)).st.planes
            p).confirmations = (w.st.planes p).confirmations := by
        rw [World.put_st, State.modify_self]; rfl
      rw [hsame]
      cases htok : token.bind fun t => ((w.st.planes p).confirmations.get t).map fun v => (t, v) with
      | none =>
        exact hend _ _ (((h₀ _ trivial).change htrue use_seen).change htrue release_seen)
      | some v =>
        obtain ⟨t, preview, originalKey⟩ := v
        have ht : target w.st (.confirm p token channel key approved guard) =
            some (p, preview.command.commandId) := by
          cases token with
          | none => cases htok
          | some tok =>
            simp only [Option.bind_some, Option.map_eq_some_iff, Prod.mk.injEq] at htok
            obtain ⟨v, hv, rfl, rfl⟩ := htok
            simp [target, hv]
        have hstart := ((h₀ (Aiming w.next p preview.command) (haim p _ ht)).change (p := p)
          aiming_stable use_seen).change (p := p) aiming_stable (take_seen t)
        dsimp only
        rw [holds_bind, holds_write]
        dsimp only
        refine (confirmPreview_once (uncontested_free hen ht)).holds hstart (fun res w' h _ => ?_)
          fun e w' h => ?_
        · exact hend _ _ (h.change aiming_stable release_seen)
        · exact hend _ _ (h.change aiming_stable release_seen)
    | replaceCatalog p catalog expected new =>
      exact hfinal (P := fun _ => True) trivial
        ((replaceCatalog_once htrue catalog expected new).map fun _ _ => trivial)
    | assess p command =>
      exact hfinal (E := fun _ => True) (P := fun _ => True) trivial ((keeps_assess command).map fun _ _ => trivial)
    | observeInteraction p command phase details =>
      exact hfinal (P := fun _ => True) trivial
        (((hsteady p).observeInteraction command phase details).map fun _ _ => trivial)
  crash w s hinv hs := by
    cases hs
    have hne : ∀ p c, Act.crash ≠ (Act.call (.execute p c) : Act Op Answer Exc Method Value) := by
      intro p c h; cases h
    have hput : OnceInv (w.put (restart w.st)) := hinv.put fun _ h => h
    have hpush := hput.push (i := w.next) hne
    exact ⟨hpush.once, hpush.settled, hpush.intended⟩

/-- **At most one execution of a command.** In every run in which no contested call is
made, whatever the callbacks answer and however often the process restarts, an
executor is called at most once for each command identifier, and only after the same
activation had a start event of that command stored in the journal. -/
theorem executed_at_most_once (s : State) {c : Config State Op Answer Exc Method Value}
    (h : (restarting uncontested).Reachable s c) :
    (∀ x, executions c.w.log x ≤ 1) ∧
      ∀ newer e older p command, c.w.log = newer ++ e :: older →
        e.act = .call (.execute p command) →
          ∃ b ∈ older, b.frame = e.frame ∧ Starts command.commandId b := by
  have hinv : OnceInv c.w := by
    refine Contract.sound onceContract_kept ⟨fun x => ?_, fun x hx => absurd rfl hx, trivial⟩ h
    exact Nat.zero_le 1
  refine ⟨hinv.once, ?_⟩
  intro newer e older p command hlog hact
  have hint := hinv.intended
  rw [hlog] at hint
  exact hint.at p command hact

/-! ## A contested call -/

/-- A plane whose profile, policy and catalog allow one safe action. -/
def permissive : ControlPlane where
  catalog := [⟨"act", 1, true, .safe, [], "test"⟩]
  catalogVersion := 1
  catalogUsers := 0
  policy := ⟨"policy", 1, true, ["act"], []⟩
  profile := ⟨"profile", "policy", true, true⟩
  seen := []
  confirmations := []

/-- Such planes, and an empty journal. -/
def permissiveState : State :=
  ⟨fun _ => permissive, fun _ => ⟨0, [], false, [], [], false⟩, []⟩

/-- A command for the action. -/
def act (id : String) : Command :=
  ⟨id, "correlation", "act", 1, 0, [],
    ⟨"session", "profile", none, none, .test, none, none, "test", .«private»⟩⟩

theorem executed_at_most_once_run :
    ∃ c, (restarting uncontested).Reachable permissiveState c ∧ executions c.w.log "x" = 1 ∧
      ∀ x, executions c.w.log x ≤ 1 := by
  obtain ⟨c, hc, hx⟩ := Machine.Reachable.of_run (restarting uncontested) permissiveState
    [.invoke (.dispatch 0 (act "x") (some false) none), .reply .done, .reply (.time 0),
      .reply (.time 0), .reply (.text "e1"), .reply .done]
    (fun c => executions c.w.log "x" = 1) (by decide)
  exact ⟨c, hc, of_decide_eq_true hx, (executed_at_most_once _ hc).1⟩

/-- The identifiers that the identifier sources gave. -/
def identifiersGiven (log : List PEntry) : List String :=
  log.filterMap fun e => match e.act with
    | .reply (.identifiers _) (.text s) => some s
    | _ => none

/-- The guard of a dispatch of `x` on plane `0` dispatches `y` there, whose executor
dispatches `x` on plane `1`. -/
def crossedCalls : List (Input Answer Method) :=
  [.invoke (.dispatch 0 (act "x") (some false) (some (.callback 0))),
    .reply .done, .reply (.time 0),
    .invoke (.dispatch 0 (act "y") (some false) none),
    .reply .done, .reply (.time 0), .reply (.time 0), .reply (.text "e1"), .reply .done,
    .invoke (.dispatch 1 (act "x") (some false) none),
    .reply .done, .reply (.time 0), .reply (.time 0), .reply (.text "e2"), .reply .done,
    .reply (.outcome ⟨"success", some [], none⟩), .reply (.text "r1"), .reply (.time 0),
    .reply (.text "e3"), .reply .done,
    .reply (.outcome ⟨"success", some [], none⟩), .reply (.text "r2"), .reply (.time 0),
    .reply (.text "e4"), .reply .done,
    .reply (.truth true), .reply (.time 0), .reply (.text "e5"), .reply .done,
    .reply (.truth true)]

/-- **The exposed call executes the command again**: with fresh identifiers, no failure and
no restart, `x` is executed by plane `1` and then by plane `0`. -/
theorem executes_twice :
    ∃ c, (restarting ownPlane).Reachable permissiveState c ∧ (identifiersGiven c.w.log).Nodup ∧
      executions c.w.log "x" = 2 := by
  obtain ⟨c, hc, hx⟩ := Machine.Reachable.of_run (restarting ownPlane) permissiveState
    crossedCalls
    (fun c => (identifiersGiven c.w.log).Nodup ∧ executions c.w.log "x" = 2) (by decide)
  exact ⟨c, hc, of_decide_eq_true hx⟩

end Plane

end Arhugula
